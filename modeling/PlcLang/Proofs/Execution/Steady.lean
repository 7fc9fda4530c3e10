import PlcLang.Proofs.Execution.Likeness
import PlcLang.Proofs.Execution.Plain
import PlcLang.Session

/-!
# `PlcLang.Proofs.Execution.Steady`: what no run takes back

Whatever part of a program the interpreter runs, and however the run ends, what had been
printed before is still printed, and the scopes that were live before are live again, each
with the parent that it had (`steady_evaluate`, `steady_execute`, `steady_program`). So
between the programs of a session only the program's scope is live
(`Session.Settled.perform`).
-/

set_option autoImplicit false

namespace PlcLang

/-- The parents of the live scopes, in the order in which the scopes were entered. -/
def Arena.parents {V F : Type} (arena : Arena V F) : List (Option ScopeId) :=
  arena.scopes.map (·.parent)

/-- The later machine has printed what the earlier one has, and has its scopes. -/
structure MachineOf.Precedes {α : Type} (before after : MachineOf α) : Prop where
  printed : before.output.toList <+: after.output.toList
  parents_eq : before.scopes.parents ≠ [] → after.scopes.parents = before.scopes.parents

namespace MachineOf.Precedes

variable {α : Type} {before between after : MachineOf α}

/-- A machine goes before itself. -/
theorem refl (machine : MachineOf α) : machine.Precedes machine :=
  ⟨List.prefix_refl _, fun _ => rfl⟩

/-- What goes before a machine goes before the later ones. -/
theorem trans (h : before.Precedes between) (h' : between.Precedes after) :
    before.Precedes after := by
  refine ⟨h.printed.trans h'.printed, fun hlive => ?_⟩
  have hbetween := h.parents_eq hlive
  rw [h'.parents_eq (by rw [hbetween]; exact hlive), hbetween]

end MachineOf.Precedes

/-- Only the program's scope is live. This is so between the programs of a session. -/
def Session.Settled (session : Session) : Prop :=
  session.machine.scopes.parents = [none]

namespace Proofs

open Interpreter

variable {α β : Type}

/-! ### Parents -/

/-- There is a parent, or none, for each scope. -/
theorem length_parents {V F : Type} (arena : Arena V F) : arena.parents.length = arena.size :=
  List.length_map ..

/-- A scope that is entered has the parent that it was given. -/
theorem parents_push {V F : Type} (arena : Arena V F) (parent : ScopeId) :
    (arena.push parent).parents = arena.parents ++ [some parent] := by
  simp [Arena.parents, Arena.push]

/-- Releasing the scope that was entered gives back the parents from before, whatever was bound
in the meantime. -/
theorem parents_release {V F : Type} {before after : Arena V F} {parent : ScopeId}
    (hroot : before.size ≠ Arena.root)
    (hafter : after.parents = before.parents ++ [some parent]) :
    ((after.release before.size).toOption.getD after).parents = before.parents := by
  unfold Arena.release
  rw [if_neg hroot]
  show (after.scopes.take before.size).map (·.parent) = before.parents
  rw [List.map_take, ← length_parents]
  exact (congrArg _ hafter).trans List.take_left

/-- A change inside of a scope leaves the parents alone. -/
theorem parents_modify {V F : Type} (arena : Arena V F) (index : Nat)
    {f : Scope V F → Scope V F} (hf : ∀ scope, (f scope).parent = scope.parent) :
    (arena.modify index f).parents = arena.parents := by
  unfold Arena.parents Arena.modify
  refine List.ext_getElem? fun i => ?_
  rw [List.getElem?_map, List.getElem?_map, List.getElem?_modify]
  cases arena.scopes[i]? with
  | none => rfl
  | some scope =>
      by_cases heq : index = i
      · simp [heq, hf]
      · simp [heq]

/-- Binding a variable leaves the parents alone. -/
theorem parents_bindVariable {V F : Type} (arena : Arena V F) (index : Nat) (name : String)
    (value : V) : (arena.bindVariable index name value).parents = arena.parents :=
  parents_modify arena index fun _ => rfl

/-- Binding a function leaves the parents alone. -/
theorem parents_bindFunction {V F : Type} (arena : Arena V F) (index : Nat) (key : FunctionKey)
    (value : F) : (arena.bindFunction index key value).parents = arena.parents :=
  parents_modify arena index fun _ => rfl

/-! ### Computations -/

/-- The computation goes on from where it begins, whether it ends with an answer or
early. -/
def Steady (x : Run α) : Prop :=
  ∀ machine, Yields x machine (fun _ after => machine.Precedes after)
    fun _ after => machine.Precedes after

namespace Steady

variable {x : Run α}

/-- An answer changes nothing. -/
theorem pure (a : α) : Steady (pure a) := fun machine => MachineOf.Precedes.refl machine

/-- Stopping changes nothing. -/
theorem throw (stop : Stop) : Steady (throw stop : Run α) := fun machine =>
  MachineOf.Precedes.refl machine

/-- Steady parts can be put behind each other. -/
theorem bind {k : α → Run β} (h : Steady x) (hk : ∀ a, Steady (k a)) : Steady (x >>= k) :=
  fun machine => (h machine).bind fun a between hbetween =>
    (hk a between).imp (fun _ _ hafter => hbetween.trans hafter)
      fun _ _ hafter => hbetween.trans hafter

/-- Reading the machine and going on with it. -/
theorem get_bind {k : Machine → Run β} (hk : ∀ machine, Steady (k machine)) :
    Steady (get >>= k) := fun machine => hk machine machine

/-- A change has to keep what had been printed, and the scopes. -/
theorem modify {f : Machine → Machine}
    (hf : ∀ machine : Machine, machine.Precedes (f machine)) :
    Steady (modify f) := fun machine => hf machine

/-- Of two computations the first one is steady. Runs are put together of their parts in pairs,
also where only one of the two is of interest. -/
structure Beside (x y : Run α) : Prop where
  left : Steady x

/-- What is put together from steady parts is steady. -/
theorem compositional : Compositional fun {α} (x y : Run α) => Beside x y :=
  ⟨fun a => ⟨pure a⟩, fun hx hk => ⟨hx.left.bind fun a => (hk a).left⟩⟩

end Steady

/-! ### The parts of the interpreter -/

/-- A fault changes nothing. -/
theorem steady_fault (cause : FaultCause) (offset : Option Offset) :
    Steady (plain.fault cause offset : Run α) :=
  .throw _

/-- Binding a variable enters no scope. -/
theorem steady_bind (scope : ScopeId) (name : String) (value : Value) :
    Steady (plain.bind scope name value) :=
  .modify fun _ => ⟨List.prefix_refl _, fun _ => parents_bindVariable _ scope name value⟩

/-- The scope that is entered is gone again, and only that, however the body ends. -/
theorem steady_withScope {current parent : ScopeId} {body : ScopeId → Run α}
    (h : ∀ scope, Steady (body scope)) : Steady (plain.withScope current parent body) := by
  have hleave {before after : Machine} (hafter : (before.enter parent).Precedes after) :
      before.Precedes (after.leave before.scopes.size) := by
    refine ⟨hafter.printed, fun hlive => ?_⟩
    have hentered : (before.enter parent).scopes.parents = before.scopes.parents ++ [some parent] :=
      parents_push before.scopes parent
    have hparents : after.scopes.parents = before.scopes.parents ++ [some parent] :=
      (hafter.parents_eq (by simp [hentered])).trans hentered
    refine parents_release ?_ hparents
    rw [← length_parents]
    exact fun hnil => hlive (List.length_eq_zero_iff.mp hnil)
  intro machine
  have hbody := h machine.scopes.size (machine.enter parent)
  unfold Yields at hbody ⊢
  rw [plain_withScope_apply]
  cases hresult : body machine.scopes.size (machine.enter parent) with
  | ok a after =>
      rw [hresult] at hbody
      exact hleave hbody
  | error stop after =>
      rw [hresult] at hbody
      exact hleave hbody

/-- Reading a variable changes nothing. -/
theorem steady_readVariable (scope : ScopeId) (name : String) (offset : Offset) :
    Steady (plain.readVariable scope name offset) := by
  rw [plain_readVariable]
  refine .get_bind fun machine => ?_
  cases machine.scopes.boundVariable? scope name with
  | some value => exact .pure value
  | none => exact steady_fault _ _

/-- Writing a variable binds it, in a scope that there is. -/
theorem steady_writeVariable (scope : ScopeId) (name : String) (value : Value)
    (offset : Offset) : Steady (plain.writeVariable scope name value offset) := by
  rw [plain_writeVariable]
  refine .get_bind fun machine => ?_
  cases machine.scopes.ownerOfVariable? scope name with
  | some owner => exact steady_bind owner name value
  | none => exact steady_fault _ _

/-- Reading a field changes nothing. -/
theorem steady_readField (ref : ObjectRef) (name : String) (offset : Offset) :
    Steady (plain.readField ref name offset) := by
  rw [plain_readField]
  refine .get_bind fun machine => ?_
  cases (machine.heap.fields ref).get? name with
  | some value => exact .pure value
  | none => exact steady_fault _ _

/-- Writing a field changes the heap only. -/
theorem steady_writeField (ref : ObjectRef) (name : String) (value : Value) (offset : Offset) :
    Steady (plain.writeField ref name value offset) := by
  rw [plain_writeField]
  refine .get_bind fun machine => ?_
  by_cases hcontains : (machine.heap.fields ref).contains name = true
  · rw [if_pos hcontains]
    exact .modify fun machine => ⟨List.prefix_refl _, fun _ => rfl⟩
  · rw [if_neg hcontains]
    exact steady_fault _ _

/-- Finding a function changes nothing. -/
theorem steady_findFunction (scope : ScopeId) (key : FunctionKey) (offset : Offset) :
    Steady (plain.findFunction scope key offset) := by
  rw [plain_findFunction]
  refine .get_bind fun machine => ?_
  cases machine.scopes.boundFunction? scope key with
  | some callee => exact .pure callee
  | none => exact steady_fault _ _

/-- So does finding the method that a program begins with. -/
theorem steady_findMain : Steady plain.findMain := by
  rw [plain_findMain]
  refine .get_bind fun machine => ?_
  cases machine.scopes.boundFunction? Arena.root ("main", 0) with
  | some main => exact .pure main
  | none => exact steady_fault _ _

/-- So does finding a method of an object. -/
theorem steady_findMethod (ref : ObjectRef) (key : FunctionKey) (offset : Offset) :
    Steady (plain.findMethod ref key offset) := by
  rw [plain_findMethod]
  refine .get_bind fun machine => ?_
  cases machine.method? ref key with
  | some run => exact .pure run
  | none => exact steady_fault _ _

/-- A function of the host is a pure one, so it changes nothing of the machine. -/
theorem steady_callHost (run : HostFunction) (arguments : List Value) :
    Steady (plain.callHost run arguments) := by
  rw [plain_callHost]
  refine .get_bind fun machine => ?_
  cases run machine.heap arguments with
  | ok result => exact .pure result
  | error e => exact .throw _

/-- A number that is out of range stops the run and changes nothing. -/
theorem steady_inRange (answer : Except NumberError α) : Steady (plain.inRange answer) := by
  cases answer with
  | ok a => exact .pure a
  | error e => exact .throw _

/-- What is printed comes behind what had been printed. -/
theorem steady_printLine (arguments : List Value) : Steady (plain.printLine arguments) := by
  rw [plain_printLine]
  refine (steady_inRange _).bind fun text =>
    Steady.bind (.modify fun machine => ?_) fun _ => .pure _
  refine ⟨?_, fun _ => rfl⟩
  show machine.output.toList <+: (machine.output ++ text ++ "\n").toList
  rw [String.toList_append, String.toList_append, List.append_assoc]
  exact List.prefix_append _ _

/-- An operator changes nothing. -/
theorem steady_applyOperator (m : Offset) (op : BinaryOp) (left right : Offset)
    (leftValue rightValue : Value) :
    Steady (plain.applyOperator m op left right leftValue rightValue) := by
  unfold applyOperator
  cases op.apply leftValue rightValue with
  | ok value => exact .pure value
  | error refusal => exact .throw _

/-- Defining a method enters no scope. -/
theorem steady_defineMethod (method : Method Offset) : Steady (plain.defineMethod method) :=
  .modify fun _ => ⟨List.prefix_refl _, fun _ => parents_bindFunction _ Arena.root _ _⟩

/-! ### Runs -/

/-- Every part of a run is steady. The run is compared with itself, since only one
of the two is of interest. -/
theorem likeness_steady :
    Likeness plain plain id .same (.none Offset) fun _ {_} x y => Steady.Beside x y where
  compositional _ := Steady.compositional
  ofExpression h := h
  ofStatement h := h
  expression _ _ _ _ h := h
  statement _ _ _ _ h := h
  block h := ⟨steady_withScope fun inner => (h inner).left⟩
  method h := ⟨steady_withScope fun inner => (h inner).left⟩
  tooDeep _ := ⟨.throw _⟩
  tooLong _ := ⟨.throw _⟩
  fault _ _ _ _ _ := ⟨.throw _⟩
  foreign _ _ _ _ _ _ _ := ⟨.throw _⟩
  bind scope name value := ⟨steady_bind scope name value⟩
  readVariable scope name m := ⟨steady_readVariable scope name m⟩
  writeVariable scope name value m := ⟨steady_writeVariable scope name value m⟩
  readField _ ref name m := ⟨steady_readField ref name m⟩
  writeField _ ref name value m := ⟨steady_writeField ref name value m⟩
  findFunction scope key m _ _ h :=
    ⟨(steady_findFunction scope key m).bind fun callee => (h callee trivial).left⟩
  findMethod _ ref key m _ _ h :=
    ⟨(steady_findMethod ref key m).bind fun run => (h run trivial).left⟩
  called _ _ _ := ⟨.pure ()⟩
  callHost _ _ _ arguments := ⟨steady_callHost _ arguments⟩
  printLine _ _ _ _ _ := ⟨steady_printLine _⟩
  applyOperator _ m op left right leftValue rightValue :=
    ⟨steady_applyOperator m op left right leftValue rightValue⟩
  define _ := ⟨steady_defineMethod _⟩
  findMain h := ⟨steady_findMain.bind fun main => (h main trivial).left⟩
  result value := ⟨steady_inRange value.display⟩

/-- So an expression is steady, however deep it nests. -/
theorem steady_evaluate (rounds depth : Nat) (scope : ScopeId) (e : Expr Offset) :
    Steady (plain.evaluate rounds depth scope e) :=
  (likeness_steady.evaluate rounds depth scope e fun _ _ => trivial).left

/-- So is a statement. -/
theorem steady_execute (rounds depth : Nat) (scope : ScopeId) (s : Stmt Offset) :
    Steady (plain.execute rounds depth scope s) :=
  (likeness_steady.execute rounds depth scope s fun _ _ => trivial).left

/-- So are the fields of a program. -/
theorem steady_defineFields (limits : Limits) (fields : List (Field Offset)) :
    Steady (plain.defineFields limits fields) :=
  (likeness_steady.defineFields limits fields fun _ _ _ _ => trivial).left

/-- Whatever a program does, it goes on from where it begins. -/
theorem steady_program (limits : Limits) (tree : Program Offset) :
    Steady (plain.program limits tree) :=
  (likeness_steady.program limits tree fun _ _ => trivial).left

end Proofs

/-- Checking a program does not touch the machine. -/
theorem Session.machine_check (session : Session) (tree : Program Offset) :
    (session.check tree).2.machine = session.machine := by
  unfold Session.check Session.checked
  cases Checker.plain.program session.types tree session.symbols <;> rfl

namespace Session.Settled

open Proofs

variable {session : Session}

/-- In the first session only the program's scope is live. -/
theorem initial : Session.initial.Settled := rfl

/-- So it is after the host has bound a variable. -/
theorem bindVariable (h : session.Settled) (name : String) (value : Value) :
    (session.bindVariable name value).Settled :=
  (parents_bindVariable session.machine.scopes Arena.root name value).trans h

/-- So it is after the host has bound a function. -/
theorem bindFunction (h : session.Settled) (key : FunctionKey) (run : HostFunction) :
    (session.bindFunction key run).Settled :=
  (parents_bindFunction session.machine.scopes Arena.root key (.host run)).trans h

/-- So it is after the host has made an object. -/
theorem newObject (h : session.Settled) (typeName : String) (fields : List (String × Value))
    (methods : List (FunctionKey × HostFunction)) :
    (session.newObject typeName fields methods).2.Settled := h

/-- So it is after a program has been checked. -/
theorem check (h : session.Settled) (tree : Program Offset) : (session.check tree).2.Settled := by
  unfold Session.Settled
  rw [Session.machine_check]
  exact h

/-- However a run ends, the scopes that it has pushed are gone. -/
theorem execute (h : session.Settled) (limits : Limits) (tree : Program Offset) :
    (session.execute limits tree).2.Settled := by
  have hsteady := steady_program limits tree session.quiet.machine
  have hlive : session.quiet.machine.scopes.parents ≠ [] := by
    rw [show session.quiet.machine.scopes.parents = [none] from h]
    exact List.cons_ne_nil _ _
  unfold Yields at hsteady
  unfold Session.execute Session.ran
  cases hrun : Interpreter.plain.program limits tree session.quiet.machine with
  | ok value after =>
      rw [hrun] at hsteady
      exact (hsteady.parents_eq hlive).trans h
  | error stop after =>
      rw [hrun] at hsteady
      exact (hsteady.parents_eq hlive).trans h

/-- Between the programs of a session only the program's scope is live, whatever
came of them. -/
theorem perform (h : session.Settled) (limits : Limits) (analyze : Bool)
    (tree : Program Offset) : (session.perform limits analyze tree).2.Settled := by
  unfold Session.perform Session.performed
  dsimp only
  cases analyze with
  | false => exact h.execute limits tree
  | true =>
      have hcheck := h.check tree
      cases hresult : session.check tree with
      | mk result checked =>
          rw [hresult] at hcheck
          cases result with
          | error e => exact hcheck
          | ok annotated => exact hcheck.execute limits tree

end Session.Settled

end PlcLang
