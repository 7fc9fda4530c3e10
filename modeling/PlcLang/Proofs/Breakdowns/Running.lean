import PlcLang.Proofs.Breakdowns.Exactness
import PlcLang.Proofs.Execution.Operators

/-!
# `PlcLang.Proofs.Breakdowns.Running`: the interpreter never breaks down

The exacting interpreter is the interpreter with an alarm at each place where something must be
there: the scopes that a look-up visits, the scope in which a name is bound, a scope that is to be
released, and the argument of the built-in function. The alarm is raised, too, for a function of
the host.

A machine on which only texts have run has no function of the host, and its methods have
expressions of the language only (`Machine.Standing`). On such a machine the alarm is never
raised: the exacting interpreter does what the interpreter does (`exact_program`). And what stops
the run is a fault of the program, a number that is out of range by itself, or a limit
(`Stop.Proper`). No number is ever divided by zero.
-/

set_option autoImplicit false

namespace PlcLang

/-- What stops the run is a fault of a program of the language, a number of it, or a
limit. It is neither an expression of another kind nor an error of the host. -/
def Stop.Proper : Stop → Prop
  | fault found => ∀ kind, found.cause ≠ .notEvaluable kind
  | host _ => False
  | number e => e.Proper
  | tooDeep | tooLong => True

/-! ### The exacting interpreter -/

namespace Interpreter

open Proofs

variable {α β : Type} {alarm : Stop} {current : ScopeId}

/-- Raises the alarm where a use of the scopes is a misuse. What the use would
answer does not matter. -/
def demand (alarm : Stop) (answer : Except ArenaError β) : Run Unit :=
  match answer with
  | .ok _ => pure ()
  | .error _ => throw alarm

/-- Raises the alarm where something is missing that must be there at this moment:
the scope that is bound in or released, or the scopes that a look-up visits. -/
def demandAt (alarm : Stop) : Moment Offset → Run Unit
  | .bind scope => do
    if ((← get).scopes.scope? scope).isSome then pure () else throw alarm
  | .release scope => do demand alarm ((← get).scopes.release scope)
  | .access _ name scope => do demand alarm ((← get).scopes.lookupVariable scope name)
  | .find key scope => do demand alarm ((← get).scopes.lookupFunction scope key)
  | .call .. => pure ()
  | .host _ => throw alarm
  | .print arguments => if arguments.isEmpty then throw alarm else pure ()

/-- The interpreter that takes nothing for granted. It is the plain one but for what
it does before it touches the scopes. -/
def exacting (alarm : Stop) : Interpreter Offset Stop Machine :=
  { plain with before := demandAt alarm }

end Interpreter

/-! ### Machines on which texts have run -/

/-- What a text can bind a function to: the built-in function has an argument, and
the expressions of a method are of the language. No text binds a function of the
host. -/
def Callable.Homely (key : FunctionKey) : Callable → Prop
  | .method m => Native m.exprs
  | .print => 0 < key.2
  | .host _ => False

/-- The scopes are a stack with `current` as the last one, and there is nothing of the
host. -/
structure Machine.Standing (current : ScopeId) (machine : Machine) : Prop where
  order : InOrder machine.scopes.parents current
  homely : Proofs.Binds Callable.Homely machine.scopes
  hostless : machine.methods = []

/-- What is known of the code that texts bring to a machine: its expressions are of
the language, and there is nothing of the host. -/
def Grounds.homely : Grounds Offset where
  expression := Expr.IsNative
  callee := Callable.Homely
  host _ := False
  ofMethod h := h
  ofHost h := h

namespace Interpreter

open Proofs

variable {α β : Type} {alarm : Stop} {current : ScopeId}

/-- On a machine on which only texts have run, `y` does what `x` does, leaves such a
machine, and stops properly only. -/
abbrev ExactRun (current : ScopeId) (x y : Run α) : Prop :=
  Exact (Machine.Standing current) Stop.Proper x y

/-! ### What must be there is there -/

/-- The alarm is not raised where it can be seen of all such machines that nothing
is missing. -/
theorem exact_before {moment : Moment Offset}
    (h : ∀ machine : Machine, machine.Standing current →
      demandAt alarm moment machine = .ok () machine) :
    ExactRun current (pure ()) ((exacting alarm).before moment) :=
  fun machine hstanding => ⟨h machine hstanding, hstanding⟩

/-- The scope that is bound in is there. -/
theorem demandAt_bind {machine : Machine} {scope : ScopeId}
    (h : ∃ found, machine.scopes.scope? scope = some found) :
    demandAt alarm (.bind scope) machine = .ok () machine := by
  obtain ⟨found, hfound⟩ := h
  show (if (machine.scopes.scope? scope).isSome then pure () else throw alarm : Run Unit) machine
    = _
  rw [hfound]
  rfl

/-- A variable is looked up in scopes that are there: each has its parent below it
in the stack. -/
theorem exact_access (m : Offset) (name : String) :
    ExactRun current (pure ()) ((exacting alarm).before (.access m name current)) := by
  refine exact_before fun machine h => ?_
  obtain ⟨found, hlookup, -⟩ := exists_lookupVariable h.order name
  show demand alarm (machine.scopes.lookupVariable current name) machine = _
  rw [hlookup]
  rfl

/-- A function is looked up in the same scopes, along the same chain. -/
theorem exact_find (key : FunctionKey) :
    ExactRun current (pure ()) ((exacting alarm).before (.find key current)) := by
  refine exact_before fun machine h => ?_
  obtain ⟨found, hlookup, -⟩ := exists_lookupFunction h.order key
  show demand alarm (machine.scopes.lookupFunction current key) machine = _
  rw [hlookup]
  rfl

/-! ### The parts of the interpreter -/

/-- A fault is proper, unless it is for an expression of a kind that cannot be
evaluated. -/
theorem exact_fault {cause : FaultCause} {offset : Option Offset}
    (h : ∀ kind, cause ≠ .notEvaluable kind) :
    ExactRun current (plain.fault cause offset : Run α) (plain.fault cause offset) :=
  .throw h

/-- A variable may be bound in any scope: neither the order of the scopes nor their
functions change. -/
theorem standing_bind {machine : Machine} (h : machine.Standing current) (scope : ScopeId)
    (name : String) (value : Value) : Machine.Standing current (machine.bind scope name value) := by
  refine ⟨?_, h.homely.bindVariable scope name value, h.hostless⟩
  show InOrder (machine.scopes.bindVariable scope name value).parents current
  rw [parents_bindVariable]
  exact h.order

/-- A variable is bound in the current scope, which is there. -/
theorem exact_bind (name : String) (value : Value) :
    ExactRun current (plain.bind current name value)
      ((exacting alarm).bind current name value) := by
  refine .guarded (exact_before fun machine h => ?_) (.modify fun machine h => ?_)
  · exact demandAt_bind (InOrder.exists_scope? h.order (Nat.le_refl current))
  · exact standing_bind h current name value

/-- The scope that was entered is there to be released, and the one below is left.
The parent of the new scope may be any scope below it, as that of a method's body
is. -/
theorem exact_withScope {parent : ScopeId} {body body' : ScopeId → Run α}
    (hparent : parent ≤ current) (h : ∀ inner, ExactRun inner (body inner) (body' inner)) :
    ExactRun current (plain.withScope current parent body)
      ((exacting alarm).withScope current parent body') := by
  intro machine hstanding
  have hsize : machine.scopes.size = current + 1 := InOrder.size_eq hstanding.order
  have hleft (after : Machine) : after.leave (current + 1)
      = { after with scopes := ⟨after.scopes.scopes.take (current + 1)⟩ } := by
    rw [MachineOf.leave, release_succ]
    rfl
  have hstands {after : Machine} (hafter : after.Standing (current + 1)) :
      Machine.Standing current (after.leave (current + 1)) := by
    rw [hleft]
    exact ⟨inOrder_take hafter.order, hafter.homely.take _, hafter.hostless⟩
  -- The exacting interpreter asks for the scope that it releases. It is there, since the new
  -- scope is not the root.
  have hleave (after : Machine) :
      (exacting alarm).leave (current + 1) after = .ok () (after.leave (current + 1)) := by
    show (demand alarm (after.scopes.release (current + 1)) >>= fun _ =>
      modify (·.leave (current + 1))) after = _
    rw [release_succ]
    rfl
  have hinside : Machine.Standing (current + 1) (machine.enter parent) :=
    ⟨inOrder_push hstanding.order hparent, hstanding.homely.push parent, hstanding.hostless⟩
  obtain ⟨hsame, hyields⟩ := h (current + 1) _ hinside
  have hentered : (exacting alarm).withScope current parent body' machine
      = always (body' (current + 1)) ((exacting alarm).leave (current + 1))
        (machine.enter parent) := by
    rw [← hsize]
    rfl
  unfold Yields at hyields ⊢
  rw [plain_withScope_apply, hentered, hsize, always, hsame]
  cases hresult : body (current + 1) (machine.enter parent) with
  | ok a after =>
      rw [hresult] at hyields
      exact ⟨bind_eq_of_ok (hleave after) _, hstands hyields⟩
  | error e after =>
      rw [hresult] at hyields
      exact ⟨bind_eq_of_ok (hleave after) _, hyields.1, hstands hyields.2⟩

/-- A variable is read where it was bound, or it is unknown, which is a proper
fault. -/
theorem exact_readVariable (name : String) (m : Offset) :
    ExactRun current (plain.readVariable current name m)
      ((exacting alarm).readVariable current name m) := by
  refine .guarded (y := plain.readVariable current name m) (exact_access m name) ?_
  rw [plain_readVariable]
  refine .get_bind fun machine h => ?_
  cases machine.scopes.boundVariable? current name with
  | some value => exact .pure value
  | none => exact exact_fault nofun

/-- The scope in which a variable is found is there, so that it can be written to. -/
theorem exists_scope?_of_owner {machine : Machine} {name : String} {owner : ScopeId}
    (h : machine.scopes.ownerOfVariable? current name = some owner) :
    ∃ found, machine.scopes.scope? owner = some found := by
  unfold Arena.ownerOfVariable? at h
  cases hfind : machine.scopes.findUp current fun index scope =>
      if scope.variableTable.contains name then some index else none with
  | error e =>
      rw [hfind] at h
      cases h
  | ok found =>
      rw [hfind] at h
      obtain rfl : found = some owner := h
      obtain ⟨index, scope, hscope, hfound⟩ := exists_of_findUp_eq_some hfind
      split at hfound
      · obtain rfl := Option.some.inj hfound
        exact ⟨scope, hscope⟩
      · cases hfound

/-- A variable is written where it was bound, or it is unknown, which is a proper
fault. -/
theorem exact_writeVariable (name : String) (value : Value) (m : Offset) :
    ExactRun current (plain.writeVariable current name value m)
      ((exacting alarm).writeVariable current name value m) := by
  rw [plain_writeVariable]
  refine .guarded (exact_access m name) (.of_state fun machine h => ?_)
  rw [get_bind_eq, get_bind_eq]
  rw [show (exacting alarm).machine machine = machine from rfl]
  cases howner : machine.scopes.ownerOfVariable? current name with
  | none =>
      have hproper : Stop.Proper (.fault ⟨.undefinedVariable name, m⟩) := nofun
      exact ⟨_, _, .throw hproper, rfl, rfl⟩
  | some owner =>
      have hbind : (exacting alarm).bind owner name value machine
          = plain.bind owner name value machine :=
        bind_eq_of_ok (demandAt_bind (exists_scope?_of_owner howner)) _
      refine ⟨_, plain.bind owner name value, ?_, rfl, hbind⟩
      exact .modify fun machine h => standing_bind h owner name value

/-- A field is read without a look at the scopes. An object without it is a proper
fault. -/
theorem exact_readField (ref : ObjectRef) (name : String) (offset : Offset) :
    ExactRun current (plain.readField ref name offset) (plain.readField ref name offset) := by
  rw [plain_readField]
  refine .get_bind fun machine h => ?_
  cases (machine.heap.fields ref).get? name with
  | some value => exact .pure value
  | none => exact exact_fault nofun

/-- A field is written without a look at the scopes. An object without it is a
proper fault. -/
theorem exact_writeField (ref : ObjectRef) (name : String) (value : Value) (offset : Offset) :
    ExactRun current (plain.writeField ref name value offset)
      (plain.writeField ref name value offset) := by
  rw [plain_writeField]
  refine .get_bind fun machine h => .ite (.modify fun machine h => ?_) (exact_fault nofun)
  exact ⟨h.order, h.homely, h.hostless⟩

/-- What is found is homely, since all that is bound is. -/
theorem homely_of_boundFunction? {machine : Machine} {key : FunctionKey} {callee : Callable}
    (h : machine.Standing current)
    (hfound : machine.scopes.boundFunction? current key = some callee) :
    Callable.Homely key callee := by
  obtain ⟨found, hlookup, hbound⟩ := exists_lookupFunction h.order key
  obtain rfl : found = some callee := hbound.symm.trans hfound
  exact h.homely.of_lookup hlookup

/-- What comes after a look-up may know that what is found is homely. The look-up
may be any that answers with what is bound, and stops properly where nothing is. -/
theorem exact_found {key : FunctionKey} {find : Run Callable} {stop : Stop} (hstop : stop.Proper)
    (hfind : ∀ machine, find machine = match machine.scopes.boundFunction? current key with
      | some callee => .ok callee machine
      | none => .error stop machine)
    {next next' : Callable → Run α}
    (h : ∀ callee, Callable.Homely key callee → ExactRun current (next callee) (next' callee)) :
    ExactRun current (find >>= next) (find >>= next') := by
  refine .of_state fun machine hstanding => ?_
  have hmachine := hfind machine
  cases hbound : machine.scopes.boundFunction? current key with
  | some callee =>
      rw [hbound] at hmachine
      exact ⟨_, _, h callee (homely_of_boundFunction? hstanding hbound),
        bind_eq_of_ok hmachine _, bind_eq_of_ok hmachine _⟩
  | none =>
      rw [hbound] at hmachine
      exact ⟨throw stop, throw stop, .throw hstop, bind_eq_of_error hmachine _,
        bind_eq_of_error hmachine _⟩

/-- What is called may be known to be homely. -/
theorem exact_findFunction {key : FunctionKey} {offset : Offset} {next next' : Callable → Run α}
    (h : ∀ callee, Callable.Homely key callee → ExactRun current (next callee) (next' callee)) :
    ExactRun current (plain.findFunction current key offset >>= next)
      ((exacting alarm).findFunction current key offset >>= next') := by
  have hfirst : (exacting alarm).findFunction current key offset >>= next'
      = (exacting alarm).before (.find key current) >>= fun _ =>
        plain.findFunction current key offset >>= next' := by
    rw [findFunction, bind_assoc]
    rfl
  have hproper : Stop.Proper (.fault ⟨.undefinedFunction key, offset⟩) := by
    intro kind h
    cases h
  rw [hfirst]
  refine .guarded (exact_find key) (exact_found hproper (fun machine => ?_) h)
  rw [plain_findFunction, get_bind_eq]
  cases machine.scopes.boundFunction? current key <;> rfl

/-- So may the method that a program begins with. A program without one is at fault. -/
theorem exact_findMain {next next' : Callable → Run α}
    (h : ∀ callee, Callable.Homely ("main", 0) callee →
      ExactRun Arena.root (next callee) (next' callee)) :
    ExactRun Arena.root (plain.findMain >>= next) ((exacting alarm).findMain >>= next') := by
  have hfirst : (exacting alarm).findMain >>= next'
      = (exacting alarm).before (.find ("main", 0) Arena.root) >>= fun _ =>
        plain.findMain >>= next' := by
    rw [findMain, bind_assoc]
    rfl
  have hproper : Stop.Proper (.fault ⟨.missingMain, none⟩) := by
    intro kind h
    cases h
  rw [hfirst]
  refine .guarded (exact_find ("main", 0)) (exact_found hproper (fun machine => ?_) h)
  rw [plain_findMain, get_bind_eq]
  cases machine.scopes.boundFunction? Arena.root ("main", 0) <;> rfl

/-- There is no method of the host to be found, so it does not matter what comes
after it. -/
theorem exact_findMethod (ref : ObjectRef) (key : FunctionKey) (offset : Offset)
    {next next' : HostFunction → Run α} :
    ExactRun current (plain.findMethod ref key offset >>= next)
      (plain.findMethod ref key offset >>= next') := by
  refine .of_state fun machine hstanding => ?_
  have hfind : plain.findMethod ref key offset machine
      = .error (.fault ⟨.undefinedMethod key, offset⟩) machine := by
    rw [plain_findMethod, get_bind_eq, MachineOf.method?, hstanding.hostless]
    rfl
  have hproper : Stop.Proper (.fault ⟨.undefinedMethod key, offset⟩) := nofun
  exact ⟨throw _, throw _, .throw hproper, bind_eq_of_error hfind _, bind_eq_of_error hfind _⟩

/-- What is written out is a value of the program, so that it fails for a number of
it only. -/
theorem exact_display (value : Value) :
    ExactRun current (plain.inRange value.display) (plain.inRange value.display) := by
  cases htext : value.display with
  | ok text => exact .pure text
  | error e => exact .throw (proper_of_display_eq_error htext)

/-- The built-in function has an argument to print, as many as its key says. -/
theorem exact_printLine {key : FunctionKey} {arguments : List Value}
    (hhomely : Callable.Homely key .print) (hlength : arguments.length = key.2) :
    ExactRun current (plain.printLine arguments) ((exacting alarm).printLine arguments) := by
  have hpositive : 0 < key.2 := hhomely
  rw [← hlength] at hpositive
  rw [plain_printLine]
  refine .guarded (exact_before fun machine h => ?_) ?_
  · obtain ⟨value, rest, rfl⟩ := List.exists_cons_of_length_pos hpositive
    rfl
  · refine (exact_display _).bind fun text =>
      Exact.bind (.modify fun machine h => ?_) fun _ => .pure _
    exact ⟨h.order, h.homely, h.hostless⟩

/-- An operator fails for its operands, or for a number of the program. What it
would divide by it has compared with zero before. -/
theorem exact_applyOperator (m : Offset) (op : BinaryOp) (left right : Offset)
    (leftValue rightValue : Value) :
    ExactRun current (plain.applyOperator m op left right leftValue rightValue)
      (plain.applyOperator m op left right leftValue rightValue) := by
  unfold applyOperator
  cases happly : op.apply leftValue rightValue with
  | ok value => exact .pure value
  | error refusal =>
      cases refusal_cases happly with
      | operands => exact .throw nofun
      | zero h => exact .throw nofun
      | number h => exact .throw h

/-- A method of the language may be defined, and is homely. -/
theorem exact_define {method : Method Offset} (h : Native method.exprs) :
    ExactRun Arena.root (plain.defineMethod method) ((exacting alarm).defineMethod method) := by
  refine .guarded (exact_before fun machine hstanding => ?_) (.modify fun machine hstanding => ?_)
  · exact demandAt_bind (InOrder.exists_scope? hstanding.order (Nat.le_refl _))
  · have hhomely : Callable.Homely (method.name, method.parameters.length) (.method method) := h
    refine ⟨?_, hstanding.homely.bindFunction Arena.root hhomely, hstanding.hostless⟩
    show InOrder (machine.scopes.bindFunction Arena.root _ _).parents Arena.root
    rw [parents_bindFunction]
    exact hstanding.order

/-! ### Runs -/

/-- Nothing is missing in any part of a run. The exacting interpreter is like the
plain one at every part, so that they are alike on whole runs. -/
theorem likeness_exacting (alarm : Stop) :
    Likeness plain (exacting alarm) id .same .homely
      fun part {_} x y => ExactRun part.scope x y where
  compositional _ := Exact.compositional
  ofExpression h := h
  ofStatement h := h
  expression _ _ _ _ h := h
  statement _ _ _ _ h := h
  block h := exact_withScope (Nat.le_refl _) h
  method h := exact_withScope (Nat.zero_le _) h
  tooDeep _ := .throw trivial
  tooLong _ := .throw trivial
  fault _ _ _ _ h := by
    rw [Option.map_id]
    exact exact_fault h
  -- Nodes of no known kind and functions of the host do not come up in a program that was read
  -- from a text and runs on its own.
  foreign _ _ _ _ _ h _ := h.elim
  bind _ _ _ := exact_bind _ _
  readVariable _ _ _ := exact_readVariable _ _
  writeVariable _ _ _ _ := exact_writeVariable _ _ _
  readField _ _ _ _ := exact_readField _ _ _
  writeField _ _ _ _ _ := exact_writeField _ _ _ _
  findFunction _ _ _ _ _ h := exact_findFunction fun callee hcallee => by
    have hnext := h callee hcallee
    rwa [Callee.relabel_id] at hnext
  findMethod _ _ _ _ _ _ _ := exact_findMethod _ _ _
  called _ _ _ := .pure ()
  callHost _ _ h _ := h.elim
  printLine _ _ h _ hlength := exact_printLine h hlength
  applyOperator _ _ _ _ _ _ _ := exact_applyOperator _ _ _ _ _ _
  define h := by
    rw [Method.relabel_id]
    exact exact_define h
  findMain h := exact_findMain fun callee hcallee => by
    have hnext := h callee hcallee
    rwa [Callee.relabel_id] at hnext
  result value := exact_display value

/-- A program of the language runs on the interpreter as on the exacting one, within
any limits. -/
theorem exact_program (limits : Limits) (tree : Program Offset) (h : Native tree.exprs) :
    ExactRun Arena.root (plain.program limits tree) ((exacting alarm).program limits tree) := by
  have hprogram := (likeness_exacting alarm).program limits tree h
  rwa [Program.relabel_id] at hprogram

end Interpreter

/-- Before any program a machine has nothing of the host, and no scope but the
program's. -/
theorem Machine.standing_initial : Machine.initial.Standing Arena.root := by
  refine ⟨Proofs.inOrder_root, ?_, rfl⟩
  refine Proofs.Binds.bindFunction ?_ Arena.root Nat.one_pos
  intro index scope hscope key callable hcallable
  cases index with
  | zero =>
      obtain rfl := Option.some.inj hscope
      cases hcallable
  | succ index => cases hscope

end PlcLang
