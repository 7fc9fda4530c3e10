import PlcLang.Proofs.Scoping.Chains
import PlcLang.Proofs.Scoping.GuardedRuns

/-!
# `PlcLang.Proofs.Scoping.SealedRuns`: the interpreter under seal

While an expression is evaluated, the variables of all scopes that are live by then are
sealed, those of the program's scope excepted. The sealed interpreter is the interpreter
with the seal: it raises an alarm when a variable is bound in a sealed scope, even to the
value that it has, and when an expression is come upon while the scopes are out of order.

The seals are never broken (`likeness_sealed`): a method's scope has the program's scope as
its parent, so what its body binds is in a scope that was not there when the call was come
upon, or in the program's scope. And what is not bound is not changed: a machine is
`Machine.Spared` by an evaluation if all that differs afterwards are the variables that are
not sealed, the fields of objects and the output (`spared_evaluate`).
-/

set_option autoImplicit false

namespace PlcLang

/-- The scope as it would be without variables. -/
def Scope.outline {V F : Type} (scope : Scope V F) : Scope V F :=
  { scope with variableTable := .empty }

/-- The later machine has the scopes of the earlier one. It can have other variables in
the scopes from `sealedBelow` on and in the program's scope; and the objects can have
other fields, and the output can be another one. -/
structure Machine.Spared (sealedBelow : Nat) (before after : Machine) : Prop where
  outlines : after.scopes.scopes.map Scope.outline = before.scopes.scopes.map Scope.outline
  locals : ∀ index < sealedBelow, index ≠ Arena.root →
    after.scopes.scope? index = before.scopes.scope? index
  methods : after.methods = before.methods

namespace Machine.Spared

variable {n m : Nat} {before between after : Machine}

/-- Nothing is different in the scopes. -/
theorem of_scopes (hscopes : after.scopes = before.scopes)
    (hmethods : after.methods = before.methods) : Spared n before after where
  outlines := by rw [hscopes]
  locals _ _ _ := by rw [hscopes]
  methods := hmethods

/-- Nothing has been done, so everything has been spared. -/
theorem refl (machine : Machine) : Spared n machine machine :=
  of_scopes rfl rfl

/-- What spares the same variables twice spares them altogether. The variables that
are not sealed, the fields and the output can differ after each of the two. -/
theorem trans (h : Spared n before between) (h' : Spared n between after) :
    Spared n before after where
  outlines := h'.outlines.trans h.outlines
  locals index hindex hroot := (h'.locals index hindex hroot).trans (h.locals index hindex hroot)
  methods := h'.methods.trans h.methods

/-- What spares more scopes spares fewer. -/
theorem mono (h : Spared n before after) (hle : m ≤ n) : Spared m before after :=
  { h with locals := fun index hindex => h.locals index (Nat.lt_of_lt_of_le hindex hle) }

/-- The outlines of scopes have their parents in them, so no scope has gone and none
has come. -/
theorem parents_eq (h : Spared n before after) :
    after.scopes.parents = before.scopes.parents := by
  have hparents (machine : Machine) : machine.scopes.parents
      = (machine.scopes.scopes.map Scope.outline).map (·.parent) := by
    rw [List.map_map]
    rfl
  rw [hparents, hparents, h.outlines]

/-- A variable of a scope that is not sealed, or of the program. -/
theorem bindVariable (machine : Machine) {scope : ScopeId}
    (hscope : scope = Arena.root ∨ n ≤ scope) (name : String) (value : Value) :
    Spared n machine (machine.bind scope name value) where
  outlines := by
    refine List.ext_getElem? fun index => ?_
    show ((machine.scopes.scopes.modify scope _).map _)[index]? = _
    rw [List.getElem?_map, List.getElem?_map, List.getElem?_modify]
    cases machine.scopes.scopes[index]? with
    | none => rfl
    | some found =>
        by_cases heq : scope = index
        · simp only [heq, if_true, Option.map_some]
          rfl
        · simp [heq]
  locals index hindex hroot := by
    refine Arena.scope?_modify_of_ne ?_
    rintro rfl
    rcases hscope with hscope | hscope
    · exact hroot hscope
    · exact absurd hindex (Nat.not_lt_of_le hscope)
  methods := rfl

/-- A scope that has been pushed and released. -/
theorem leave {parent : ScopeId} (hsize : before.scopes.size ≠ Arena.root)
    (hsealed : n ≤ before.scopes.size)
    (h : Spared n (before.enter parent) after) :
    Spared n before (after.leave before.scopes.size) := by
  have hleave : (after.leave before.scopes.size).scopes
      = ⟨after.scopes.scopes.take before.scopes.size⟩ := by
    unfold MachineOf.leave Arena.release
    rw [if_neg hsize]
    rfl
  refine ⟨?_, fun index hindex hroot => ?_, h.methods⟩
  · rw [hleave]
    show (after.scopes.scopes.take before.scopes.size).map Scope.outline = _
    rw [List.map_take, h.outlines, ← List.map_take]
    exact congrArg _ List.take_left
  · have hlt : index < before.scopes.size := Nat.lt_of_lt_of_le hindex hsealed
    rw [hleave]
    show (after.scopes.scopes.take before.scopes.size)[index]? = _
    rw [List.getElem?_take_of_lt hlt]
    exact (h.locals index hindex hroot).trans (Arena.scope?_push_of_lt hlt)

end Machine.Spared

namespace Interpreter

open Proofs

/-- A machine, and how many of its scopes are sealed: those with smaller indices, but for the
program's. -/
structure Sealed where
  machine : Machine
  below : Nat

/-- Runs `x` while all scopes up to the current one are sealed. -/
def sealing {β : Type} (alarm : Stop) (current : ScopeId) (x : EStateM Stop Sealed β) :
    EStateM Stop Sealed β := fun s =>
  if InOrder s.machine.scopes.parents current then
    match x { s with below := current + 1 } with
    | .ok b after => .ok b { after with below := s.below }
    | .error e after => .error e { after with below := s.below }
  else .error alarm s

/-- Raises the alarm if the scope is sealed. -/
def demandOpen (alarm : Stop) (scope : ScopeId) : EStateM Stop Sealed Unit := do
  if scope = Arena.root ∨ (← get).below ≤ scope then pure () else throw alarm

/-- The interpreter under seal. Scopes are sealed while an expression is evaluated, and looked at
wherever a variable is bound. -/
def sealed (alarm : Stop) : Interpreter Offset Stop Sealed where
  place := id
  machine := Sealed.machine
  update f s := { s with machine := f s.machine }
  stop stop _ := stop
  expression _ scope x := sealing alarm scope x
  before
    | .bind scope => demandOpen alarm scope
    | _ => pure ()

/-! ### Scopes behind a seal -/

variable {α β : Type} {alarm : Stop} {n : Nat} {current : ScopeId}

/-- The scopes are in order, and none that is not sealed has a sealed parent, but for the
program's scope. -/
structure Standing (n : Nat) (parents : List (Option ScopeId)) (current : ScopeId) : Prop where
  order : InOrder parents current
  wall : ∀ index parent, parents[index]? = some (some parent) → n ≤ index →
    parent = Arena.root ∨ n ≤ parent

namespace Standing

variable {parents : List (Option ScopeId)}

/-- Where all scopes are sealed there is nothing more to say. -/
theorem of_inOrder (h : InOrder parents current) : Standing (current + 1) parents current := by
  refine ⟨h, fun index parent hparent hindex => ?_⟩
  have hlt := (List.getElem?_eq_some_iff.mp hparent).1
  rw [h.1] at hlt
  exact absurd hlt (Nat.not_lt_of_le hindex)

/-- Where no scope is sealed there is nothing more to say either. -/
theorem unsealed (h : InOrder parents current) : Standing 0 parents current :=
  ⟨h, fun _ parent _ _ => .inr (Nat.zero_le parent)⟩

/-- A scope can be entered behind those that stand already. It is entered from the
program's scope or from one that is not sealed: from any other, what is run in the
new scope could bind sealed variables up its chain. -/
theorem push {parent : ScopeId} (h : Standing n parents current) (hle : parent ≤ current)
    (hparent : parent = Arena.root ∨ n ≤ parent) :
    Standing n (parents ++ [some parent]) parents.length := by
  refine ⟨InOrder.push h.order hle, fun index other hother hindex => ?_⟩
  rcases Nat.lt_or_ge index parents.length with hlt | hge
  · rw [List.getElem?_append_left hlt] at hother
    exact h.wall index other hother hindex
  · rw [List.getElem?_append_right hge, List.getElem?_singleton] at hother
    split at hother
    · cases hother
      exact hparent
    · cases hother

variable {arena : Arena Value Callable}

/-- From scopes that are not sealed no parent leads to one that is. -/
theorem parent (h : Standing n arena.parents current) {index parent : ScopeId}
    {scope : Scope Value Callable} (hindex : index = Arena.root ∨ n ≤ index)
    (hscope : arena.scope? index = some scope) (hparent : scope.parent = some parent) :
    parent = Arena.root ∨ n ≤ parent := by
  have hparents : arena.parents[index]? = some (some parent) := by
    unfold Arena.parents
    rw [List.getElem?_map]
    exact (congrArg _ hscope).trans (congrArg some hparent)
  rcases hindex with rfl | hindex
  · exact absurd (InOrder.parent_lt h.order hparents) (Nat.not_lt_zero parent)
  · exact h.wall index parent hparents hindex

/-- What a look-up answers for a scope that it comes upon is said of no sealed one. -/
theorem findUpFrom (h : Standing n arena.parents current)
    {find? : ScopeId → Scope Value Callable → Option ScopeId}
    (hfind : ∀ index scope, ∀ found ∈ find? index scope, found = index) {owner : ScopeId}
    (fuel : Nat) (index : ScopeId) (hindex : index = Arena.root ∨ n ≤ index)
    (howner : arena.findUpFrom find? fuel index = .ok (some owner)) :
    owner = Arena.root ∨ n ≤ owner := by
  induction fuel generalizing index with
  | zero => cases howner
  | succ fuel ih =>
      unfold Arena.findUpFrom at howner
      cases hscope : arena.scope? index with
      | none => simp only [hscope, reduceCtorEq] at howner
      | some scope =>
          simp only [hscope] at howner
          cases hfound : find? index scope with
          | some found =>
              simp only [hfound, Except.ok.injEq, Option.some.injEq] at howner
              rwa [← howner, hfind index scope found hfound]
          | none =>
              cases hparent : scope.parent with
              | none => simp [hfound, hparent] at howner
              | some parent =>
                  simp only [hfound, hparent] at howner
                  exact ih parent (h.parent hindex hscope hparent) howner

/-- The variable that is seen from a scope that is not sealed is not sealed. -/
theorem owner (h : Standing n arena.parents current)
    (hcurrent : current = Arena.root ∨ n ≤ current) {name : String}
    {owner : ScopeId} (howner : arena.ownerOfVariable? current name = some owner) :
    owner = Arena.root ∨ n ≤ owner := by
  let find? (index : ScopeId) (scope : Scope Value Callable) : Option ScopeId :=
    if scope.variableTable.contains name then some index else none
  have hfind : ∀ index scope, ∀ found ∈ find? index scope, found = index := by
    intro index scope found hfound
    dsimp only [find?] at hfound
    split at hfound
    · exact (Option.some.inj hfound).symm
    · cases hfound
  have hanswer : arena.findUpFrom find? arena.size current = .ok (some owner) := by
    cases hresult : arena.findUpFrom find? arena.size current with
    | error e => cases (congrArg (·.toOption.join) hresult).symm.trans howner
    | ok found =>
        exact congrArg Except.ok ((congrArg (·.toOption.join) hresult).symm.trans howner)
  exact h.findUpFrom hfind arena.size current hcurrent hanswer

end Standing

/-- How the outcome of a run looks while so many scopes are sealed. -/
def Sealed.view (n : Nat) : View Stop Machine Stop Sealed :=
  ⟨id, fun machine => ⟨machine, n⟩⟩

/-- Begun in order, the second computation is the first one, and the machine is spared by
it. -/
def KeepsSeal (n : Nat) (current : ScopeId) (x : Run α) (y : EStateM Stop Sealed α) : Prop :=
  ∀ machine, Standing n machine.scopes.parents current →
    y ⟨machine, n⟩ = (Sealed.view n).result id (x machine) ∧
      Yields x machine (fun _ after => machine.Spared n after) fun _ after => machine.Spared n after

namespace KeepsSeal

variable {x : Run α} {y : EStateM Stop Sealed α}

/-- To give a value changes nothing, and raises no alarm. -/
theorem pure (a : α) : KeepsSeal n current (pure a) (pure a) :=
  fun machine _ => ⟨rfl, .refl machine⟩

/-- To stop changes nothing either. The sealed run stops for the same reason. -/
theorem throw (stop : Stop) : KeepsSeal n current (throw stop : Run α) (throw stop) :=
  fun machine _ => ⟨rfl, .refl machine⟩

/-- What spares the sealed variables can be followed by what spares them. The second
run begins where the first one ends, with the same parents, so the scopes still
stand as they have to. -/
theorem bind {k : α → Run β} {k' : α → EStateM Stop Sealed β} (h : KeepsSeal n current x y)
    (hk : ∀ a, KeepsSeal n current (k a) (k' a)) :
    KeepsSeal n current (x >>= k) (y >>= k') := by
  intro machine hstanding
  obtain ⟨hsame, hspared⟩ := h machine hstanding
  unfold Yields at hspared ⊢
  cases hx : x machine with
  | ok a between =>
      rw [hx] at hsame hspared
      have hbetween : Standing n between.scopes.parents current := by
        rw [hspared.parents_eq]
        exact hstanding
      obtain ⟨hsame', hspared'⟩ := hk a between hbetween
      rw [bind_eq_of_ok hsame, bind_eq_of_ok hx]
      exact ⟨hsame', hspared'.imp (fun _ _ hafter => hspared.trans hafter)
        fun _ _ hafter => hspared.trans hafter⟩
  | error stop after =>
      rw [hx] at hsame hspared
      rw [bind_eq_of_error hsame, bind_eq_of_error hx]
      exact ⟨rfl, hspared⟩

/-- Reading the machine and going on with it. -/
theorem get_bind {k : Machine → Run β} {k' : Sealed → EStateM Stop Sealed β}
    (hk : ∀ machine, Standing n machine.scopes.parents current →
      KeepsSeal n current (k machine) (k' ⟨machine, n⟩)) :
    KeepsSeal n current (get >>= k) (get >>= k') :=
  fun machine hstanding => hk machine hstanding machine hstanding

/-- A choice that is made alike. -/
theorem ite {c : Prop} [Decidable c] {z : Run α} {w : EStateM Stop Sealed α}
    (hx : KeepsSeal n current x y) (hz : KeepsSeal n current z w) :
    KeepsSeal n current (if c then x else z) (if c then y else w) := by
  by_cases h : c
  · rwa [if_pos h, if_pos h]
  · rwa [if_neg h, if_neg h]

/-- A change that spares the machine. -/
theorem modify {f : Machine → Machine} (hf : ∀ machine : Machine, machine.Spared n (f machine)) :
    KeepsSeal n current (modify f) (modify ((sealed alarm).update f)) :=
  fun machine _ => ⟨rfl, hf machine⟩

/-- What seals all scopes seals some of them. -/
theorem sealing (h : KeepsSeal (current + 1) current x y) (hn : n ≤ current + 1) :
    KeepsSeal n current x (Interpreter.sealing alarm current y) := by
  intro machine hstanding
  obtain ⟨hsame, hspared⟩ := h machine (.of_inOrder hstanding.order)
  refine ⟨?_, hspared.imp (fun _ _ hafter => hafter.mono hn) fun _ _ hafter => hafter.mono hn⟩
  unfold Interpreter.sealing
  rw [if_pos hstanding.order, hsame]
  cases x machine <;> rfl

end KeepsSeal

/-! ### The parts of the interpreter -/

/-- The machine of a sealed run is the machine beneath its seal. -/
theorem sealed_machine (machine : Machine) : (sealed alarm).machine ⟨machine, n⟩ = machine := rfl

/-- A fault is raised without a look at any scope. -/
theorem keeps_fault (cause : FaultCause) (offset : Option Offset) :
    KeepsSeal n current (plain.fault cause offset : Run α) ((sealed alarm).fault cause offset) :=
  .throw _

/-- Variables are read, sealed or not. The seal is against binding them. -/
theorem keeps_readVariable (scope : ScopeId) (name : String) (offset : Offset) :
    KeepsSeal n current (plain.readVariable scope name offset)
      ((sealed alarm).readVariable scope name offset) := by
  refine .get_bind fun machine _ => ?_
  simp only [plain_machine, sealed_machine]
  cases machine.scopes.boundVariable? scope name with
  | some value => exact .pure value
  | none => exact keeps_fault _ _

/-- Fields belong to objects, which no seal is on. -/
theorem keeps_readField (ref : ObjectRef) (name : String) (offset : Offset) :
    KeepsSeal n current (plain.readField ref name offset)
      ((sealed alarm).readField ref name offset) := by
  refine .get_bind fun machine _ => ?_
  simp only [plain_machine, sealed_machine]
  cases (machine.heap.fields ref).get? name with
  | some value => exact .pure value
  | none => exact keeps_fault _ _

/-- Functions are looked up in the scopes that there are, and found where they would
have been found without a seal. -/
theorem keeps_findFunction (scope : ScopeId) (key : FunctionKey) (offset : Offset) :
    KeepsSeal n current (plain.findFunction scope key offset)
      ((sealed alarm).findFunction scope key offset) := by
  refine .get_bind fun machine _ => ?_
  simp only [plain_machine, sealed_machine]
  cases machine.scopes.boundFunction? scope key with
  | some callee => exact .pure callee
  | none => exact keeps_fault _ _

/-- The method to start with is looked up in the scope of the program. -/
theorem keeps_findMain :
    KeepsSeal n current plain.findMain ((sealed alarm).findMain) := by
  refine .get_bind fun machine _ => ?_
  simp only [plain_machine, sealed_machine]
  cases machine.scopes.boundFunction? Arena.root ("main", 0) with
  | some main => exact .pure main
  | none => exact keeps_fault _ _

/-- Methods are looked up at the object that they are called on, not in a scope. -/
theorem keeps_findMethod (ref : ObjectRef) (key : FunctionKey) (offset : Offset) :
    KeepsSeal n current (plain.findMethod ref key offset)
      ((sealed alarm).findMethod ref key offset) := by
  refine .get_bind fun machine _ => ?_
  simp only [plain_machine, sealed_machine]
  cases machine.method? ref key with
  | some run => exact .pure run
  | none => exact keeps_fault _ _

/-- Fields belong to the heap, not to the scopes. -/
theorem keeps_writeField (ref : ObjectRef) (name : String) (value : Value) (offset : Offset) :
    KeepsSeal n current (plain.writeField ref name value offset)
      ((sealed alarm).writeField ref name value offset) := by
  refine .get_bind fun machine _ => .ite ?_ (keeps_fault _ _)
  exact KeepsSeal.modify fun machine => .of_scopes rfl rfl

/-- A function of the host is given its arguments and the objects. It changes
nothing, and has no scope in its hands. -/
theorem keeps_callHost (run : HostFunction) (arguments : List Value) :
    KeepsSeal n current (plain.callHost run arguments)
      ((sealed alarm).callHost run arguments) := by
  refine .get_bind fun machine _ => ?_
  simp only [plain_machine, sealed_machine]
  cases run machine.heap arguments with
  | ok result => exact .pure result
  | error e => exact .throw _

/-- A number that is out of range ends both runs alike, with the machine as it was. -/
theorem keeps_inRange (answer : Except NumberError α) :
    KeepsSeal n current (plain.inRange answer) ((sealed alarm).inRange answer) := by
  cases answer with
  | ok a => exact .pure a
  | error e => exact .throw _

/-- A line is added to the output, which is not under seal. -/
theorem keeps_printLine (arguments : List Value) :
    KeepsSeal n current (plain.printLine arguments) ((sealed alarm).printLine arguments) := by
  refine (KeepsSeal.pure ()).bind fun _ => (keeps_inRange _).bind fun text => ?_
  exact KeepsSeal.bind (.modify fun machine => .of_scopes rfl rfl) fun _ => .pure _

/-- An operator makes a value of two others, or a fault. -/
theorem keeps_applyOperator (m : Offset) (op : BinaryOp) (left right : Offset)
    (leftValue rightValue : Value) :
    KeepsSeal n current (plain.applyOperator m op left right leftValue rightValue)
      ((sealed alarm).applyOperator m op left right leftValue rightValue) := by
  unfold applyOperator
  cases op.apply leftValue rightValue with
  | ok value => exact .pure value
  | error refusal => exact .throw _

/-- A variable may be bound in a scope that is not sealed. -/
theorem keeps_bind {scope : ScopeId} (hscope : scope = Arena.root ∨ n ≤ scope) (name : String)
    (value : Value) :
    KeepsSeal n current (plain.bind scope name value) ((sealed alarm).bind scope name value) := by
  have hopen : KeepsSeal n current (Pure.pure ()) (demandOpen alarm scope) := by
    intro machine _
    refine ⟨?_, .refl machine⟩
    show (if scope = Arena.root ∨ n ≤ scope then Pure.pure () else MonadExcept.throw alarm
      : EStateM Stop Sealed Unit) _ = _
    rw [if_pos hscope]
    rfl
  exact hopen.bind fun _ => .modify fun machine => .bindVariable machine hscope name value

/-- The nearest variable of a name is not sealed if the scope is not from which it is
seen. -/
theorem keeps_writeVariable (hcurrent : current = Arena.root ∨ n ≤ current) (name : String)
    (value : Value) (offset : Offset) :
    KeepsSeal n current (plain.writeVariable current name value offset)
      ((sealed alarm).writeVariable current name value offset) := by
  refine .get_bind fun machine hstanding => ?_
  simp only [plain_machine, sealed_machine]
  cases howner : machine.scopes.ownerOfVariable? current name with
  | none => exact keeps_fault _ _
  | some owner => exact keeps_bind (hstanding.owner hcurrent howner) name value

/-- A fresh scope is behind all sealed ones, and when it is released they are still
there. -/
theorem keeps_sealed_withScope {parent : ScopeId} {body : ScopeId → Run α}
    {body' : ScopeId → EStateM Stop Sealed α} (hcurrent : n ≤ current + 1) (hle : parent ≤ current)
    (hparent : parent = Arena.root ∨ n ≤ parent)
    (h : ∀ inner, n ≤ inner → KeepsSeal n inner (body inner) (body' inner)) :
    KeepsSeal n current (plain.withScope current parent body)
      ((sealed alarm).withScope current parent body') := by
  intro machine hstanding
  have hlength := length_parents machine.scopes
  have hsize : machine.scopes.size = current + 1 := hlength ▸ hstanding.order.1
  have hroot : machine.scopes.size ≠ Arena.root := hsize ▸ Nat.succ_ne_zero current
  have hinner : n ≤ machine.scopes.size := hsize ▸ hcurrent
  have hinside : Standing n (machine.enter parent).scopes.parents machine.scopes.size := by
    show Standing n (machine.scopes.push parent).parents _
    rw [parents_push, ← hlength]
    exact hstanding.push hle hparent
  -- The body runs in a scope behind the sealed ones, so it keeps the seal of this run.
  obtain ⟨hsame, hspared⟩ := h machine.scopes.size hinner (machine.enter parent) hinside
  unfold Yields at hspared ⊢
  rw [plain_withScope_apply, withScope_apply (sealed alarm) (fun _ _ => rfl) (fun _ => rfl)]
  have hentered : body' ((sealed alarm).machine ⟨machine, n⟩).scopes.size
      ((sealed alarm).update (·.enter parent) ⟨machine, n⟩)
      = (Sealed.view n).result id (body machine.scopes.size (machine.enter parent)) := hsame
  rw [hentered]
  generalize body machine.scopes.size (machine.enter parent) = outcome at hspared ⊢
  cases outcome with
  | ok a after => exact ⟨rfl, hspared.leave hroot hinner⟩
  | error stop after => exact ⟨rfl, hspared.leave hroot hinner⟩

/-! ### Programs -/

/-- Begun with no scope but the program's being sealed, the second computation is the first one,
and the scopes are in order again. -/
def KeepsOrder (x : Run α) (y : EStateM Stop Sealed α) : Prop :=
  ∀ machine : Machine, InOrder machine.scopes.parents Arena.root →
    y ⟨machine, 0⟩ = (Sealed.view 0).result id (x machine) ∧
      Yields x machine (fun _ after => InOrder after.scopes.parents Arena.root)
        fun _ after => InOrder after.scopes.parents Arena.root

namespace KeepsOrder

variable {x : Run α} {y : EStateM Stop Sealed α}

/-- In order before and after, since nothing is done. -/
theorem pure (a : α) : KeepsOrder (pure a) (pure a) :=
  fun _ horder => ⟨rfl, horder⟩

/-- What comes second begins with the scopes as the first has left them, which is in
order. -/
theorem bind {k : α → Run β} {k' : α → EStateM Stop Sealed β} (h : KeepsOrder x y)
    (hk : ∀ a, KeepsOrder (k a) (k' a)) : KeepsOrder (x >>= k) (y >>= k') := by
  intro machine horder
  obtain ⟨hsame, hafter⟩ := h machine horder
  unfold Yields at hafter ⊢
  cases hx : x machine with
  | ok a between =>
      rw [hx] at hsame hafter
      rw [bind_eq_of_ok hsame, bind_eq_of_ok hx]
      exact hk a between hafter
  | error stop after =>
      rw [hx] at hsame hafter
      rw [bind_eq_of_error hsame, bind_eq_of_error hx]
      exact ⟨rfl, hafter⟩

/-- On the level of the program no scope is sealed, and nothing has to be spared.
What is left of keeping the seal is that the scopes are in order. -/
theorem of_keepsSeal (h : KeepsSeal 0 Arena.root x y) : KeepsOrder x y := by
  intro machine horder
  obtain ⟨hsame, hspared⟩ := h machine (.unsealed horder)
  refine ⟨hsame, hspared.imp (fun _ after hafter => ?_) fun _ after hafter => ?_⟩
  · rwa [hafter.parents_eq]
  · rwa [hafter.parents_eq]

end KeepsOrder

/-- What is said of a run and of the run under seal. In a statement variables can be bound in the
current scope, so that it is not sealed. -/
def Seals (part : Part) (x : Run α) (y : EStateM Stop Sealed α) : Prop :=
  match part with
  | .expression scope => ∀ n ≤ scope + 1, KeepsSeal n scope x y
  | .statement scope => ∀ n ≤ scope + 1, scope = Arena.root ∨ n ≤ scope → KeepsSeal n scope x y
  | .program => KeepsOrder x y

/-- What is in every part as if nothing were sealed. -/
theorem Seals.of_keeps {part : Part} {x : Run α} {y : EStateM Stop Sealed α}
    (h : ∀ n current, KeepsSeal n current x y) : Seals part x y := by
  cases part with
  | expression scope => exact fun n _ => h n scope
  | statement scope => exact fun n _ _ => h n scope
  | program => exact .of_keepsSeal (h 0 Arena.root)

/-- What is said of each part of the interpreter holds of parts that are put
together. Expressions keep the seal for the scope that they are in, all the rest
keeps the order, and both are closed under `pure`, `throw` and `bind`. -/
theorem Seals.compositional (part : Part) :
    Compositional fun {α} (x : Run α) (y : EStateM Stop Sealed α) => Seals part x y := by
  cases part with
  | expression scope =>
      exact ⟨fun a _ _ => .pure a, fun hx hk n hn => (hx n hn).bind fun a => hk a n hn⟩
  | statement scope =>
      exact ⟨fun a _ _ _ => .pure a,
        fun hx hk n hn hscope => (hx n hn hscope).bind fun a => hk a n hn hscope⟩
  | program => exact ⟨.pure, .bind⟩

/-- No part of a run breaks a seal. -/
theorem likeness_sealed (alarm : Stop) :
    Likeness plain (sealed alarm) id .same (.none Offset) fun part {_} x y => Seals part x y where
  compositional := Seals.compositional
  ofExpression h n hn _ := h n hn
  ofStatement h := .of_keepsSeal (h 0 (Nat.zero_le _) (.inl rfl))
  expression _ scope _ _ h n hn := (h (scope + 1) (Nat.le_refl _)).sealing hn
  statement _ _ _ _ h := h
  -- A block may bind above the seal, in the scope that it opens. Of a method, all scopes are
  -- above.
  block h n hn hscope := keeps_sealed_withScope hn (Nat.le_refl _) hscope fun inner hinner =>
    h inner n (Nat.le_succ_of_le hinner) (.inr hinner)
  method h n hn := keeps_sealed_withScope hn (Nat.zero_le _) (.inl rfl) fun inner hinner =>
    h inner n (Nat.le_succ_of_le hinner) (.inr hinner)
  tooDeep _ := .of_keeps fun _ _ => .throw _
  tooLong _ := .of_keeps fun _ _ => .throw _
  fault _ _ _ _ _ := by
    rw [Option.map_id]
    exact .of_keeps fun _ _ => .throw _
  foreign _ _ _ _ _ _ _ := by
    rw [Option.map_id]
    exact .of_keeps fun _ _ => .throw _
  bind _ _ _ _ _ hscope := keeps_bind hscope _ _
  readVariable _ _ _ _ _ := keeps_readVariable _ _ _
  writeVariable _ _ _ _ _ _ hscope := keeps_writeVariable hscope _ _ _
  readField _ _ _ _ _ _ := keeps_readField _ _ _
  writeField _ _ _ _ _ _ _ _ := keeps_writeField _ _ _ _
  findFunction _ _ _ _ _ h n hn := (keeps_findFunction _ _ _).bind fun callee => by
    have hcallee := h callee trivial n hn
    rwa [Callee.relabel_id] at hcallee
  findMethod _ _ _ _ _ _ h n hn :=
    (keeps_findMethod _ _ _).bind fun run => h run trivial n hn
  called _ _ _ _ _ := .pure ()
  callHost _ _ _ _ _ _ := keeps_callHost _ _
  printLine _ _ _ _ _ _ _ := keeps_printLine _
  applyOperator _ _ _ _ _ _ _ _ _ := keeps_applyOperator _ _ _ _ _ _
  -- Methods are bound in the root before anything runs, when there is no seal yet. Only the order
  -- of the scopes is to be kept.
  define := by
    intro method _
    rw [Method.relabel_id]
    intro machine horder
    have hafter : InOrder (machine.define method).scopes.parents Arena.root := by
      show InOrder (machine.scopes.bindFunction Arena.root _ _).parents Arena.root
      rwa [parents_bindFunction]
    exact ⟨rfl, hafter⟩
  findMain h := (KeepsOrder.of_keepsSeal keeps_findMain).bind fun callee => by
    have hcallee := h callee trivial
    rwa [Callee.relabel_id] at hcallee
  result value := .of_keeps fun _ _ => keeps_inRange value.display

/-- An evaluation spares the machine: all that differs afterwards are variables of the program,
fields of objects and the output. -/
theorem spared_evaluate (rounds depth : Nat) (scope : ScopeId) (e : Expr Offset)
    {machine : Machine} (h : InOrder machine.scopes.parents scope) :
    Yields (plain.evaluate rounds depth scope e) machine
      (fun _ after => machine.Spared (scope + 1) after)
      fun _ after => machine.Spared (scope + 1) after :=
  ((likeness_sealed .tooDeep).evaluate rounds depth scope e (fun _ _ => trivial) (scope + 1)
    (Nat.le_refl _) machine (.of_inOrder h)).2

/-- A program runs under seal as it runs without. -/
theorem sealed_program (limits : Limits) (tree : Program Offset) {machine : Machine}
    (h : InOrder machine.scopes.parents Arena.root) :
    (sealed alarm).program limits tree ⟨machine, 0⟩
      = (Sealed.view 0).result id (plain.program limits tree machine) := by
  have hprogram := (likeness_sealed alarm).program limits tree fun _ _ => trivial
  rw [Program.relabel_id] at hprogram
  exact (hprogram machine h).1

end Interpreter

end PlcLang
