import PlcLang.Proofs.Execution.Steady
import PlcLang.Proofs.Reference.Mirrors

/-!
# `PlcLang.Proofs.Reference.Runs`: runs beside judgements

A run of a part of the interpreter is compared with a judgement of the reference in two
ways, and each comparison is built up along the way the run is put together.

* `Shows x machine D P`: the run of `x` is one that the judgement `D` allows. If it ends
  with an answer then so does a derivation, and `P` relates the two; if it stops then a
  derivation breaks off for the same reason, with the same output.
* `Attains P o mem result`: what a run has come to is what a derivation says that ends with
  the outcome `o` and the memory `mem`. Where the derivation is cut the run may have gone
  on, and has printed at least as much.

What the interpreter does with a value and the machine alone is, on a machine that mirrors
a memory, what the reference makes of the value and the memory (`readVariable_eq` and its
like), so it is said once for both comparisons (`Shows.tail`, `Attains.tail`).
-/

set_option autoImplicit false

namespace PlcLang

namespace Reference

/-- How a run stops for a reason. A cut is a limit that is reached, of whichever
kind. -/
def Break.stop : Break → Stop
  | fault f => .fault f
  | number e => .number e
  | host e => .host e
  | cut => .tooDeep

end Reference

/-- Why a run stops. One that comes to a limit is not over. -/
def Stop.why : Stop → Reference.Break
  | fault f => .fault f
  | number e => .number e
  | host e => .host e
  | tooDeep | tooLong => .cut

namespace Reference

open Interpreter Proofs

variable {α β γ δ : Type}

/-- A run that stops for a reason stops for that one. -/
theorem why_stop (why : Break) : why.stop.why = why := by
  cases why <;> rfl

/-- The computation that has an outcome and does nothing besides. -/
def Outcome.run : Outcome α → Run α
  | done a => pure a
  | broken why => throw why.stop

/-- Such a computation prints nothing. -/
theorem steady_run (o : Outcome α) : Steady o.run := by
  cases o with
  | done a => exact .pure a
  | broken why => exact .throw why.stop

/-! ### What machines and memories say alike -/

/-- What is missing is the only thing that breaks off here. -/
theorem ofOption_eq_broken {cause : FaultCause} {m : Offset} {found : Option α} {why : Break}
    (h : Outcome.ofOption cause m found = .broken why) :
    found = none ∧ why = .fault ⟨cause, some m⟩ := by
  cases found with
  | none => cases h; exact ⟨rfl, rfl⟩
  | some a => cases h

/-- To ask for a truth value is the same on both sides. -/
theorem requireBoolean_eq (value : Value) (e : Expr Offset) :
    plain.requireBoolean value e.mark = (Outcome.ofExcept e.mark (wantBoolean value)).run := by
  cases value <;> rfl

/-- So is to ask for an object. -/
theorem requireObject_eq (value : Value) (e : Expr Offset) :
    plain.requireObject value e.mark = (Outcome.ofExcept e.mark (wantObject value)).run := by
  cases value <;> rfl

/-- So is to ask for a sequence. -/
theorem requireSequence_eq (value : Value) (e : Expr Offset) :
    plain.requireSequence value e.mark = (Outcome.ofExcept e.mark (wantSequence value)).run := by
  cases value <;> rfl

/-- An operator that evaluates both its operands ends with what it makes of them. -/
theorem evaluate_binary_eq (rounds depth : Nat) (scope : ScopeId) (m : Offset) {op : BinaryOp}
    (hop : op ≠ .or) (left right : Expr Offset) :
    plain.evaluate rounds (depth + 1) scope (.binary m op left right)
      = (do
          let value ← plain.evaluate rounds depth scope left
          let other ← plain.evaluate rounds depth scope right
          (Outcome.ofOperator m (op.apply value other)).run) := by
  have happly (value other : Value) :
      plain.applyOperator m op left.mark right.mark value other
        = (Outcome.ofOperator m (op.apply value other)).run := by
    unfold applyOperator
    cases op.apply value other with
    | ok answer => rfl
    | error refusal => cases refusal <;> rfl
  cases op with
  | or => exact absurd rfl hop
  | _ =>
      simp only [evaluate, plain_expression]
      exact bind_congr fun value => bind_congr fun other => happly value other

/-- The value of a program is written out, and is its value all the same. -/
theorem written_eq (value : Value) :
    (do
      let _ ← plain.inRange value.display
      pure value)
      = ((Outcome.inRange value.display).map fun _ => value).run := by
  cases value.display <;> rfl

section

variable {machine : Machine} {layout : Layout} {mem : Memory} {scope : Nat} {env : Environment}

/-- A variable is read from its cell. -/
theorem readVariable_eq (h : Mirrors machine layout mem) (hviews : Views layout scope env)
    (name : String) (m : Offset) :
    plain.readVariable scope name m machine
      = (Outcome.ofOption (.undefinedVariable name) m (mem.lookup? env name)).run machine := by
  rw [← h.boundVariable?_eq hviews, plain_readVariable, get_bind_eq]
  cases machine.scopes.boundVariable? scope name <;> rfl

/-- A function is found in the environment. -/
theorem findFunction_eq (h : Mirrors machine layout mem) (hviews : Views layout scope env)
    (key : FunctionKey) (m : Offset) :
    plain.findFunction scope key m machine
      = (Outcome.ofOption (.undefinedFunction key) m (env.functions.get? key)).run machine := by
  rw [← h.boundFunction?_eq hviews, plain_findFunction, get_bind_eq]
  cases machine.scopes.boundFunction? scope key <;> rfl

/-- A field is read from the heap. -/
theorem readField_eq (h : Mirrors machine layout mem) (ref : ObjectRef) (name : String)
    (m : Offset) :
    plain.readField ref name m machine
      = (Outcome.ofOption (.undefinedField name) m
          ((mem.heap.fields ref).get? name)).run machine := by
  rw [← h.heap_eq, plain_readField, get_bind_eq]
  cases (machine.heap.fields ref).get? name <;> rfl

/-- A method of an object is found among the methods of the memory. -/
theorem findMethod_eq (h : Mirrors machine layout mem) (ref : ObjectRef) (key : FunctionKey)
    (m : Offset) :
    plain.findMethod ref key m machine
      = (Outcome.ofOption (.undefinedMethod key) m (mem.method? ref key)).run machine := by
  rw [Memory.method?, ← h.methods_eq, plain_findMethod, get_bind_eq]
  show _ = (Outcome.ofOption _ m (machine.method? ref key)).run machine
  cases machine.method? ref key <;> rfl

/-- A function of the host is given the heap of the memory. -/
theorem callHost_eq (h : Mirrors machine layout mem) (run : HostFunction)
    (arguments : List Value) :
    plain.callHost run arguments machine
      = (Outcome.ofHost (run mem.heap arguments)).run machine := by
  rw [← h.heap_eq, plain_callHost, get_bind_eq]
  cases run machine.heap arguments <;> rfl

/-- The method to start with is found in the environment. -/
theorem findMain_eq_ok (h : Mirrors machine layout mem) (hviews : Views layout Arena.root env)
    {main : Callable} (hmain : env.functions.get? ("main", 0) = some main) :
    plain.findMain machine = .ok main machine := by
  rw [plain_findMain, get_bind_eq, h.boundFunction?_eq hviews, hmain]
  rfl

/-- Where the environment has none, it is missing. -/
theorem findMain_eq_error (h : Mirrors machine layout mem)
    (hviews : Views layout Arena.root env) (hmain : env.functions.get? ("main", 0) = none) :
    plain.findMain machine = .error (.fault ⟨.missingMain, none⟩) machine := by
  rw [plain_findMain, get_bind_eq, h.boundFunction?_eq hviews, hmain]
  rfl

/-- Binding a variable cannot fail. -/
theorem bind_eq (scope : ScopeId) (name : String) (value : Value) (machine : Machine) :
    plain.bind scope name value machine = .ok () (machine.bind scope name value) := rfl

/-- A variable that has a cell can be assigned to. -/
theorem writeVariable_eq_ok (h : Mirrors machine layout mem) (hviews : Views layout scope env)
    {name : String} {cell : Cell} (hcell : env.cell? name = some cell) (value : Value)
    (m : Offset) :
    ∃ after, plain.writeVariable scope name value m machine = .ok () after
      ∧ Mirrors after layout (mem.write cell value) := by
  have hspec := h.ownerOfVariable?_spec hviews name
  cases howner : machine.scopes.ownerOfVariable? scope name with
  | none =>
      rw [howner] at hspec
      rw [hspec] at hcell
      cases hcell
  | some owner =>
      rw [howner] at hspec
      obtain ⟨found, hfound, hown⟩ := hspec
      obtain rfl : found = cell := Option.some.inj (hfound.symm.trans hcell)
      refine ⟨_, ?_, h.write hown value⟩
      rw [plain_writeVariable, get_bind_eq, howner]
      rfl

/-- One that has none cannot. -/
theorem writeVariable_eq_error (h : Mirrors machine layout mem)
    (hviews : Views layout scope env) {name : String} (hcell : env.cell? name = none)
    (value : Value) (m : Offset) :
    plain.writeVariable scope name value m machine
      = .error (.fault ⟨.undefinedVariable name, some m⟩) machine := by
  have hspec := h.ownerOfVariable?_spec hviews name
  rw [plain_writeVariable, get_bind_eq]
  cases howner : machine.scopes.ownerOfVariable? scope name with
  | none => rfl
  | some owner =>
      rw [howner] at hspec
      obtain ⟨found, hfound, -⟩ := hspec
      rw [hfound] at hcell
      cases hcell

/-- A field that an object has can be assigned to. -/
theorem writeField_eq_ok (h : Mirrors machine layout mem) {ref : ObjectRef} {name : String}
    (hcontains : (mem.heap.fields ref).contains name = true) (value : Value) (m : Offset) :
    ∃ after, plain.writeField ref name value m machine = .ok () after
      ∧ Mirrors after layout (mem.setField ref name value) := by
  rw [← h.heap_eq] at hcontains
  refine ⟨_, ?_, h.setField ref name value⟩
  rw [plain_writeField, get_bind_eq, if_pos hcontains]
  rfl

/-- One that it does not have cannot. -/
theorem writeField_eq_error (h : Mirrors machine layout mem) {ref : ObjectRef} {name : String}
    (hget : (mem.heap.fields ref).get? name = none) (value : Value) (m : Offset) :
    plain.writeField ref name value m machine
      = .error (.fault ⟨.undefinedVariable name, some m⟩) machine := by
  rw [← h.heap_eq] at hget
  rw [plain_writeField, get_bind_eq, Bindings.contains, hget]
  rfl

/-- Binding variables in a scope is declaring them in its environment. By induction
on the variables. -/
theorem bindAll_eq_ok (h : Mirrors machine layout mem) (hviews : Views layout scope env)
    (pairs : List (String × Value)) :
    ∃ after layout', plain.bindAll scope pairs machine = .ok () after ∧ Grown scope layout layout'
      ∧ Mirrors after layout' (declareAll env mem pairs).2
      ∧ Views layout' scope (declareAll env mem pairs).1 := by
  induction pairs generalizing machine layout mem env with
  | nil => exact ⟨machine, layout, rfl, .refl scope layout, h, hviews⟩
  | cons pair rest ih =>
      obtain ⟨after, layout', hrun, hgrown, hafter⟩ :=
        ih (h.bind scope pair.1 pair.2) (hviews.bind h.ordered pair.1 mem.fresh)
      exact ⟨after, layout', hrun, (Grown.bindVariable scope layout pair.1 mem.fresh).trans hgrown,
        hafter⟩

end

/-! ### Answers -/

/-- The answer is the same, and the machine has the layout that it had before. -/
def Settles (layout : Layout) (a b : α) (machine : Machine) (mem : Memory) : Prop :=
  a = b ∧ Mirrors machine layout mem

/-- The answer is the same, and the machine has other variables in one scope at
most. -/
def Within (scope : Nat) (layout : Layout) (a b : α) (machine : Machine) (mem : Memory) : Prop :=
  a = b ∧ ∃ layout', Grown scope layout layout' ∧ Mirrors machine layout' mem

/-- The value that a statement returns is the same, and the scope views the environment that
the statement leaves. -/
def Leaves (scope : Nat) (layout : Layout) (a : Option Value) (b : Option Value × Environment)
    (machine : Machine) (mem : Memory) : Prop :=
  a = b.1 ∧ ∃ layout', Grown scope layout layout' ∧ Mirrors machine layout' mem
    ∧ Views layout' scope b.2

section

variable {layout layout' : Layout} {scope : Nat} {machine : Machine} {mem : Memory}

/-- What settles leaves the environment as it is. -/
theorem Settles.leaves {a : Option Value} {env : Environment}
    (h : Settles layout a a machine mem) (hviews : Views layout scope env) :
    Leaves scope layout a (a, env) machine mem :=
  ⟨rfl, layout, .refl scope layout, h.2, hviews⟩

/-- What a scope gains is part of what it gains in all. -/
theorem Within.grown {a b : α} (h : Within scope layout' a b machine mem)
    (hgrown : Grown scope layout layout') : Within scope layout a b machine mem := by
  obtain ⟨heq, last, hlast, hmirrors⟩ := h
  exact ⟨heq, last, hgrown.trans hlast, hmirrors⟩

end

/-! ### Runs that derivations allow -/

/-- The run is one that a derivation allows: with its answer, or with its reason and
its output. -/
def Shows (x : Run α) (machine : Machine) (D : Outcome β → Memory → Prop)
    (P : α → β → Machine → Memory → Prop) : Prop :=
  Yields x machine (fun a after => ∃ b mem, D (.done b) mem ∧ P a b after mem)
    fun stop after => ∃ mem, D (.broken stop.why) mem ∧ after.output = mem.output

namespace Shows

variable {x : Run α} {machine : Machine} {D : Outcome β → Memory → Prop}
  {D' : Outcome δ → Memory → Prop} {P : α → β → Machine → Memory → Prop} {layout : Layout}
  {mem : Memory}

/-- An answer at once is shown if it is derived. -/
theorem pure {a : α} {b : β} (hD : D (.done b) mem) (hP : P a b machine mem) :
    Shows (pure a) machine D P :=
  ⟨b, mem, hD, hP⟩

/-- A stop is shown if its reason is derived, with the output so far. -/
theorem throw {stop : Stop} (hD : D (.broken stop.why) mem)
    (houtput : machine.output = mem.output) : Shows (throw stop) machine D P :=
  ⟨mem, hD, houtput⟩

/-- A fault is shown if it is derived, with the output so far. -/
theorem fault {cause : FaultCause} {offset : Option Offset}
    (hD : D (.broken (.fault ⟨cause, offset⟩)) mem) (houtput : machine.output = mem.output) :
    Shows (plain.fault cause offset) machine D P :=
  ⟨mem, hD, houtput⟩

/-- What a run shows is in its answer and in the machine after it. -/
theorem of_eq {y : Run α} (heq : x machine = y machine) (h : Shows y machine D P) :
    Shows x machine D P := by
  unfold Shows Yields at h ⊢
  rwa [heq]

/-- A run goes on from an answer that is known. -/
theorem of_ok {y : Run γ} {k : γ → Run α} {c : γ} {after : Machine} (hy : y machine = .ok c after)
    (h : Shows (k c) after D P) : Shows (y >>= k) machine D P := by
  unfold Shows Yields at h ⊢
  rwa [bind_eq_of_ok hy]

/-- A run is over where it is known to stop. -/
theorem of_error {y : Run γ} {k : γ → Run α} {stop : Stop} {after : Machine}
    (hy : y machine = .error stop after) (hD : D (.broken stop.why) mem)
    (houtput : after.output = mem.output) : Shows (y >>= k) machine D P := by
  unfold Shows Yields
  rw [bind_eq_of_error hy]
  exact ⟨mem, hD, houtput⟩

/-- What is derived for a part may be part of a larger derivation. -/
theorem imp {P' : α → δ → Machine → Memory → Prop} (h : Shows x machine D P)
    (hdone : ∀ a b after mem, D (.done b) mem → P a b after mem →
      ∃ d, D' (.done d) mem ∧ P' a d after mem)
    (hbroken : ∀ why mem, D (.broken why) mem → D' (.broken why) mem) :
    Shows x machine D' P' := by
  refine Yields.imp h ?_ ?_
  · rintro a after ⟨b, mem, hD, hP⟩
    obtain ⟨d, hd⟩ := hdone a b after mem hD hP
    exact ⟨d, mem, hd⟩
  · rintro stop after ⟨mem, hD, houtput⟩
    exact ⟨mem, hbroken _ _ hD, houtput⟩

/-- A run goes on where there is an answer, and is broken off where there is none. -/
theorem bind {k : α → Run γ} {P' : γ → δ → Machine → Memory → Prop} (h : Shows x machine D P)
    (hdone : ∀ a b after mem, D (.done b) mem → P a b after mem → Shows (k a) after D' P')
    (hbroken : ∀ why mem, D (.broken why) mem → D' (.broken why) mem) :
    Shows (x >>= k) machine D' P' := by
  refine Yields.bind ?_ (Q := fun a after => ∃ b mem, D (.done b) mem ∧ P a b after mem) ?_
  · refine Yields.imp h (fun _ _ hQ => hQ) ?_
    rintro stop after ⟨mem, hD, houtput⟩
    exact ⟨mem, hbroken _ _ hD, houtput⟩
  · rintro a after ⟨b, mem, hD, hP⟩
    exact hdone a b after mem hD hP

/-- An outcome that is known is what a run with this outcome shows. -/
theorem run {o : Outcome β} (hD : D o mem) (h : Mirrors machine layout mem) :
    Shows o.run machine D (Settles layout) := by
  cases o with
  | done b => exact Shows.pure hD ⟨rfl, h⟩
  | broken why =>
      refine Shows.throw ?_ h.output_eq
      rwa [why_stop]

/-- What follows a part of a run needs no more than the answer and the memory. -/
theorem tail {x : Run β} {k : β → Run δ} (ko : Memory → β → Outcome δ)
    (h : Shows x machine D (Settles layout))
    (hk : ∀ b after mem, Mirrors after layout mem → k b after = (ko mem b).run after)
    (hD : ∀ o mem, D o mem → D' (o.bind (ko mem)) mem) :
    Shows (x >>= k) machine D' (Settles layout) := by
  refine h.bind ?_ fun why mem hbroken => hD _ _ hbroken
  rintro a b after mem hdone ⟨rfl, hmirrors⟩
  exact of_eq (hk a after mem hmirrors) (run (hD _ _ hdone) hmirrors)

/-- Where a statement is run for what it returns its environment stays the same. -/
theorem leaves {x : Run (Option Value)} {D : Outcome (Option Value) → Memory → Prop}
    {D' : Outcome (Option Value × Environment) → Memory → Prop} {scope : Nat}
    {env : Environment} (h : Shows x machine D (Settles layout)) (hviews : Views layout scope env)
    (hD : ∀ o mem, D o mem → D' (o.map (·, env)) mem) :
    Shows x machine D' (Leaves scope layout) := by
  refine h.imp ?_ fun why mem hbroken => hD _ _ hbroken
  rintro a b after mem hdone ⟨rfl, hafter⟩
  exact ⟨(a, env), hD _ _ hdone, Settles.leaves ⟨rfl, hafter⟩ hviews⟩

/-- What runs in a scope of its own runs in an environment with a fresh frame. -/
theorem withScope {body : ScopeId → Run β} {current parent : Nat} {env : Environment}
    (h : Mirrors machine layout mem) (hviews : Views layout parent env)
    (hbody : ∀ pushed, Mirrors pushed (layout.push parent) mem →
      Views (layout.push parent) layout.size env.enter →
        Shows (body layout.size) pushed D (Within layout.size (layout.push parent))) :
    Shows (plain.withScope current parent body) machine D (Settles layout) := by
  have hpushed := hbody (machine.enter parent) (h.push hviews.lt_size) (hviews.push h.ordered)
  unfold Shows Yields at hpushed ⊢
  rw [plain_withScope_apply, h.scopes.size_eq]
  cases hrun : body layout.size (machine.enter parent) with
  | error stop after =>
      rw [hrun] at hpushed
      exact hpushed
  | ok a after =>
      rw [hrun] at hpushed
      obtain ⟨b, mem', hD, heq, _, hgrown, hmirrors⟩ := hpushed
      exact ⟨b, mem', hD, heq, hmirrors.leave h.ordered h.apart hviews.size_ne_root hgrown⟩

end Shows

/-! ### Derivations that runs attain -/

/-- The machine after a run, however it ends. -/
def reached : EStateM.Result Stop Machine α → Machine
  | .ok _ machine => machine
  | .error _ machine => machine

/-- What has been printed before a steady run is still printed after it. -/
theorem prefix_reached {x : Run α} (hx : Steady x) (machine : Machine) :
    machine.output.toList <+: (reached (x machine)).output.toList := by
  have hsteady := hx machine
  unfold Yields at hsteady
  cases hresult : x machine with
  | ok a after =>
      rw [hresult] at hsteady
      exact hsteady.printed
  | error stop after =>
      rw [hresult] at hsteady
      exact hsteady.printed

/-- What a run has come to is what a derivation says: the answer, or the reason and
the output. Where the derivation is cut, it is enough that as much has been printed. -/
inductive Attains (P : α → β → Machine → Memory → Prop) :
    Outcome β → Memory → EStateM.Result Stop Machine α → Prop where
  | done {a : α} {b : β} {machine : Machine} {mem : Memory} (answer : P a b machine mem) :
      Attains P (.done b) mem (.ok a machine)
  | stopped {stop : Stop} {machine : Machine} {mem : Memory}
      (output_eq : machine.output = mem.output) :
      Attains P (.broken stop.why) mem (.error stop machine)
  | cut {mem : Memory} {result : EStateM.Result Stop Machine α}
      (printed : mem.output.toList <+: (reached result).output.toList) :
      Attains P (.broken .cut) mem result

namespace Attains

variable {x : Run α} {machine : Machine} {P : α → β → Machine → Memory → Prop}
  {P' : γ → δ → Machine → Memory → Prop} {layout : Layout} {mem : Memory}

/-- Where a derivation is cut at once any run will do that keeps to what it has
printed. -/
theorem cut_of_steady (h : Mirrors machine layout mem) (hx : Steady x) :
    Attains P (.broken .cut) mem (x machine) := by
  refine .cut ?_
  rw [← h.output_eq]
  exact prefix_reached hx machine

/-- A run that stops attains the break that says why. -/
theorem of_why {stop : Stop} {why : Break} (hwhy : stop.why = why)
    (houtput : machine.output = mem.output) :
    Attains P (.broken why) mem (.error stop machine) :=
  hwhy ▸ .stopped houtput

/-- A computation with an outcome attains the outcome. -/
theorem run {o : Outcome β} (h : Mirrors machine layout mem) :
    Attains (Settles layout) o mem (o.run machine) := by
  cases o with
  | done b => exact .done ⟨rfl, h⟩
  | broken why => exact of_why (why_stop why) h.output_eq

/-- A run that ends in a fault attains the fault. -/
theorem fault {f : Fault} (houtput : machine.output = mem.output) :
    Attains P (.broken (.fault f)) mem (.error (.fault f) machine) :=
  of_why rfl houtput

/-- An answer may be known to be more. -/
theorem imp {Q : α → β → Machine → Memory → Prop} {o : Outcome β}
    {result : EStateM.Result Stop Machine α} (h : Attains P o mem result)
    (hP : ∀ a b after, P a b after mem → Q a b after mem) : Attains Q o mem result := by
  cases h with
  | done answer => exact .done (hP _ _ _ answer)
  | stopped output_eq => exact .stopped output_eq
  | cut printed => exact .cut printed

/-- Where a statement is run for what it returns its environment stays the same. -/
theorem leaves {scope : Nat} {env : Environment} {o : Outcome (Option Value)}
    {result : EStateM.Result Stop Machine (Option Value)}
    (h : Attains (Settles layout) o mem result) (hviews : Views layout scope env) :
    Attains (Leaves scope layout) (o.map (·, env)) mem result := by
  cases h with
  | done answer =>
      obtain ⟨rfl, hafter⟩ := answer
      exact .done (Settles.leaves ⟨rfl, hafter⟩ hviews)
  | stopped output_eq => exact .stopped output_eq
  | cut printed => exact .cut printed

/-- A run goes on from an answer. -/
theorem seq {k : α → Run γ} {b : β} {o : Outcome δ} {mem' : Memory}
    (h : Attains P (.done b) mem (x machine))
    (hk : ∀ a after, P a b after mem → Attains P' o mem' (k a after)) :
    Attains P' o mem' ((x >>= k) machine) := by
  show Attains P' o mem' (EStateM.bind x k machine)
  unfold EStateM.bind
  generalize x machine = result at h
  cases h with
  | done answer => exact hk _ _ answer

/-- A run that stops does not go on; one that is cut may, and keeps what it has
printed. -/
theorem broken {k : α → Run γ} {why : Break} (h : Attains P (.broken why) mem (x machine))
    (hk : ∀ a, Steady (k a)) : Attains P' (.broken why) mem ((x >>= k) machine) := by
  show Attains P' (.broken why) mem (EStateM.bind x k machine)
  unfold EStateM.bind
  generalize x machine = result at h
  cases h with
  | stopped output_eq => exact .stopped output_eq
  | cut printed =>
      refine .cut (printed.trans ?_)
      cases result with
      | error stop after => exact List.prefix_refl _
      | ok a after => exact prefix_reached (hk a) after

/-- What comes of an answer is an answer. -/
theorem map {f : α → γ} {g : β → δ} {o : Outcome β} (h : Attains P o mem (x machine))
    (hP : ∀ a b after, P a b after mem → P' (f a) (g b) after mem) :
    Attains P' (o.map g) mem ((x >>= fun a => Pure.pure (f a)) machine) := by
  cases o with
  | done b => exact h.seq fun a after hanswer => .done (hP a b after hanswer)
  | broken why => exact h.broken fun a => .pure (f a)

/-- What follows a part of a run needs no more than the answer and the memory. -/
theorem tail {x : Run β} {k : β → Run δ} (ko : β → Outcome δ) {o : Outcome β}
    (h : Attains (Settles layout) o mem (x machine))
    (hk : ∀ b after, Mirrors after layout mem → k b after = (ko b).run after)
    (hsteady : ∀ b, Steady (k b)) :
    Attains (Settles layout) (o.bind ko) mem ((x >>= k) machine) := by
  cases o with
  | done b =>
      refine h.seq ?_
      rintro a after ⟨rfl, hmirrors⟩
      rw [hk a after hmirrors]
      exact run hmirrors
  | broken why => exact h.broken hsteady

/-- A derivation breaks off at a part or right after it. -/
theorem bindBroken {x : Run β} {k : β → Run γ} {ko : β → Outcome α} {o : Outcome β}
    {why : Break} (h : Attains (Settles layout) o mem (x machine))
    (hwhy : o.bind ko = .broken why)
    (hk : ∀ b after, Mirrors after layout mem → ko b = .broken why →
      Attains P' (.broken why) mem (k b after))
    (hsteady : ∀ b, Steady (k b)) : Attains P' (.broken why) mem ((x >>= k) machine) := by
  cases o with
  | broken other =>
      cases hwhy
      exact h.broken hsteady
  | done b =>
      refine h.seq ?_
      rintro b after ⟨rfl, hmirrors⟩
      exact hk b after hmirrors hwhy

/-- What runs in a scope of its own runs in an environment with a fresh frame. -/
theorem withScope {body : ScopeId → Run β} {current parent : Nat} {env : Environment}
    {mem' : Memory} {o : Outcome β} (h : Mirrors machine layout mem)
    (hviews : Views layout parent env)
    (hbody : ∀ pushed, Mirrors pushed (layout.push parent) mem →
      Views (layout.push parent) layout.size env.enter →
        Attains (Within layout.size (layout.push parent)) o mem' (body layout.size pushed)) :
    Attains (Settles layout) o mem' (plain.withScope current parent body machine) := by
  have hpushed := hbody (machine.enter parent) (h.push hviews.lt_size) (hviews.push h.ordered)
  rw [plain_withScope_apply, h.scopes.size_eq]
  generalize body layout.size (machine.enter parent) = result at hpushed
  cases hpushed with
  | done answer =>
      obtain ⟨heq, _, hgrown, hmirrors⟩ := answer
      exact .done ⟨heq, hmirrors.leave h.ordered h.apart hviews.size_ne_root hgrown⟩
  | stopped output_eq => exact .stopped output_eq
  | cut printed =>
      refine .cut (printed.trans ?_)
      cases result <;> exact List.prefix_refl _

end Attains

end Reference

end PlcLang
