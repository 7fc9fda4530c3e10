import PlcLang.Proofs.Reference.Rules
import PlcLang.Proofs.Reference.Soundness

/-!
# `PlcLang.Proofs.Reference.Completeness`: every derivation has its runs

What the reference derives for a program is what the interpreter does with it, once the
limits are large enough for the derivation (`performs_attains`). Where the derivation ends
the run ends alike, with the same output; where the derivation is cut the run has printed
what the derivation has, and maybe more.

The proof follows the derivation. What a rule needs of the interpreter is a lemma about the
rule; what is left is to find limits that are large enough for all its parts (`Amply`).
-/

set_option autoImplicit false

namespace PlcLang.Reference

open Interpreter Proofs

/-! ### Limits that are large enough -/

/-- With all limits that are large enough. -/
def Amply (P : Nat → Nat → Prop) : Prop :=
  ∃ bound, ∀ rounds depth, bound ≤ rounds → bound ≤ depth → P rounds depth

namespace Amply

variable {P Q : Nat → Nat → Prop}

/-- What holds with all limits holds with large ones. -/
theorem of_forall (h : ∀ rounds depth, P rounds depth) : Amply P :=
  ⟨0, fun rounds depth _ _ => h rounds depth⟩

/-- Limits that are large enough allow so many rounds. -/
theorem le_rounds (bound : Nat) : Amply fun rounds _ => bound ≤ rounds :=
  ⟨bound, fun _ _ hrounds _ => hrounds⟩

/-- What follows from something that holds amply holds amply. -/
theorem imp (h : Amply P) (hPQ : ∀ rounds depth, P rounds depth → Q rounds depth) : Amply Q := by
  obtain ⟨bound, hbound⟩ := h
  exact ⟨bound, fun rounds depth hrounds hdepth => hPQ _ _ (hbound rounds depth hrounds hdepth)⟩

/-- Limits that are large enough for both of two things. -/
theorem and (h : Amply P) (h' : Amply Q) : Amply fun rounds depth =>
    P rounds depth ∧ Q rounds depth := by
  obtain ⟨bound, hbound⟩ := h
  obtain ⟨bound', hbound'⟩ := h'
  exact ⟨max bound bound', fun rounds depth hrounds hdepth =>
    ⟨hbound rounds depth (by omega) (by omega), hbound' rounds depth (by omega) (by omega)⟩⟩

/-- There are limits that are large enough. -/
theorem exists_limits (h : Amply P) : ∃ rounds depth, P rounds depth := by
  obtain ⟨bound, hbound⟩ := h
  exact ⟨bound, bound, hbound bound bound (Nat.le_refl bound) (Nat.le_refl bound)⟩

/-- What holds of the parts of a run holds of the run, which nests one deeper. -/
theorem deeper (h : Amply P) (hPQ : ∀ rounds depth, P rounds depth → Q rounds (depth + 1)) :
    Amply Q := by
  obtain ⟨bound, hbound⟩ := h
  refine ⟨bound + 1, fun rounds depth hrounds hdepth => ?_⟩
  obtain ⟨depth, rfl⟩ : ∃ n, depth = n + 1 := ⟨depth - 1, by omega⟩
  exact hPQ _ _ (hbound rounds depth (by omega) (by omega))

/-- What holds wherever one more level may be nested. -/
theorem of_succ (h : ∀ rounds depth, P rounds (depth + 1)) : Amply P :=
  (of_forall h).deeper fun _ _ hP => hP

end Amply

/-! ### Derivations -/

mutual

/-- What is derived for an expression is what evaluating it attains. By induction on
the derivation, with all other judgements; each rule has its lemma in `Rules`. -/
theorem evaluates_attains {env : Environment} {mem after : Memory} {e : Expr Offset}
    {o : Outcome Value} :
    Evaluates env mem e o after → Amply (EvaluateAttains env mem e o after)
  | .literal hvalue => .of_succ fun _ _ => .literal hvalue
  | .group run => (evaluates_attains run).deeper fun _ _ h => h.group
  | .orTrue run => (evaluates_attains run).deeper fun _ _ h => h.orTrue
  | .orRight first hne second =>
    ((evaluates_attains first).and (evaluates_attains second)).deeper fun _ _ h =>
      .orRight h.1 hne h.2
  | .binary hop first second =>
    ((evaluates_attains first).and (evaluates_attains second)).deeper fun _ _ h =>
      .binary hop h.1 h.2
  | .binaryBroken run => (evaluates_attains run).deeper fun _ _ h => h.binaryBroken
  | .var => .of_succ fun _ _ => .var
  | .field run => (evaluates_attains run).deeper fun _ _ h => h.field
  | .call hcallable run called =>
    ((arguments_attain run).and (calls_attains called)).deeper fun _ _ h =>
      .call hcallable h.1 h.2
  | .callBroken hcallable run =>
    (arguments_attain run).deeper fun _ _ h => .callBroken hcallable h
  | .callUndefined hcallable => .of_succ fun _ _ => .callUndefined hcallable
  | .methodCall first hrun second =>
    ((evaluates_attains first).and (arguments_attain second)).deeper fun _ _ h =>
      .methodCall h.1 hrun h.2
  | .methodBroken first hwhy =>
    (evaluates_attains first).deeper fun _ _ h => h.methodBroken hwhy
  | .foreign => .of_succ fun _ _ => .foreign
  | .cut => .of_forall fun _ _ => .cut

/-- What is derived for a list of arguments is what evaluating them attains. -/
theorem arguments_attain {env : Environment} {mem after : Memory} {list : List (Expr Offset)}
    {o : Outcome (List Value)} :
    EvaluatesAll env mem list o after → Amply (ArgumentsAttain env mem list o after)
  | .nil => .of_forall fun _ _ => .nil
  | .cons first second =>
    ((evaluates_attains first).and (arguments_attain second)).imp fun _ _ h => .cons h.1 h.2
  | .broken first => (evaluates_attains first).imp fun _ _ h => .broken h

/-- What is derived for a call is what the call attains. -/
theorem calls_attains {env : Environment} {mem after : Memory} {callable : Callable}
    {arguments : List Value} {o : Outcome Value} :
    Calls env mem callable arguments o after →
      Amply (CallAttains env mem callable arguments o after)
  | .method hinner run => (all_attain run).imp fun _ _ h => .method hinner h
  | .print htext => .of_forall fun _ _ => .print htext
  | .printBroken htext => .of_forall fun _ _ => .printBroken htext
  | .host => .of_forall fun _ _ => .host

/-- What is derived for the first value of a declaration is what evaluating it
attains. -/
theorem initializes_attains {env : Environment} {mem after : Memory}
    {value : Option (Expr Offset)} {o : Outcome Value} :
    Initializes env mem value o after → Amply (InitialAttains env mem value o after)
  | .none => .of_forall fun _ _ => .none
  | .some run => (evaluates_attains run).imp fun _ _ h => .some h

/-- What is derived for a statement is what executing it attains. A loop on a
condition needs as many turns as its derivation has rounds. -/
theorem executes_attains {env : Environment} {mem after : Memory} {s : Stmt Offset}
    {o : Outcome (Option Value × Environment)} :
    Executes env mem s o after → Amply (ExecuteAttains env mem s o after)
  | .expression run => (evaluates_attains run).deeper fun _ _ h => .expression h
  | .declare run => (initializes_attains run).deeper fun _ _ h => .declare h
  | .declareBroken run => (initializes_attains run).deeper fun _ _ h => .declareBroken h
  | .assign run hcell => (evaluates_attains run).deeper fun _ _ h => .assign h hcell
  | .assignUndefined run hcell =>
    (evaluates_attains run).deeper fun _ _ h => .assignUndefined h hcell
  | .assignField first second hcontains =>
    ((evaluates_attains first).and (evaluates_attains second)).deeper fun _ _ h =>
      .assignField h.1 h.2 hcontains
  | .assignFieldBroken first second hwhy =>
    ((evaluates_attains first).and (evaluates_attains second)).deeper fun _ _ h =>
      .assignFieldBroken h.1 h.2 hwhy
  | .assignBroken htarget run =>
    (evaluates_attains run).deeper fun _ _ h => .assignBroken htarget h
  | .assignOther htarget => .of_succ fun _ _ => .assignOther htarget
  | .cond first second =>
    ((evaluates_attains first).and (all_attain second)).deeper fun _ _ h => .cond h.1 h.2
  | .condBroken run hwhy => (evaluates_attains run).deeper fun _ _ h => .condBroken h hwhy
  | .forIn first second =>
    ((evaluates_attains first).and (for_attains second)).deeper fun _ _ h => .forIn h.1 h.2
  | .forBroken run hwhy => (evaluates_attains run).deeper fun _ _ h => .forBroken h hwhy
  | .whileDo run => by
    -- The loop may go round as often as the limit says, so the limit has to be large enough
    -- for its rounds, too.
    obtain ⟨enough, hrounds⟩ := while_attains run
    exact ((Amply.le_rounds enough).and hrounds).deeper fun rounds _ h => .whileDo (h.2 rounds h.1)
  | .result run => (evaluates_attains run).deeper fun _ _ h => .result h
  | .foreign => .of_succ fun _ _ => .foreign
  | .cut => .of_forall fun _ _ => .cut

/-- What is derived for statements one after the other is what they attain. -/
theorem all_attain {env : Environment} {mem after : Memory} {list : List (Stmt Offset)}
    {o : Outcome (Option Value)} :
    ExecutesAll env mem list o after → Amply (AllAttain env mem list o after)
  | .nil => .of_forall fun _ _ => .nil
  | .next first second =>
    ((executes_attains first).and (all_attain second)).imp fun _ _ h => .next h.1 h.2
  | .returned first => (executes_attains first).imp fun _ _ h => .returned h
  | .broken first => (executes_attains first).imp fun _ _ h => .broken h

/-- What is derived for a loop over values is what the loop attains. -/
theorem for_attains {env : Environment} {mem after : Memory} {name : String}
    {body : List (Stmt Offset)} {elements : List Value} {o : Outcome (Option Value)} :
    ExecutesFor env mem name body elements o after →
      Amply (ForAttains env mem name body elements o after)
  | .finished => .of_forall fun _ _ => .finished
  | .next round others =>
    ((all_attain round).and (for_attains others)).imp fun _ _ h => .next h.1 h.2
  | .last round ho => (all_attain round).imp fun _ _ h => .last h ho

/-- What is derived for a loop on a condition is what the loop attains that may go
round often enough. -/
theorem while_attains {env : Environment} {mem after : Memory} {c : Expr Offset}
    {body : List (Stmt Offset)} {o : Outcome (Option Value)} :
    ExecutesWhile env mem c body o after →
      ∃ enough, Amply fun rounds depth =>
        ∀ turns, enough ≤ turns → WhileAttains env mem c body o after turns rounds depth
  | .finished test =>
    ⟨1, (evaluates_attains test).imp fun _ _ h turns hturns => by
      obtain ⟨turns, rfl⟩ : ∃ n, turns = n + 1 := ⟨turns - 1, by omega⟩
      exact .finished h⟩
  | .next test round others => by
    obtain ⟨enough, hothers⟩ := while_attains others
    refine ⟨enough + 1, ((evaluates_attains test).and ((all_attain round).and hothers)).imp ?_⟩
    intro rounds depth h turns hturns
    obtain ⟨turns, rfl⟩ : ∃ n, turns = n + 1 := ⟨turns - 1, by omega⟩
    exact .next h.1 h.2.1 (h.2.2 turns (by omega))
  | .last test round ho =>
    ⟨1, ((evaluates_attains test).and (all_attain round)).imp fun _ _ h turns hturns => by
      obtain ⟨turns, rfl⟩ : ∃ n, turns = n + 1 := ⟨turns - 1, by omega⟩
      exact .last h.1 h.2 ho⟩
  | .broken test hwhy =>
    ⟨1, (evaluates_attains test).imp fun _ _ h turns hturns => by
      obtain ⟨turns, rfl⟩ : ∃ n, turns = n + 1 := ⟨turns - 1, by omega⟩
      exact .broken h hwhy⟩
  | .cut => ⟨0, .of_forall fun _ _ _ _ => .cut⟩

end

/-! ### Programs -/

/-- What defining the fields attains. -/
def DefineAttains (env : Environment) (mem : Memory) (fields : List (Field Offset))
    (o : Outcome Environment) (after : Memory) (rounds depth : Nat) : Prop :=
  ∀ (machine : Machine) (layout : Layout), Mirrors machine layout mem →
    Views layout Arena.root env → env.locals = [] →
      Attains Binds o after (plain.defineFields ⟨depth, rounds⟩ fields machine)

/-- A field gives its variable the first value, however it comes to it. -/
theorem defineFields_cons_eq (rounds depth : Nat) (field : Field Offset)
    (rest : List (Field Offset)) :
    plain.defineFields ⟨depth, rounds⟩ (field :: rest)
      = (do
          let value ← firstValue rounds depth Arena.root field.declaration.value
          plain.bind Arena.root field.declaration.name value
          plain.defineFields ⟨depth, rounds⟩ rest) := by
  obtain ⟨m, name, typeName, value⟩ := field
  cases value <;> rfl

/-- What is derived for the fields is what defining them attains. By induction on
the derivation. -/
theorem defines_attains {env : Environment} {mem after : Memory} {fields : List (Field Offset)}
    {o : Outcome Environment} (h : Defines env mem fields o after) :
    Amply (DefineAttains env mem fields o after) := by
  induction h with
  | nil =>
      refine .of_forall fun rounds depth machine layout hm hviews hlocals => ?_
      exact .done ⟨layout, hm, hviews, hlocals⟩
  | @next env mem between after field rest value o first second ih =>
      refine ((initializes_attains first).and ih).imp ?_
      rintro rounds depth ⟨hfirst, hsecond⟩ machine layout hm hviews hlocals
      rw [defineFields_cons_eq]
      refine (hfirst _ _ _ hm hviews).seq ?_
      rintro value last ⟨rfl, hlast⟩
      rw [bind_eq_of_ok (bind_eq Arena.root field.declaration.name value last)]
      exact hsecond _ _ (hlast.bind Arena.root field.declaration.name value)
        (hviews.bind hm.ordered field.declaration.name between.fresh) (locals_bind hlocals _ _)
  | @broken env mem after field rest why first =>
      refine (initializes_attains first).imp ?_
      intro rounds depth hfirst machine layout hm hviews hlocals
      rw [defineFields_cons_eq]
      exact (hfirst _ _ _ hm hviews).broken fun value =>
        (steady_bind Arena.root field.declaration.name value).bind fun _ =>
          steady_defineFields ⟨depth, rounds⟩ rest

/-- What follows the fields of a program keeps what has been printed: its methods
are defined, and one of them is run. -/
theorem steady_afterFields (limits : Limits) (tree : Program Offset) :
    Steady (do
      tree.methods.forM plain.defineMethod
      let result ← plain.runMain limits
      let _ ← plain.inRange result.display
      pure result) := by
  -- A program without fields does nothing else.
  have h := steady_program limits ⟨[], tree.methods⟩
  rwa [Interpreter.program, defineFields, pure_bind] at h

/-- What is derived for a whole program is what its runs attain, once the limits are
large enough. -/
theorem performs_attains {env : Environment} {mem after : Memory} {tree : Program Offset}
    {o : Outcome Value} (h : Performs env mem tree o after) {machine : Machine} {layout : Layout}
    (hm : Mirrors machine layout mem) (hviews : Views layout Arena.root env)
    (hlocals : env.locals = []) :
    Amply fun rounds depth =>
      Attains (fun a b final mem' => a = b ∧ final.output = mem'.output) o after
        (plain.program ⟨depth, rounds⟩ tree machine) := by
  cases h with
  | fieldsBroken fields =>
      refine (defines_attains fields).imp fun rounds depth hfields => ?_
      exact (hfields _ _ hm hviews hlocals).broken fun _ => steady_afterFields ⟨depth, rounds⟩ tree
  | noMain fields main_eq =>
      refine (defines_attains fields).imp fun rounds depth hfields => ?_
      refine (hfields _ _ hm hviews hlocals).seq ?_
      rintro _ bound ⟨layout', hbound, hviews', hlocals'⟩
      obtain ⟨defined, last, hrun, hdefined, hlast⟩ :=
        defineMethods_eq_ok hbound hviews' hlocals' tree.methods
      rw [bind_eq_of_ok hrun, runMain, bind_assoc,
        bind_eq_of_error (findMain_eq_error hdefined hlast main_eq)]
      exact .fault hdefined.output_eq
  -- Fields and call are each attained under large limits, and so both are under larger ones.
  | main fields main_eq called =>
      refine ((defines_attains fields).and (calls_attains called)).imp ?_
      rintro rounds depth ⟨hfields, hcalled⟩
      refine (hfields _ _ hm hviews hlocals).seq ?_
      rintro _ bound ⟨layout', hbound, hviews', hlocals'⟩
      obtain ⟨defined, last, hrun, hdefined, hlast⟩ :=
        defineMethods_eq_ok hbound hviews' hlocals' tree.methods
      rw [bind_eq_of_ok hrun, runMain, bind_assoc,
        bind_eq_of_ok (findMain_eq_ok hdefined hlast main_eq)]
      have hwritten := (hcalled _ _ _ hdefined hlast).tail
        (fun (value : Value) => (Outcome.inRange value.display).map fun _ => value)
        (fun value final _ => congrFun (written_eq value) final)
        fun value => (steady_inRange value.display).bind fun _ => .pure value
      exact hwritten.imp fun _ _ _ hanswer => ⟨hanswer.1, hanswer.2.output_eq⟩

end PlcLang.Reference
