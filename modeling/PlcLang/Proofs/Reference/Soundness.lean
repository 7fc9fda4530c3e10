import PlcLang.Proofs.Reference.Runs

/-!
# `PlcLang.Proofs.Reference.Soundness`: every run has a derivation

Whatever the limits are, what the interpreter does with an expression, a statement or a
program is what the reference derives for it: the same answer or the same reason for having
none, and the same output (`program_shows`). A run that comes to one of its limits has a
derivation that is cut there.

The proof is by induction on how deep the evaluation may nest (`run_shows`), with a lemma
for each part of the interpreter. A loop on a condition has an induction of its own, on how
often it may go round.
-/

set_option autoImplicit false

namespace PlcLang.Reference

open Interpreter Proofs

variable {α : Type} {rounds depth : Nat} {machine : Machine} {layout : Layout} {mem : Memory}
  {scope : Nat} {env : Environment}

/-- Evaluating with these limits shows what the reference derives. -/
def EvaluateShows (rounds depth : Nat) : Prop :=
  ∀ {machine : Machine} {layout : Layout} {mem : Memory} {scope : Nat} {env : Environment}
    (e : Expr Offset), Mirrors machine layout mem → Views layout scope env →
      Shows (plain.evaluate rounds depth scope e) machine (Evaluates env mem e) (Settles layout)

/-- Executing with these limits shows what the reference derives. -/
def ExecuteShows (rounds depth : Nat) : Prop :=
  ∀ {machine : Machine} {layout : Layout} {mem : Memory} {scope : Nat} {env : Environment}
    (s : Stmt Offset), Mirrors machine layout mem → Views layout scope env →
      Shows (plain.execute rounds depth scope s) machine (Executes env mem s) (Leaves scope layout)

/-! ### Parts of a run -/

/-- What the reference makes of an expression where only some values will do. -/
def Demands (want : Value → Except FaultCause α) (env : Environment) (mem : Memory)
    (e : Expr Offset) (o : Outcome α) (after : Memory) : Prop :=
  ∃ value, Evaluates env mem e value after ∧ o = value.demand want e

namespace Demands

variable {after : Memory} {e : Expr Offset}

/-- A demand that is met is met by a value. -/
theorem exists_value {want : Value → Except FaultCause α} {a : α}
    (h : Demands want env mem e (.done a) after) :
    ∃ value, Evaluates env mem e (.done value) after ∧ want value = .ok a := by
  obtain ⟨o, hvalue, heq⟩ := h
  cases o with
  | broken why => cases heq
  | done value =>
      refine ⟨value, hvalue, ?_⟩
      unfold Outcome.demand Outcome.bind at heq
      dsimp only at heq
      cases hwant : want value with
      | error cause => rw [hwant] at heq; cases heq
      | ok b => rw [hwant] at heq; cases heq; rfl

/-- Where a truth value is wanted and found, the expression has this value. -/
theorem boolean {truth : Bool} (h : Demands wantBoolean env mem e (.done truth) after) :
    Evaluates env mem e (.done (.boolean truth)) after := by
  obtain ⟨value, hvalue, hwant⟩ := h.exists_value
  cases value <;> cases hwant
  exact hvalue

/-- Where an object is wanted and found, the expression has it. -/
theorem object {ref : ObjectRef} (h : Demands wantObject env mem e (.done ref) after) :
    Evaluates env mem e (.done (.object ref)) after := by
  obtain ⟨value, hvalue, hwant⟩ := h.exists_value
  cases value <;> cases hwant
  exact hvalue

/-- Where a sequence is wanted and found, the expression has it. -/
theorem sequence {elements : List Value}
    (h : Demands wantSequence env mem e (.done elements) after) :
    Evaluates env mem e (.done (.sequence elements)) after := by
  obtain ⟨value, hvalue, hwant⟩ := h.exists_value
  cases value <;> cases hwant
  exact hvalue

end Demands

namespace EvaluateShows

/-- Evaluating an expression whose value must be of a kind, in the words of the
reference. -/
theorem demand (heval : EvaluateShows rounds depth) {e : Expr Offset}
    (h : Mirrors machine layout mem) (hviews : Views layout scope env)
    {want : Value → Except FaultCause α} {require : Value → Run α}
    (hrequire : ∀ value, require value = (Outcome.ofExcept e.mark (want value)).run) :
    Shows (plain.evaluate rounds depth scope e >>= require) machine (Demands want env mem e)
      (Settles layout) := by
  refine (heval e h hviews).tail (fun _ value => .ofExcept e.mark (want value)) ?_ ?_
  · intro value after mem' _
    rw [hrequire]
  · intro o mem' hD
    exact ⟨o, hD, rfl⟩

/-- Arguments show what is derived for them. By induction on the list. -/
theorem arguments (heval : EvaluateShows rounds depth) (h : Mirrors machine layout mem)
    (hviews : Views layout scope env) (list : List (Expr Offset)) :
    Shows (list.mapM (plain.evaluate rounds depth scope)) machine (EvaluatesAll env mem list)
      (Settles layout) := by
  induction list generalizing machine mem with
  | nil => exact Shows.pure .nil ⟨rfl, h⟩
  | cons e rest ih =>
      rw [List.mapM_cons]
      refine (heval e h hviews).bind ?_ fun why mem' hbroken => .broken hbroken
      rintro value _ after between hfirst ⟨rfl, hafter⟩
      exact (ih hafter).tail (fun _ values => .done (value :: values)) (fun _ _ _ _ => rfl)
        fun o mem' hrest => .cons hfirst hrest

end EvaluateShows

/-- Printing writes the argument out first, which fails for one with too many
digits. -/
theorem printLine_shows (h : Mirrors machine layout mem) (arguments : List Value) :
    Shows (plain.printLine arguments) machine (Calls env mem .print arguments)
      (Settles layout) := by
  rw [plain_printLine]
  cases htext : (arguments.headD .nil).display with
  | error e => exact Shows.throw (.printBroken htext) h.output_eq
  | ok text => exact ⟨.nil, mem.print text, .print htext, rfl, h.print text⟩

namespace ExecuteShows

/-- Statements one after the other show what is derived for them. By induction on
the list. -/
theorem all (hexec : ExecuteShows rounds depth) (h : Mirrors machine layout mem)
    (hviews : Views layout scope env) (list : List (Stmt Offset)) :
    Shows (runAll (plain.execute rounds depth scope) list) machine (ExecutesAll env mem list)
      (Within scope layout) := by
  induction list generalizing machine layout mem env with
  | nil => exact Shows.pure .nil ⟨rfl, layout, .refl scope layout, h⟩
  | cons s rest ih =>
      unfold runAll
      refine (hexec s h hviews).bind ?_ fun why mem' hbroken => .broken hbroken
      rintro returned ⟨_, env'⟩ after between hfirst ⟨rfl, layout', hgrown, hafter, hviews'⟩
      dsimp only at hfirst hviews' ⊢
      cases ‹Option Value› with
      | some value => exact Shows.pure (.returned hfirst) ⟨rfl, layout', hgrown, hafter⟩
      | none =>
          -- What follows the statement begins with the variables that it has declared.
          refine (ih hafter hviews').imp ?_ fun why mem' hrest => .next hfirst hrest
          intro a b last mem' hrest hlast
          exact ⟨b, .next hfirst hrest, hlast.grown hgrown⟩

/-- A round of a loop over values binds the value in its own frame. -/
theorem round (hexec : ExecuteShows rounds depth) (h : Mirrors machine layout mem)
    (hviews : Views layout scope env) (name : String) (element : Value)
    (body : List (Stmt Offset)) :
    Shows
      (plain.withScope scope scope fun inner => do
        plain.bind inner name element
        runAll (plain.execute rounds depth inner) body)
      machine (ExecutesAll (env.enter.bind name mem.fresh) (mem.alloc element) body)
      (Settles layout) := by
  refine Shows.withScope h hviews fun pushed hpushed hinner => ?_
  refine Shows.of_ok (bind_eq layout.size name element pushed) ?_
  refine (hexec.all (hpushed.bind layout.size name element)
    (hinner.bind hpushed.ordered name mem.fresh) body).imp ?_ fun _ _ hbroken => hbroken
  intro a b after mem' hdone hafter
  exact ⟨b, hdone, hafter.grown (.bindVariable layout.size _ name mem.fresh)⟩

/-- A loop over values shows what is derived for it. By induction on the values. -/
theorem forEach (hexec : ExecuteShows rounds depth) (h : Mirrors machine layout mem)
    (hviews : Views layout scope env) (name : String) (body : List (Stmt Offset))
    (elements : List Value) :
    Shows
      (plain.forEach scope name (fun inner => runAll (plain.execute rounds depth inner) body)
        elements)
      machine (ExecutesFor env mem name body elements) (Settles layout) := by
  induction elements generalizing machine mem with
  | nil => exact Shows.pure .finished ⟨rfl, h⟩
  | cons element rest ih =>
      unfold Interpreter.forEach
      refine (hexec.round h hviews name element body).bind ?_
        fun why mem' hbroken => .last hbroken (by simp)
      rintro returned _ after between hround ⟨rfl, hafter⟩
      cases returned with
      | some value => exact Shows.pure (.last hround (by simp)) ⟨rfl, hafter⟩
      | none =>
          refine (ih hafter).imp ?_ fun why mem' hrest => .next hround hrest
          intro a b last mem' hrest hlast
          exact ⟨b, .next hround hrest, hlast⟩

/-- Statements in a scope of their own show what is derived in a fresh frame. -/
theorem block (hexec : ExecuteShows rounds depth) (h : Mirrors machine layout mem)
    (hviews : Views layout scope env) (body : List (Stmt Offset)) :
    Shows (plain.withScope scope scope fun inner => runAll (plain.execute rounds depth inner) body)
      machine (ExecutesAll env.enter mem body) (Settles layout) :=
  Shows.withScope h hviews fun _ hpushed hinner => hexec.all hpushed hinner body

/-- A loop on a condition shows what is derived for it, and is cut where its turns
are used up. By induction on the turns. -/
theorem whileTrue (heval : EvaluateShows rounds depth) (hexec : ExecuteShows rounds depth)
    (h : Mirrors machine layout mem) (hviews : Views layout scope env) (c : Expr Offset)
    (body : List (Stmt Offset)) (turns : Nat) :
    Shows
      (plain.whileTrue
        (do
          let value ← plain.evaluate rounds depth scope c
          plain.requireBoolean value c.mark)
        (plain.withScope scope scope fun inner => runAll (plain.execute rounds depth inner) body)
        turns)
      machine (ExecutesWhile env mem c body) (Settles layout) := by
  induction turns generalizing machine mem with
  | zero => exact Shows.throw .cut h.output_eq
  | succ turns ih =>
      unfold Interpreter.whileTrue
      refine (heval.demand h hviews fun value => requireBoolean_eq value c).bind ?_ ?_
      · rintro truth _ after between hdemand ⟨rfl, hafter⟩
        have htest := hdemand.boolean
        cases truth with
        | false => exact Shows.pure (.finished htest) ⟨rfl, hafter⟩
        | true =>
            refine (hexec.block hafter hviews body).bind ?_
              fun why mem' hbroken => .last htest hbroken (by simp)
            rintro returned _ last before hround ⟨rfl, hlast⟩
            cases returned with
            | some value => exact Shows.pure (.last htest hround (by simp)) ⟨rfl, hlast⟩
            | none =>
                -- The remaining turns derive the rest of the loop, to which this turn is put in
                -- front.
                refine (ih hlast).imp ?_ fun why mem' hrest => .next htest hround hrest
                intro a b final mem' hrest hfinal
                exact ⟨b, .next htest hround hrest, hfinal⟩
      · rintro why mem' ⟨o, htest, heq⟩
        exact .broken htest heq.symm

/-- Calling a function shows what is derived for it, wherever it is called. -/
theorem call (hexec : ExecuteShows rounds depth) (h : Mirrors machine layout mem)
    (hviews : Views layout scope env) (callable : Callable) (arguments : List Value) :
    Shows (plain.call scope (plain.execute rounds depth) callable arguments) machine
      (Calls env mem callable arguments) (Settles layout) := by
  cases callable with
  | print => exact printLine_shows h arguments
  | host run => exact Shows.of_eq (callHost_eq h run arguments) (Shows.run .host h)
  | method method =>
      -- The body does not see where the method is called from.
      unfold Interpreter.call runMethod
      refine Shows.withScope h hviews.outermost fun pushed hpushed hinner => ?_
      obtain ⟨bound, layout', hrun, hgrown, hbound, hviews'⟩ :=
        bindAll_eq_ok hpushed hinner (method.parameters.zip arguments)
      refine Shows.of_ok hrun ?_
      refine (hexec.all hbound hviews' method.body).bind ?_
        fun why mem' hbroken => .method rfl hbroken
      rintro returned _ after mem' hbody ⟨rfl, last, hlast, hafter⟩
      exact Shows.pure (.method rfl hbody) ⟨rfl, last, hgrown.trans hlast, hafter⟩

end ExecuteShows

/-! ### Expressions -/

/-- An operator. An `OR` is apart, as it may not come to its right side. -/
theorem evaluate_shows_binary (heval : EvaluateShows rounds depth)
    (h : Mirrors machine layout mem) (hviews : Views layout scope env) (m : Offset)
    (op : BinaryOp) (left right : Expr Offset) :
    Shows (plain.evaluate rounds (depth + 1) scope (.binary m op left right)) machine
      (Evaluates env mem (.binary m op left right)) (Settles layout) := by
  by_cases hop : op = .or
  · subst hop
    simp only [evaluate, plain_expression, plain_place]
    refine (heval left h hviews).bind ?_ fun why mem' hbroken => .binaryBroken hbroken
    rintro value _ after between hfirst ⟨rfl, hafter⟩
    have hright (hne : value ≠ .boolean true) :
        Shows
          (do
            let other ← plain.evaluate rounds depth scope right
            let truth ← plain.requireBoolean other right.mark
            pure (Value.boolean truth))
          after (Evaluates env mem (.binary m .or left right)) (Settles layout) := by
      rw [← bind_assoc]
      refine (heval.demand hafter hviews fun other => requireBoolean_eq other right).tail
        (fun _ truth => .done (.boolean truth)) (fun _ _ _ _ => rfl) ?_
      rintro _ mem' ⟨o, hsecond, rfl⟩
      exact .orRight hfirst hne hsecond
    cases value with
    | boolean truth =>
        cases truth with
        | true => exact Shows.pure (.orTrue hfirst) ⟨rfl, hafter⟩
        | false => exact hright (by simp)
    | _ => exact hright (by simp)
  -- any other operator evaluates both sides, and then its own rule decides
  · rw [evaluate_binary_eq rounds depth scope m hop left right]
    refine (heval left h hviews).bind ?_ fun why mem' hbroken => .binaryBroken hbroken
    rintro value _ after between hfirst ⟨rfl, hafter⟩
    exact (heval right hafter hviews).tail (fun _ other => .ofOperator m (op.apply value other))
      (fun _ _ _ _ => rfl) fun o mem' hsecond => .binary hop hfirst hsecond

/-- A call by name: the function is looked up, the arguments are evaluated, and then
it runs. -/
theorem evaluate_shows_call (heval : EvaluateShows rounds depth)
    (hexec : ExecuteShows rounds depth) (h : Mirrors machine layout mem)
    (hviews : Views layout scope env) (m : Offset) (name : String)
    (arguments : List (Expr Offset)) :
    Shows (plain.evaluate rounds (depth + 1) scope (.call m name arguments)) machine
      (Evaluates env mem (.call m name arguments)) (Settles layout) := by
  simp only [evaluate, plain_expression, plain_place, plain_before, pure_bind]
  cases hcallable : env.functions.get? (name, arguments.length) with
  | none =>
      have hfind := findFunction_eq h hviews (name, arguments.length) m
      rw [hcallable] at hfind
      exact Shows.of_error hfind (.callUndefined hcallable) h.output_eq
  | some callable =>
      have hfind := findFunction_eq h hviews (name, arguments.length) m
      rw [hcallable] at hfind
      refine Shows.of_ok hfind ?_
      refine (heval.arguments h hviews arguments).bind ?_
        fun why mem' hbroken => .callBroken hcallable hbroken
      rintro values _ after between hvalues ⟨rfl, hafter⟩
      refine (hexec.call hafter hviews callable values).imp ?_
        fun why mem' hcalled => .call hcallable hvalues hcalled
      intro a b last mem' hcalled hlast
      exact ⟨b, .call hcallable hvalues hcalled, hlast⟩

/-- A call of a method of an object: the receiver comes first, then the method, then
the arguments. -/
theorem evaluate_shows_methodCall (heval : EvaluateShows rounds depth)
    (h : Mirrors machine layout mem) (hviews : Views layout scope env) (m : Offset)
    (receiver : Expr Offset) (name : String) (arguments : List (Expr Offset)) :
    Shows (plain.evaluate rounds (depth + 1) scope (.methodCall m receiver name arguments)) machine
      (Evaluates env mem (.methodCall m receiver name arguments)) (Settles layout) := by
  simp only [evaluate, plain_expression, plain_place]
  rw [← bind_assoc]
  refine (heval.demand h hviews fun value => requireObject_eq value receiver).bind ?_ ?_
  · rintro ref _ after between hdemand ⟨rfl, hafter⟩
    have hfirst := hdemand.object
    have hfind := findMethod_eq hafter ref (name, arguments.length) m
    cases hmethod : between.method? ref (name, arguments.length) with
    | none =>
        rw [hmethod] at hfind
        refine Shows.of_error hfind (.methodBroken hfirst ?_) hafter.output_eq
        show Outcome.ofOption _ m (between.method? ref (name, arguments.length)) = _
        rw [hmethod]
        rfl
    | some run =>
        rw [hmethod] at hfind
        refine Shows.of_ok hfind ?_
        exact (heval.arguments hafter hviews arguments).tail
          (fun last values => .ofHost (run last.heap (.object ref :: values)))
          (fun values _ _ hlast => callHost_eq hlast run (.object ref :: values))
          fun o mem' hsecond => .methodCall hfirst hmethod hsecond
  · rintro why mem' ⟨o, hfirst, heq⟩
    refine .methodBroken hfirst ?_
    rw [← heq]
    rfl

/-- Evaluating one level deeper. One case for each kind of expression. -/
theorem evaluate_shows (heval : EvaluateShows rounds depth) (hexec : ExecuteShows rounds depth) :
    EvaluateShows rounds (depth + 1) := by
  intro machine layout mem scope env e h hviews
  cases e with
  | nil m | boolean m value | integer m value | decimal m value | character m text
  | string m text =>
      simp only [evaluate, plain_expression]
      exact Shows.pure (.literal rfl) ⟨rfl, h⟩
  | group m inner =>
      simp only [evaluate, plain_expression]
      exact (heval inner h hviews).imp (fun _ b _ _ hdone hP => ⟨b, .group hdone, hP⟩)
        fun _ _ hbroken => .group hbroken
  | binary m op left right => exact evaluate_shows_binary heval h hviews m op left right
  | var m name =>
      simp only [evaluate, plain_expression]
      exact Shows.of_eq (readVariable_eq h hviews name m) (Shows.run .var h)
  | field m receiver name =>
      simp only [evaluate, plain_expression, plain_place]
      rw [← bind_assoc]
      refine (heval.demand h hviews fun value => requireObject_eq value receiver).tail
        (fun after ref => .ofOption (.undefinedField name) m ((after.heap.fields ref).get? name))
        (fun ref _ _ hafter => readField_eq hafter ref name m) ?_
      rintro _ mem' ⟨o, hfirst, rfl⟩
      exact .field hfirst
  | call m name arguments => exact evaluate_shows_call heval hexec h hviews m name arguments
  | methodCall m receiver name arguments =>
      exact evaluate_shows_methodCall heval h hviews m receiver name arguments
  | foreign m kind written =>
      simp only [evaluate, plain_expression, map_plain_place]
      exact Shows.fault .foreign h.output_eq

/-! ### Statements -/

/-- A declaration, with a first value or without one. -/
theorem execute_shows_declare (heval : EvaluateShows rounds depth)
    (h : Mirrors machine layout mem) (hviews : Views layout scope env) (m : Offset)
    (d : Declaration Offset) :
    Shows (plain.execute rounds (depth + 1) scope (.declare m d)) machine
      (Executes env mem (.declare m d)) (Leaves scope layout) := by
  have hbind {after : Machine} {between : Memory} {value : Value}
      (hafter : Mirrors after layout between)
      (hvalue : Initializes env mem d.value (.done value) between) :
      Shows
        (do
          plain.bind scope d.name value
          pure none : Run (Option Value))
        after (Executes env mem (.declare m d)) (Leaves scope layout) := by
    refine Shows.of_ok (bind_eq scope d.name value after) (Shows.pure (.declare hvalue) ?_)
    exact ⟨rfl, _, .bindVariable scope layout d.name between.fresh,
      hafter.bind scope d.name value, hviews.bind h.ordered d.name between.fresh⟩
  obtain ⟨name, typeName, value⟩ := d
  simp only [execute, plain_statement]
  cases value with
  | none => exact hbind h .none
  | some e =>
      refine (heval e h hviews).bind ?_ fun why mem' hbroken => .declareBroken (.some hbroken)
      rintro value _ after between hvalue ⟨rfl, hafter⟩
      exact hbind hafter (.some hvalue)

/-- An assignment to a variable: the value is there before the variable is looked
for. -/
theorem execute_shows_assignVariable (heval : EvaluateShows rounds depth)
    (h : Mirrors machine layout mem) (hviews : Views layout scope env) (m place : Offset)
    (name : String) (e : Expr Offset) :
    Shows (plain.execute rounds (depth + 1) scope (.assign m (.var place name) e)) machine
      (Executes env mem (.assign m (.var place name) e)) (Leaves scope layout) := by
  simp only [execute, plain_statement]
  refine (heval e h hviews).bind ?_ fun why mem' hbroken => .assignBroken rfl hbroken
  rintro value _ after between hvalue ⟨rfl, hafter⟩
  cases hcell : env.cell? name with
  | some cell =>
      obtain ⟨last, hrun, hlast⟩ := writeVariable_eq_ok hafter hviews hcell value place
      refine Shows.of_ok hrun (Shows.pure (.assign hvalue hcell) ?_)
      exact Settles.leaves ⟨rfl, hlast⟩ hviews
  | none =>
      have hrun := writeVariable_eq_error hafter hviews hcell value place
      exact Shows.of_error hrun (.assignUndefined hvalue hcell) hafter.output_eq

/-- The value is there before the receiver, so three things can go wrong: the value, the receiver,
and the name among its fields. -/
theorem execute_shows_assignField (heval : EvaluateShows rounds depth)
    (h : Mirrors machine layout mem) (hviews : Views layout scope env) (m place : Offset)
    (receiver : Expr Offset) (name : String) (e : Expr Offset) :
    Shows (plain.execute rounds (depth + 1) scope (.assign m (.field place receiver name) e))
      machine
      (Executes env mem (.assign m (.field place receiver name) e)) (Leaves scope layout) := by
  simp only [execute, plain_statement, plain_place]
  refine (heval e h hviews).bind ?_ fun why mem' hbroken => .assignBroken rfl hbroken
  rintro value _ after between hvalue ⟨rfl, hafter⟩
  -- The receiver and the demand that it be an object are one step of the reference.
  rw [← bind_assoc]
  refine (heval.demand hafter hviews fun value => requireObject_eq value receiver).bind ?_ ?_
  · rintro ref _ found before hdemand ⟨rfl, hfound⟩
    have hsecond := hdemand.object
    cases hget : (before.heap.fields ref).get? name with
    | some old =>
        have hcontains : (before.heap.fields ref).contains name = true := by
          rw [Bindings.contains, hget]
          rfl
        obtain ⟨last, hrun, hlast⟩ := writeField_eq_ok hfound hcontains value place
        exact Shows.of_ok hrun (Shows.pure (.assignField hvalue hsecond hcontains)
          (Settles.leaves ⟨rfl, hlast⟩ hviews))
    | none =>
        have hrun := writeField_eq_error hfound hget value place
        refine Shows.of_error hrun (.assignFieldBroken hvalue hsecond ?_) hfound.output_eq
        show Outcome.ofOption _ place ((before.heap.fields ref).get? name) = _
        rw [hget]
        rfl
  · rintro why mem' ⟨o, hsecond, heq⟩
    refine .assignFieldBroken hvalue hsecond ?_
    rw [← heq]
    rfl

/-- An assignment, to a variable, to a field, or to what cannot be assigned to. -/
theorem execute_shows_assign (heval : EvaluateShows rounds depth)
    (h : Mirrors machine layout mem) (hviews : Views layout scope env) (m : Offset)
    (target e : Expr Offset) :
    Shows (plain.execute rounds (depth + 1) scope (.assign m target e)) machine
      (Executes env mem (.assign m target e)) (Leaves scope layout) := by
  cases target with
  | var place name => exact execute_shows_assignVariable heval h hviews m place name e
  | field place receiver name =>
      exact execute_shows_assignField heval h hviews m place receiver name e
  | _ =>
      simp only [execute, plain_statement, map_plain_place]
      exact Shows.fault (.assignOther rfl) h.output_eq

/-- Executing one level deeper. One case for each kind of statement. -/
theorem execute_shows (heval : EvaluateShows rounds depth) (hexec : ExecuteShows rounds depth) :
    ExecuteShows rounds (depth + 1) := by
  intro machine layout mem scope env s h hviews
  cases s with
  | expression m e =>
      simp only [execute, plain_statement]
      refine (heval e h hviews).bind ?_ fun why mem' hbroken => .expression hbroken
      rintro value _ after between hvalue ⟨rfl, hafter⟩
      exact Shows.pure (.expression hvalue) (Settles.leaves ⟨rfl, hafter⟩ hviews)
  | declare m d => exact execute_shows_declare heval h hviews m d
  | assign m target e => exact execute_shows_assign heval h hviews m target e
  -- The condition is evaluated and then asked for its truth. Both together are one demand of the
  -- reference, which breaks off in one way.
  | cond m c thenBody elseBody =>
      simp only [execute, plain_statement, plain_place]
      rw [← bind_assoc]
      refine (heval.demand h hviews fun value => requireBoolean_eq value c).bind ?_ ?_
      · rintro truth _ after between hdemand ⟨rfl, hafter⟩
        exact (hexec.block hafter hviews _).leaves hviews
          fun o mem' hbody => .cond hdemand.boolean hbody
      · rintro why mem' ⟨o, htest, heq⟩
        exact .condBroken htest heq.symm
  | forIn m name e body =>
      simp only [execute, plain_statement, plain_place]
      rw [← bind_assoc]
      refine (heval.demand h hviews fun value => requireSequence_eq value e).bind ?_ ?_
      · rintro elements _ after between hdemand ⟨rfl, hafter⟩
        exact (hexec.forEach hafter hviews name body elements).leaves hviews
          fun o mem' hrounds => .forIn hdemand.sequence hrounds
      · rintro why mem' ⟨o, hvalue, heq⟩
        exact .forBroken hvalue heq.symm
  | whileDo m c body =>
      simp only [execute, plain_statement, plain_place]
      exact (hexec.whileTrue heval h hviews c body rounds).leaves hviews
        fun o mem' hrounds => .whileDo hrounds
  | result m e =>
      simp only [execute, plain_statement, ← bind_pure_comp]
      refine (heval e h hviews).bind ?_ fun why mem' hbroken => .result hbroken
      rintro value _ after between hvalue ⟨rfl, hafter⟩
      exact Shows.pure (.result hvalue) (Settles.leaves ⟨rfl, hafter⟩ hviews)
  | foreign m kind written =>
      simp only [execute, plain_statement]
      exact Shows.pure .foreign (Settles.leaves ⟨rfl, h⟩ hviews)

/-- Runs show what the reference derives, however deep the evaluation may nest. By
induction on the depth; with none left a run is cut. -/
theorem run_shows (rounds depth : Nat) :
    EvaluateShows rounds depth ∧ ExecuteShows rounds depth := by
  induction depth with
  | zero =>
      refine ⟨fun e h hviews => ?_, fun s h hviews => ?_⟩
      · unfold evaluate
        exact Shows.throw .cut h.output_eq
      · unfold execute
        exact Shows.throw .cut h.output_eq
  | succ depth ih => exact ⟨evaluate_shows ih.1 ih.2, execute_shows ih.1 ih.2⟩

/-! ### Programs -/

/-- From the program's scope the environment is seen in which the fields have been
bound. -/
def Binds (_ : Unit) (env : Environment) (machine : Machine) (mem : Memory) : Prop :=
  ∃ layout, Mirrors machine layout mem ∧ Views layout Arena.root env ∧ env.locals = []

/-- Binding in the program's frame adds no other frame. -/
theorem locals_bind (hlocals : env.locals = []) (name : String) (cell : Cell) :
    (env.bind name cell).locals = [] := by
  unfold Environment.bind
  rw [hlocals]

/-- The fields show what is derived for them. By induction on the fields. -/
theorem defineFields_shows (limits : Limits) (h : Mirrors machine layout mem)
    (hviews : Views layout Arena.root env) (hlocals : env.locals = [])
    (fields : List (Field Offset)) :
    Shows (plain.defineFields limits fields) machine (Defines env mem fields) Binds := by
  induction fields generalizing machine layout mem env with
  | nil => exact Shows.pure .nil ⟨layout, h, hviews, hlocals⟩
  | cons field rest ih =>
      have hbind {after : Machine} {between : Memory} {value : Value}
          (hafter : Mirrors after layout between)
          (hvalue : Initializes env mem field.declaration.value (.done value) between) :
          Shows
            (do
              plain.bind Arena.root field.declaration.name value
              plain.defineFields limits rest)
            after (Defines env mem (field :: rest)) Binds := by
        refine Shows.of_ok (bind_eq Arena.root field.declaration.name value after) ?_
        refine (ih (hafter.bind Arena.root field.declaration.name value)
          (hviews.bind h.ordered field.declaration.name between.fresh)
          (locals_bind hlocals _ _)).imp ?_ fun why mem' hrest => .next hvalue hrest
        intro a b last mem' hrest hlast
        exact ⟨b, .next hvalue hrest, hlast⟩
      obtain ⟨m, name, typeName, value⟩ := field
      unfold defineFields
      cases value with
      | none => exact hbind h .none
      | some e =>
          refine ((run_shows limits.rounds limits.depth).1 e h hviews).bind ?_
            fun why mem' hbroken => .broken (.some hbroken)
          rintro value _ after between hvalue ⟨rfl, hafter⟩
          exact hbind hafter (.some hvalue)

/-- Binding methods in the program's scope is defining them in its environment. -/
theorem defineMethods_eq_ok (h : Mirrors machine layout mem)
    (hviews : Views layout Arena.root env) (hlocals : env.locals = [])
    (methods : List (Method Offset)) :
    ∃ after layout', methods.forM plain.defineMethod machine = .ok () after
      ∧ Mirrors after layout' mem ∧ Views layout' Arena.root (env.defineAll methods) := by
  induction methods generalizing machine layout env with
  | nil => exact ⟨machine, layout, rfl, h, hviews⟩
  | cons method rest ih =>
      exact ih (h.define method)
        (hviews.define h.ordered hlocals _ _) hlocals

/-- The run of a whole program is one that the reference derives. -/
theorem program_shows (limits : Limits) (h : Mirrors machine layout mem)
    (hviews : Views layout Arena.root env) (hlocals : env.locals = [])
    (tree : Program Offset) :
    Shows (plain.program limits tree) machine (Performs env mem tree)
      fun a b after mem' => a = b ∧ after.output = mem'.output := by
  refine (defineFields_shows limits h hviews hlocals tree.fields).bind ?_
    fun why mem' hbroken => .fieldsBroken hbroken
  rintro _ env' after between hfields ⟨layout', hafter, hviews', hlocals'⟩
  obtain ⟨defined, last, hrun, hdefined, hlast⟩ :=
    defineMethods_eq_ok hafter hviews' hlocals' tree.methods
  refine Shows.of_ok hrun ?_
  unfold runMain
  rw [bind_assoc]
  cases hmain : (env'.defineAll tree.methods).functions.get? ("main", 0) with
  | none =>
      exact Shows.of_error (findMain_eq_error hdefined hlast hmain) (.noMain hfields hmain)
        hdefined.output_eq
  | some callable =>
      obtain ⟨-, hexec⟩ := run_shows limits.rounds limits.depth
      have hcall := ExecuteShows.call hexec hdefined hlast callable []
      refine Shows.of_ok (findMain_eq_ok hdefined hlast hmain) ?_
      have hwritten : Shows _ defined (Performs env mem tree) (Settles last) :=
        hcall.tail (fun _ (value : Value) => (Outcome.inRange value.display).map fun _ => value)
          (fun value after _ _ => congrFun (written_eq value) after)
          fun o mem' hcalled => .main hfields hmain hcalled
      refine hwritten.imp ?_ fun why mem' hbroken => hbroken
      rintro a b final mem' hperforms ⟨rfl, hfinal⟩
      exact ⟨a, hperforms, rfl, hfinal.output_eq⟩

end PlcLang.Reference
