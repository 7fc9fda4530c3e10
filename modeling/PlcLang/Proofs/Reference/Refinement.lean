import PlcLang.Host
import PlcLang.Proofs.Reference.Completeness

/-!
# `PlcLang.Proofs.Reference.Refinement`: sessions run programs as the reference says

A session runs a program on an arena of scopes that calls, rounds and blocks share, and
within limits. What it does is what the reference derives for the program in the
environment of the session's own bindings (`execute_refines_reference`): the same values
and faults with the same output where the run ends, and the same output as far as it comes
where it does not end. In the reference a program ends in one way at most
(`behaves_unique`).

The limits are the room that a machine gives to a run. A program runs for ever if no limits
are large enough for it.
-/

set_option autoImplicit false

namespace PlcLang

/-! ### Where a run begins -/

/-- What the program's scope of the machine binds. -/
def Machine.programFrame (machine : Machine) : Frame Value Callable :=
  (machine.scopes.scope? Arena.root).elim .empty Scope.frame

namespace Reference

/-- The names of a frame with a cell for each, from a cell on. -/
def places (first : Nat) : List (String × Value) → List (String × Cell)
  | [] => []
  | (name, _) :: rest => (name, first) :: places (first + 1) rest

/-- What the session binds, before a program of it runs: the variables of its scope,
each with a cell, and the functions of the host. -/
def Environment.start (session : Session) : Environment :=
  let frame := session.machine.programFrame
  ⟨[], ⟨places 0 frame.variableTable.entries⟩, frame.functionTable⟩

/-- What the session has, before a program of it runs. Nothing has been printed yet. -/
def Memory.start (session : Session) : Memory :=
  let frame := session.machine.programFrame
  ⟨frame.variableTable.entries.map (·.2), session.machine.heap, session.machine.methods, ""⟩

/-- In the session the reference derives an outcome and an output for the program. -/
def Behaves (session : Session) (tree : Program Offset) (o : Outcome Value) (output : String) :
    Prop :=
  ∃ after, Performs (.start session) (.start session) tree o after ∧ after.output = output

end Reference

/-- How a run of a program ends in the session, and what it has printed. One that comes to a
limit is not over. -/
def Session.observe (session : Session) (limits : Limits) (tree : Program Offset) :
    Reference.Outcome Value × String :=
  match session.execute limits tree with
  | (.ok value, after) => (.done value, after.output)
  | (.error stop, after) => (.broken stop.why, after.output)

namespace Reference

open Proofs

/-- An entry is found in the cell with its number. -/
theorem lookup_places (name : String) (before : List Value) (entries : List (String × Value)) :
    Option.Rel (fun value (cell : Cell) => (before ++ entries.map (·.2))[cell]? = some value)
      (entries.lookup name) ((places before.length entries).lookup name) := by
  induction entries generalizing before with
  | nil => exact .none
  | cons entry rest ih =>
      unfold places
      rw [List.lookup_cons, List.lookup_cons]
      by_cases heq : (name == entry.1) = true
      · rw [heq]
        exact .some (by simp)
      · rw [Bool.eq_false_iff.mpr heq]
        have hrest := ih (before ++ [entry.2])
        rw [List.length_append, List.append_assoc] at hrest
        exact hrest

/-- A cell has the name of its entry. -/
theorem name_eq_of_lookup_places {name : String} {first cell : Nat}
    {entries : List (String × Value)} (h : (places first entries).lookup name = some cell) :
    first ≤ cell ∧ (entries[cell - first]?).map (·.1) = some name := by
  induction entries generalizing first with
  | nil => cases h
  | cons entry rest ih =>
      unfold places at h
      rw [List.lookup_cons] at h
      by_cases heq : (name == entry.1) = true
      · rw [heq] at h
        cases h
        exact ⟨Nat.le_refl _, by simp [beq_iff_eq.mp heq]⟩
      · rw [Bool.eq_false_iff.mpr heq] at h
        obtain ⟨hle, hname⟩ := ih h
        refine ⟨by omega, ?_⟩
        rw [show cell - first = cell - (first + 1) + 1 by omega, List.getElem?_cons_succ]
        exact hname

/-- A machine that has the program's scope alone mirrors a memory with a cell for each
variable of the scope. -/
theorem mirrors_start {session : Session} (h : session.Settled) :
    ∃ layout, Mirrors session.quiet.machine layout (.start session)
      ∧ Views layout Arena.root (.start session) := by
  obtain ⟨types, symbols, ⟨⟨scopes⟩, heap, methods, output⟩, functionCount⟩ := session
  obtain ⟨⟨parent, names, functions⟩, rest, rfl⟩ : ∃ scope rest, scopes = scope :: rest := by
    cases scopes with
    | nil => cases h
    | cons scope rest => exact ⟨scope, rest, rfl⟩
  obtain ⟨hparent, hrest⟩ := List.cons.inj h
  obtain rfl : parent = none := hparent
  obtain rfl : rest = [] := List.map_eq_nil_iff.mp hrest
  have hapart : Layout.Apart (.single ⟨⟨places 0 names.entries⟩, functions⟩) := by
    intro scope scope' name name' cell hcell hcell'
    obtain ⟨s, hs, hget⟩ := Layout.own?_eq_some hcell
    obtain ⟨s', hs', hget'⟩ := Layout.own?_eq_some hcell'
    have hscope := Arena.scope?_lt hs
    have hscope' := Arena.scope?_lt hs'
    rw [Arena.scope?_single_eq_some hs] at hget
    rw [Arena.scope?_single_eq_some hs'] at hget'
    refine ⟨?_, ?_⟩
    · have hsize : Arena.size (.single ⟨⟨places 0 names.entries⟩, functions⟩) = 1 := rfl
      omega
    · have hname := (name_eq_of_lookup_places hget).2
      exact Option.some.inj (hname.symm.trans (name_eq_of_lookup_places hget').2)
  have hholds : Holds (names.entries.map (·.2)) ⟨names, functions⟩
      ⟨⟨places 0 names.entries⟩, functions⟩ :=
    ⟨fun name => lookup_places name [] names.entries, rfl⟩
  exact ⟨.single ⟨⟨places 0 names.entries⟩, functions⟩,
    ⟨.single hholds, Arena.ordered_single _, hapart, rfl, rfl, rfl⟩, ⟨rfl, rfl, fun _ => rfl⟩⟩

/-! ### Runs and derivations -/

variable {session : Session} {tree : Program Offset}

/-- What is observed depends on the machine alone, so a program that has been checked before
runs like one that has not. -/
theorem observe_check (session : Session) (limits : Limits) (tree : Program Offset) :
    (session.check tree).2.observe limits tree = session.observe limits tree := by
  have hquiet : (session.check tree).2.quiet.machine = session.quiet.machine := by
    unfold Session.quiet
    rw [Session.machine_check]
  unfold Session.observe Session.execute Session.ran
  rw [hquiet]
  cases Interpreter.plain.program limits tree session.quiet.machine <;> rfl

/-- Whatever the limits are, what is observed is derived. A run that comes to a
limit has a derivation that is cut there. -/
theorem behaves_of_observe (h : session.Settled) (limits : Limits) :
    Behaves session tree (session.observe limits tree).1 (session.observe limits tree).2 := by
  obtain ⟨layout, hmirrors, hviews⟩ := mirrors_start h
  have hshows := program_shows limits hmirrors hviews rfl tree
  unfold Shows Yields at hshows
  unfold Session.observe Session.execute Session.ran
  cases hrun : Interpreter.plain.program limits tree session.quiet.machine with
  | ok value after =>
      rw [hrun] at hshows
      obtain ⟨b, mem, hderived, rfl, houtput⟩ := hshows
      exact ⟨mem, hderived, houtput.symm⟩
  | error stop after =>
      rw [hrun] at hshows
      obtain ⟨mem, hderived, houtput⟩ := hshows
      exact ⟨mem, hderived, houtput.symm⟩

/-- Once the limits are large enough, what is derived is observed, or the derivation is cut and
what is printed in it is printed. -/
theorem observe_or_prefix_of_behaves (h : session.Settled) {o : Outcome Value} {output : String}
    (hbehaves : Behaves session tree o output) :
    Amply fun rounds depth =>
      session.observe ⟨depth, rounds⟩ tree = (o, output)
        ∨ o = .broken .cut
          ∧ output.toList <+: (session.observe ⟨depth, rounds⟩ tree).2.toList := by
  obtain ⟨layout, hmirrors, hviews⟩ := mirrors_start h
  obtain ⟨mem, hperforms, rfl⟩ := hbehaves
  refine (performs_attains hperforms hmirrors hviews rfl).imp fun rounds depth hattains => ?_
  unfold Session.observe Session.execute Session.ran
  revert hattains
  cases Interpreter.plain.program ⟨depth, rounds⟩ tree session.quiet.machine with
  | ok value after =>
      intro hattains
      cases hattains with
      | done answer =>
          obtain ⟨rfl, houtput⟩ := answer
          exact .inl (congrArg (Prod.mk _) houtput)
      | cut printed => exact .inr ⟨rfl, printed⟩
  | error stop after =>
      intro hattains
      cases hattains with
      | stopped output_eq => exact .inl (congrArg (Prod.mk _) output_eq)
      | cut printed => exact .inr ⟨rfl, printed⟩

/-- What is derived to the end is observed, once the limits are large enough. -/
theorem observe_of_behaves (h : session.Settled) {o : Outcome Value} {output : String}
    (hbehaves : Behaves session tree o output) (ho : o ≠ .broken .cut) :
    Amply fun rounds depth => session.observe ⟨depth, rounds⟩ tree = (o, output) :=
  (observe_or_prefix_of_behaves h hbehaves).imp fun _ _ hobserve =>
    hobserve.resolve_right fun hcut => ho hcut.1

/-- What is printed in a derivation is printed, once the limits are large enough. -/
theorem prefix_observe_of_behaves (h : session.Settled) {o : Outcome Value} {output : String}
    (hbehaves : Behaves session tree o output) :
    Amply fun rounds depth =>
      output.toList <+: (session.observe ⟨depth, rounds⟩ tree).2.toList := by
  refine (observe_or_prefix_of_behaves h hbehaves).imp fun rounds depth hobserve => ?_
  obtain hobserve | ⟨-, hprinted⟩ := hobserve
  · exact hobserve ▸ List.prefix_refl _
  · exact hprinted

/-- A program ends in one way at most. Two derivations that end are both observed
with limits that are large enough for both. -/
theorem behaves_unique (h : session.Settled) {o o' : Outcome Value} {output output' : String}
    (hbehaves : Behaves session tree o output) (ho : o ≠ .broken .cut)
    (hbehaves' : Behaves session tree o' output') (ho' : o' ≠ .broken .cut) :
    o = o' ∧ output = output' := by
  obtain ⟨rounds, depth, hobserve, hobserve'⟩ :=
    ((observe_of_behaves h hbehaves ho).and (observe_of_behaves h hbehaves' ho')).exists_limits
  exact Prod.mk.inj (hobserve.symm.trans hobserve')

end Reference

namespace Proofs

open Reference

/-- A session runs a program as the reference says. A function of the host is a
function of the heap and its arguments, here as everywhere: one with a state of its
own would not be.

* It makes no difference whether the program has been checked before.
* A run ends in a way, with an output, if and only if the reference derives it, and
  then every run ends so whose limits are large enough.
* No run ends, whatever its limits are, if and only if the reference derives no end.
* Whether it ends or not, a run comes to print a text if and only if a derivation
  does. -/
theorem execute_refines_reference {session : Session} (h : session.Settled)
    (tree : Program Offset) :
    (∀ limits, (session.check tree).2.observe limits tree = session.observe limits tree)
      ∧ (∀ o output, o ≠ .broken .cut →
          ((∃ limits, session.observe limits tree = (o, output)) ↔
            Behaves session tree o output)
          ∧ (Behaves session tree o output →
            Amply fun rounds depth => session.observe ⟨depth, rounds⟩ tree = (o, output)))
      ∧ ((∀ limits, (session.observe limits tree).1 = .broken .cut) ↔
          ∀ o output, Behaves session tree o output → o = .broken .cut)
      ∧ ∀ text : String,
          (∃ limits, text.toList <+: (session.observe limits tree).2.toList) ↔
            ∃ o output, Behaves session tree o output ∧ text.toList <+: output.toList := by
  refine ⟨fun limits => observe_check session limits tree,
    fun o output ho => ⟨⟨?_, fun hbehaves => ?_⟩, fun hbehaves => ?_⟩, ⟨?_, ?_⟩,
    fun text => ⟨?_, ?_⟩⟩
  -- Every run is derived, so a run that ends in some way gives a derivation of it.
  · rintro ⟨limits, hobserve⟩
    have hbehaves : Behaves session tree _ _ := behaves_of_observe h limits
    rwa [hobserve] at hbehaves
  · obtain ⟨rounds, depth, hobserve⟩ := (observe_of_behaves h hbehaves ho).exists_limits
    exact ⟨⟨depth, rounds⟩, hobserve⟩
  · exact observe_of_behaves h hbehaves ho
  -- A derivation of an end would be attained under large limits, where no run ends.
  · intro hcut o output hbehaves
    by_contra ho
    obtain ⟨rounds, depth, hobserve⟩ := (observe_of_behaves h hbehaves ho).exists_limits
    have hlimits := hcut ⟨depth, rounds⟩
    rw [hobserve] at hlimits
    exact ho hlimits
  · intro hcut limits
    exact hcut _ _ (behaves_of_observe h limits)
  · rintro ⟨limits, htext⟩
    exact ⟨_, _, behaves_of_observe h limits, htext⟩
  · rintro ⟨o, output, hbehaves, htext⟩
    obtain ⟨rounds, depth, houtput⟩ := (prefix_observe_of_behaves h hbehaves).exists_limits
    exact ⟨⟨depth, rounds⟩, htext.trans houtput⟩

/-- A method sees the variable of the program, not that of the round that calls it. The tree is
that of `LET x = 1; DEF read(): Integer DO RETURN x; END DEF main(): Integer DO FOR i IN
range(5, 6) DO LET x = i; print(x); print(read()); END RETURN x; END`. -/
theorem behaves_with_shadowing :
    (Session.initial.bindFunction ("range", 2) HostAction.integersBetween.run).Settled
      ∧ Behaves (Session.initial.bindFunction ("range", 2) HostAction.integersBetween.run)
        ⟨[⟨0, ⟨"x", none, some (.integer 8 1)⟩⟩],
          [⟨11, "read", [], [], some "Integer", [.result 34 (.var 41 "x")]⟩,
            ⟨48, "main", [], [], some "Integer",
              [.forIn 71 "i" (.call 80 "range" [.integer 86 5, .integer 89 6])
                [.declare 95 ⟨"x", none, some (.var 103 "i")⟩,
                  .expression 106 (.call 106 "print" [.var 112 "x"]),
                  .expression 116 (.call 116 "print" [.call 122 "read" []])],
                .result 135 (.var 142 "x")]⟩]⟩
        (.done (.integer 1)) "5\n1\n" := by
  have hsettled := Session.Settled.initial.bindFunction ("range", 2) HostAction.integersBetween.run
  exact ⟨hsettled, ((execute_refines_reference hsettled _).2.1 _ _ (by simp)).1.mp
    ⟨⟨8, 1⟩, rfl⟩⟩

end Proofs

end PlcLang
