import PlcLang.Proofs.Relabelling.Checking
import PlcLang.Proofs.Relabelling.Running

/-!
# `PlcLang.Proofs.Relabelling.Sessions`: relabelled programs, checked and run

What a whole program comes to under other labels: the checker's answer is the
relabelled answer (`check_relabel`), and a run of it alone, checked before or not,
prints the same and ends alike (`Session.perform_initial_relabel`).
-/

set_option autoImplicit false

namespace PlcLang

open Proofs

variable (place : Offset → Offset) {names : Naming}

/-- The errors of programs that are run correspond. A program that cannot be read
has no counterpart here. -/
inductive RunError.Relabelled (place : Offset → Offset) (names : Naming) :
    RunError → RunError → Prop where
  | typing {e e' : CheckError} (h : e' = e.relabel place names) :
      Relabelled place names (.program (.typing e)) (.program (.typing e'))
  | stopped {stop stop' : Stop} (h : stop.Relabelled place names stop') :
      Relabelled place names (.stopped stop) (.stopped stop')

/-- The symbols before any program have names that stay as they are. -/
theorem Checker.initialSymbols_relabelled (hnames : names.Faithful) :
    Checker.initialSymbols.Relabelled place names Checker.initialSymbols := by
  let print : FunctionSymbol := ⟨"print", [.any], .nil, none⟩
  have hprint : print.relabel place names = print := by
    show FunctionSymbol.mk (names.ofMethod "print") _ _ _ = _
    rw [hnames.print]
    rfl
  have hkey : names.key print.key = print.key := Prod.ext hnames.print rfl
  have hbound := Arena.Renamed.bindFunction (h := FunctionSymbol.relabel place names)
    (.initial (g := VariableSymbol.relabel place names)) hnames Arena.root print.key print
  rw [hprint, hkey] at hbound
  exact hbound

/-- So has the machine before any program. -/
theorem Machine.initial_relabelled (hnames : names.Faithful) :
    Machine.initial.Relabelled place names Machine.initial where
  scopes := by
    have hkey : names.key ("print", 1) = ("print", 1) := Prod.ext hnames.print rfl
    have hbound := Arena.Renamed.bindFunction (h := Callee.relabel place names)
      (.initial (g := (id : Value → Value))) hnames Arena.root ("print", 1) .print
    rw [hkey] at hbound
    exact hbound
  heap := rfl
  methods := rfl
  output := rfl

/-- The checker says of a relabelled program what it says of the program,
relabelled. -/
theorem check_relabel (hnames : names.Faithful) (tree : Program Offset) :
    EndsAlike (fun e e' => e' = CheckError.relabel place names e)
      (fun checked checked' => checked' = checked.relabel (Note.relabel place names) names)
      (check tree) (check (tree.relabel place names)) := by
  have hprogram : Checker.Relabels place names _ _ _ :=
    Checker.relabels_program (TypeTable.memberless_builtin.unlabelled place names) hnames tree
  replace hprogram := hprogram _ _ (Checker.initialSymbols_relabelled place hnames)
  unfold check Checker.alone
  cases hresult : Checker.plain.program .builtin tree Checker.initialSymbols with
  | ok checked symbols =>
      rw [hresult] at hprogram
      obtain ⟨symbols', hprogram', _⟩ := hprogram
      rw [hprogram']
      exact .ok rfl
  | error e symbols =>
      rw [hresult] at hprogram
      obtain ⟨e', symbols', hprogram', he, _⟩ := hprogram
      rw [hprogram']
      exact .error he

namespace Session

/-- On a corresponding machine a relabelled program ends as the program does and prints
the same. -/
theorem execute_relabel (hnames : names.Faithful) (session session' : Session)
    (h : session.machine.Relabelled place names session'.machine) (limits : Limits)
    (tree : Program Offset) :
    EndsAlike (Stop.Relabelled place names) (· = ·) (session.execute limits tree).1
        (session'.execute limits (tree.relabel place names)).1
      ∧ (session'.execute limits (tree.relabel place names)).2.output
        = (session.execute limits tree).2.output := by
  have hquiet : session.quiet.machine.Relabelled place names session'.quiet.machine :=
    { h with output := rfl }
  have hprogram := Interpreter.relabels_program hnames limits tree _ _ hquiet
  unfold execute ran
  cases hresult : Interpreter.plain.program limits tree session.quiet.machine with
  | ok value machine =>
      rw [hresult] at hprogram
      obtain ⟨machine', hprogram', hmachine⟩ := hprogram
      rw [hprogram']
      exact ⟨.ok rfl, hmachine.output⟩
  | error stop machine =>
      rw [hresult] at hprogram
      obtain ⟨stop', machine', hprogram', hstop, hmachine⟩ := hprogram
      rw [hprogram']
      exact ⟨.error hstop, hmachine.output⟩

/-- A relabelled program that is run alone, checked before or not, ends as the program
does and prints the same. -/
theorem perform_initial_relabel (hnames : names.Faithful) (limits : Limits) (analyze : Bool)
    (tree : Program Offset) :
    EndsAlike (RunError.Relabelled place names) (· = ·)
        (initial.perform limits analyze tree).1
        (initial.perform limits analyze (tree.relabel place names)).1
      ∧ (initial.perform limits analyze (tree.relabel place names)).2.output
        = (initial.perform limits analyze tree).2.output := by
  -- A run does not look at what the checker knows, so that may be different on both sides.
  have hrun (symbols symbols' : Symbols) :
      EndsAlike (RunError.Relabelled place names) (· = ·)
          (({ initial with symbols := symbols }.execute limits tree).1.mapError .stopped)
          (({ initial with symbols := symbols' }.execute limits
            (tree.relabel place names)).1.mapError .stopped)
        ∧ ({ initial with symbols := symbols' }.execute limits (tree.relabel place names)).2.output
          = ({ initial with symbols := symbols }.execute limits tree).2.output := by
    obtain ⟨hends, houtput⟩ := execute_relabel place hnames { initial with symbols := symbols }
      { initial with symbols := symbols' } (Machine.initial_relabelled place hnames) limits tree
    refine ⟨?_, houtput⟩
    generalize (execute _ limits tree).1 = result at hends ⊢
    generalize (execute _ limits (tree.relabel place names)).1 = result' at hends ⊢
    cases hends with
    | ok heq => exact .ok heq
    | error hstop => exact .error (.stopped hstop)
  cases analyze with
  | false => exact hrun initial.symbols initial.symbols
  | true =>
      have hcheck : Checker.Relabels place names _ _ _ :=
        Checker.relabels_program (TypeTable.memberless_builtin.unlabelled place names) hnames tree
      replace hcheck := hcheck _ _ (Checker.initialSymbols_relabelled place hnames)
      unfold perform performed check checked initial
      dsimp only
      cases hresult : Checker.plain.program .builtin tree Checker.initialSymbols with
      | ok checked symbols =>
          rw [hresult] at hcheck
          obtain ⟨symbols', hcheck', _⟩ := hcheck
          rw [hcheck']
          exact hrun symbols symbols'
      | error e symbols =>
          rw [hresult] at hcheck
          obtain ⟨e', symbols', hcheck', he, _⟩ := hcheck
          rw [hcheck']
          exact ⟨.error (.typing he), rfl⟩

end Session

end PlcLang
