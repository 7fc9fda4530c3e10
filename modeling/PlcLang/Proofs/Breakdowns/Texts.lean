import PlcLang.Proofs.Breakdowns.Checking
import PlcLang.Proofs.Breakdowns.Lexing
import PlcLang.Proofs.Breakdowns.Parsing
import PlcLang.Proofs.Breakdowns.Running
import PlcLang.Proofs.Execution.Halting
import PlcLang.Proofs.Typing.Acceptance

/-!
# `PlcLang.Proofs.Breakdowns.Texts`: no stage breaks down

A text is cut into tokens, the tokens are made a tree, and the tree is checked or run, or
both. Here every stage is the exacting one (`Stages.exacting`), with an alarm of its own for
all that must not happen inside it (`Alarms`):

* the lexer raises it where it would read outside the text, or not get on;
* the parser where a token is not there that it has looked at, and where a token of a number kind
  is no number or has more digits than can be read;
* the checker and the interpreter where a scope they use is not there, where a scope they
  leave cannot be released, where an expression is of no kind they know, where two lists that go
  together differ in length, where a method has no symbol, and where something of the host would
  be called.

None of the alarms is raised, so the stages answer as ever, whatever the alarms
(`no_stage_breaks_down`); and what they complain of is something about the text
(`ProgramError.Proper`, `RunError.Proper`). The numbers of the text may not have more
digits than the parser reads.

A run may come to longer numbers all the same. If one of them is to be written out, the run ends
without a result, and that is the only way in which it ends so, but for decimals that are out of
the range of all decimals. `squaring_text_has_no_result` is such a run: its text is short, and the
number that it returns has more than nine thousand digits.

The lemmas before it are about one program in a session that others may have used before
(`Session.Sturdy`).
-/

set_option autoImplicit false

namespace PlcLang

open Proofs

/-- What each stage raises where something goes wrong inside it. The alarms may be
any errors of the stages, so that what is said of all of them says that none is ever
raised. -/
structure Alarms where
  lexing : LexError
  parsing : Obstacle
  checking : CheckError
  running : Stop

namespace Session

variable (session : Session) (alarms : Alarms)

/-- `Session.check`, by the exacting checker. -/
def checkExacting (program : Program Offset) : Except CheckError (Program Note) × Session :=
  session.checked ((Checker.exacting alarms.checking).program session.types program)

/-- `Session.execute`, by the exacting interpreter. -/
def executeExacting (limits : Limits) (program : Program Offset) : Except Stop Value × Session :=
  session.ran ((Interpreter.exacting alarms.running).program limits program)

/-- `Session.perform`, by both of them. -/
def performExacting (limits : Limits) (analyze : Bool) (program : Program Offset) :
    Except RunError Value × Session :=
  session.performed (·.checkExacting alarms program) (·.executeExacting alarms limits program)
    analyze

end Session

/-- The exacting stages, each with its alarm. -/
def Stages.exacting (alarms : Alarms) : Stages where
  cut := Lexer.Exacting.tokenize alarms.lexing
  build := @parse (.exacting alarms.parsing)
  judge program := Checker.alone ((Checker.exacting alarms.checking).program .builtin program)
  act session := session.performExacting alarms

/-- The error is about the text: a number that cannot be read and an expression of another
kind are not. -/
def ProgramError.Proper : ProgramError → Prop
  | lexical _ => True
  | grammar e => ∀ token, e ≠ .malformedNumber token
  | typing e => e.Proper

/-- The run has no result because of the text, or is given up: for its program, for
a fault, for a number that is out of range, or at a limit. -/
def RunError.Proper : RunError → Prop
  | program e => e.Proper
  | stopped stop => stop.Proper

/-- Both the symbols and the machine of a session are in order, as texts leave them. -/
structure Session.Sturdy (session : Session) : Prop where
  symbols : InOrder session.symbols.parents Arena.root
  machine : session.machine.Standing Arena.root

namespace Proofs

/-! ### One program -/

/-- A new session is in order. -/
theorem Session.sturdy_initial : Session.initial.Sturdy :=
  ⟨inOrder_root, Machine.standing_initial⟩

variable {session : Session} {tree : Program Offset}

/-- A session in order checks a program as the exacting one does, and is in order
after it. If it rejects the program, then properly. -/
theorem checkExacting_eq (hsturdy : session.Sturdy) (h : Native tree.exprs) (alarms : Alarms) :
    session.checkExacting alarms tree = session.check tree
      ∧ (session.check tree).2.Sturdy
      ∧ ∀ e, (session.check tree).1 = .error e → e.Proper := by
  have hprogram : Checker.ExactCheck Arena.root (Checker.plain.program session.types tree)
      ((Checker.exacting alarms.checking).program session.types tree) :=
    Checker.exact_program tree h
  obtain ⟨hsame, hyields⟩ := hprogram session.symbols hsturdy.symbols
  refine ⟨session.checked_congr hsame, ?_⟩
  unfold Session.check Session.checked
  unfold Yields at hyields
  cases hresult : Checker.plain.program session.types tree session.symbols with
  | ok checked symbols =>
      rw [hresult] at hyields
      exact ⟨⟨hyields, hsturdy.machine⟩, fun _ he => by cases he⟩
  | error found symbols =>
      rw [hresult] at hyields
      refine ⟨⟨hyields.2, hsturdy.machine⟩, fun e he => ?_⟩
      obtain rfl : found = e := Except.error.inj he
      exact hyields.1

/-- A session in order runs a program as the exacting one does, and is in order
after it. If the run has no result, then properly. -/
theorem executeExacting_eq (hsturdy : session.Sturdy) (h : Native tree.exprs) (alarms : Alarms)
    (limits : Limits) :
    session.executeExacting alarms limits tree = session.execute limits tree
      ∧ (session.execute limits tree).2.Sturdy
      ∧ ∀ stop, (session.execute limits tree).1 = .error stop → stop.Proper := by
  have hquiet : session.quiet.machine.Standing Arena.root :=
    ⟨hsturdy.machine.order, hsturdy.machine.homely, hsturdy.machine.hostless⟩
  have hprogram : Interpreter.ExactRun Arena.root (Interpreter.plain.program limits tree)
      ((Interpreter.exacting alarms.running).program limits tree) :=
    Interpreter.exact_program limits tree h
  obtain ⟨hsame, hyields⟩ := hprogram session.quiet.machine hquiet
  refine ⟨session.ran_congr hsame, ?_⟩
  unfold Session.execute Session.ran
  unfold Yields at hyields
  cases hresult : Interpreter.plain.program limits tree session.quiet.machine with
  | ok value machine =>
      rw [hresult] at hyields
      exact ⟨⟨hsturdy.symbols, hyields⟩, fun _ hstop => by cases hstop⟩
  | error found machine =>
      rw [hresult] at hyields
      refine ⟨⟨hsturdy.symbols, hyields.2⟩, fun stop hstop => ?_⟩
      obtain rfl : found = stop := Except.error.inj hstop
      exact hyields.1

/-- So it is where a program is performed, analyzed or not. After a program that was
rejected the machine is as it was. -/
theorem performExacting_eq (hsturdy : session.Sturdy) (h : Native tree.exprs) (alarms : Alarms)
    (limits : Limits) (analyze : Bool) :
    session.performExacting alarms limits analyze tree = session.perform limits analyze tree
      ∧ (session.perform limits analyze tree).2.Sturdy
      ∧ ∀ e, (session.perform limits analyze tree).1 = .error e → e.Proper := by
  -- what is to be shown of a run, whatever session it starts from
  have hrun (session : Session) (hsturdy : session.Sturdy) :
      session.executeExacting alarms limits tree = session.execute limits tree
        ∧ ∃ result after, session.execute limits tree = (result, after) ∧ after.Sturdy
          ∧ ∀ e, result.mapError RunError.stopped = .error e → e.Proper := by
    obtain ⟨hsame, hafter, hproper⟩ := executeExacting_eq hsturdy h alarms limits
    generalize session.execute limits tree = answer at hsame hafter hproper ⊢
    obtain ⟨result, after⟩ := answer
    refine ⟨hsame, result, after, rfl, hafter, fun e he => ?_⟩
    cases result with
    | ok value => cases he
    | error stop =>
        obtain rfl := Except.error.inj he
        exact hproper stop rfl
  unfold Session.performExacting Session.perform Session.performed
  dsimp only
  cases analyze with
  | false =>
      obtain ⟨hsame, result, after, hexecute, hafter, hproper⟩ := hrun session hsturdy
      simp only [Bool.false_eq_true, if_false, hsame, hexecute]
      exact ⟨trivial, hafter, hproper⟩
  | true =>
      obtain ⟨hsame, hafter, hproper⟩ := checkExacting_eq hsturdy h alarms
      rw [hsame]
      generalize session.check tree = answer at hafter hproper ⊢
      obtain ⟨result, checked⟩ := answer
      cases result with
      | error e =>
          simp only [if_true]
          refine ⟨trivial, ⟨hafter.symbols, ?_⟩, fun found hfound => ?_⟩
          · exact ⟨hafter.machine.order, hafter.machine.homely, hafter.machine.hostless⟩
          · obtain rfl := Except.error.inj hfound
            exact hproper e rfl
      | ok program =>
          obtain ⟨hsame, result, after, hexecute, hafter, hproper⟩ := hrun checked hafter
          simp only [if_true, hsame, hexecute]
          exact ⟨trivial, hafter, hproper⟩

/-! ### Texts -/

/-- A text is read as the exacting lexer and parser read it. Its tree has
expressions of the language only, and an error is proper. -/
theorem read_exacting_eq {text : String}
    (hshort : ∀ tokens, tokenize text = .ok tokens → NumbersWithin 4300 tokens)
    (alarms : Alarms) :
    (Stages.exacting alarms).read text = readProgram text
      ∧ (∀ tree, readProgram text = .ok tree → Native tree.exprs)
      ∧ ∀ e, readProgram text = .error e → e.Proper := by
  have hcut : (Stages.exacting alarms).cut text = tokenize text :=
    exacting_tokenize_eq alarms.lexing text
  rw [Stages.read, hcut]
  cases htokens : tokenize text with
  | error e =>
      rw [readProgram_eq_lexical htokens]
      refine ⟨rfl, fun tree htree => (by cases htree), fun found hfound => ?_⟩
      obtain rfl := Except.error.inj hfound
      exact trivial
  | ok tokens =>
      have hlexed : Lexed tokens := ⟨tokenClass_of_tokenize htokens, hshort tokens htokens⟩
      obtain ⟨hnative, hproper⟩ := parse_expected hlexed
      have hbuild : (Stages.exacting alarms).build tokens = parse tokens :=
        exacting_parse_eq alarms.parsing hlexed
      dsimp only
      rw [hbuild]
      cases hparse : parse tokens with
      | error e =>
          rw [readProgram_eq_error htokens hparse]
          refine ⟨rfl, fun tree htree => (by cases htree), fun found hfound => ?_⟩
          obtain rfl := Except.error.inj hfound
          exact fun token => hproper e token hparse
      | ok tree =>
          rw [readProgram_eq_ok htokens hparse]
          refine ⟨rfl, fun found hfound => ?_, fun e he => by cases he⟩
          obtain rfl := Except.ok.inj hfound
          exact hnative tree hparse

section

variable {text : String} (hshort : ∀ tokens, tokenize text = .ok tokens → NumbersWithin 4300 tokens)
  (alarms : Alarms)

include hshort

/-- A text is checked as the exacting stages check it, and an error is proper. -/
theorem examine_exacting_eq :
    (Stages.exacting alarms).examine text = checkText text
      ∧ ∀ e, checkText text = .error e → e.Proper := by
  obtain ⟨hread, hnative, hproper⟩ := read_exacting_eq hshort alarms
  rw [Stages.examine, hread]
  cases htree : readProgram text with
  | error e =>
      rw [checkText_of_error htree]
      refine ⟨rfl, fun found hfound => ?_⟩
      obtain rfl := Except.error.inj hfound
      exact hproper e htree
  | ok tree =>
      have hjudge : (Stages.exacting alarms).judge tree = check tree :=
        Checker.alone_exacting_eq alarms.checking (hnative tree htree)
      rw [checkText_of_ok htree]
      refine ⟨congrArg (Except.mapError ProgramError.typing) hjudge, fun found hfound => ?_⟩
      cases hcheck : check tree with
      | ok checked =>
          rw [hcheck] at hfound
          cases hfound
      | error e =>
          rw [hcheck] at hfound
          obtain rfl := Except.error.inj hfound
          exact Checker.proper_of_check_eq_error (hnative tree htree) hcheck

/-- A text is run as the exacting stages run it, within any limits, and what stops
it is proper. -/
theorem play_exacting_eq (limits : Limits) (analyze : Bool) :
    (Stages.exacting alarms).play limits analyze text = runText limits analyze text
      ∧ ∀ e, (runText limits analyze text).1 = .error e → e.Proper := by
  obtain ⟨hread, hnative, hproper⟩ := read_exacting_eq hshort alarms
  cases htree : readProgram text with
  | error e =>
      rw [runText_of_error htree, Stages.play, hread, htree]
      refine ⟨rfl, fun found hfound => ?_⟩
      obtain rfl := Except.error.inj hfound
      exact hproper e htree
  | ok tree =>
      obtain ⟨hsame, -, hproper⟩ := performExacting_eq Session.sturdy_initial
        (hnative tree htree) alarms limits analyze
      have hact : (Stages.exacting alarms).act .initial limits analyze tree
          = Session.initial.perform limits analyze tree := hsame
      rw [runText_of_ok htree, Stages.play, hread, htree]
      exact ⟨congrArg (fun answer => (answer.1, answer.2.output)) hact, hproper⟩

/-- No stage breaks down on a text whose numbers have no more digits than the parser reads.
The exacting stages answer as the stages do, whatever they would raise, so nothing of what
would raise an alarm ever happens: while the text is read, while its tree is checked, and
while the tree is run, analyzed or not, within any limits. And whatever error comes of a text is
one about it: a run that has no result has come to a fault or to a limit, or to a number of its
own that is out of the range of decimals or has too many digits to be written out. -/
theorem no_stage_breaks_down (limits : Limits) (analyze : Bool) :
    (Lexer.Exacting.tokenize alarms.lexing text = tokenize text
        ∧ (Stages.exacting alarms).read text = readProgram text
        ∧ (Stages.exacting alarms).examine text = checkText text
        ∧ (Stages.exacting alarms).play limits analyze text = runText limits analyze text)
      ∧ (∀ e, readProgram text = .error e → e.Proper)
      ∧ (∀ e, checkText text = .error e → e.Proper)
      ∧ ∀ e, (runText limits analyze text).1 = .error e → e.Proper := by
  obtain ⟨hread, -, hproperRead⟩ := read_exacting_eq hshort alarms
  obtain ⟨hcheck, hproperCheck⟩ := examine_exacting_eq hshort alarms
  obtain ⟨hrun, hproperRun⟩ := play_exacting_eq hshort alarms limits analyze
  exact ⟨⟨exacting_tokenize_eq alarms.lexing text, hread, hcheck, hrun⟩, hproperRead,
    hproperCheck, hproperRun⟩

end

/-- So it is where a number is divided by zero, however many places the zero has: it is a
fault of the program, and found before anything is divided. -/
theorem no_stage_breaks_down_zero :
    (∀ alarms limits analyze,
        (Stages.exacting alarms).play limits analyze
            "DEF main(): Decimal DO RETURN 1.5 / -0.00; END"
          = runText limits analyze "DEF main(): Decimal DO RETURN 1.5 / -0.00; END")
      ∧ (runText ⟨10, 10⟩ false "DEF main(): Decimal DO RETURN 1.5 / -0.00; END").1
        = .error (.stopped (.fault ⟨.divisionByZero, some 30⟩))
      ∧ RunError.Proper (.stopped (.fault ⟨.divisionByZero, some 30⟩)) := by
  have hlex : tokenize "DEF main(): Decimal DO RETURN 1.5 / -0.00; END" = .ok
      [⟨.identifier, "DEF", 0⟩, ⟨.identifier, "main", 4⟩, ⟨.operator, "(", 8⟩,
        ⟨.operator, ")", 9⟩, ⟨.operator, ":", 10⟩, ⟨.identifier, "Decimal", 12⟩,
        ⟨.identifier, "DO", 20⟩, ⟨.identifier, "RETURN", 23⟩, ⟨.decimal, "1.5", 30⟩,
        ⟨.operator, "/", 34⟩, ⟨.decimal, "-0.00", 36⟩, ⟨.operator, ";", 41⟩,
        ⟨.identifier, "END", 43⟩] := by
    rfl
  have hshort (tokens : List Token)
      (htokens : tokenize "DEF main(): Decimal DO RETURN 1.5 / -0.00; END" = .ok tokens) :
      NumbersWithin 4300 tokens := by
    rw [hlex] at htokens
    obtain rfl := Except.ok.inj htokens
    decide
  have hread : readProgram "DEF main(): Decimal DO RETURN 1.5 / -0.00; END" = .ok
      ⟨[], [⟨0, "main", [], [], some "Decimal",
        [.result 23 (.binary 30 .div (.decimal 30 ⟨false, 15, -1⟩)
          (.decimal 36 ⟨true, 0, -2⟩))]⟩]⟩ :=
    readProgram_eq_ok hlex rfl
  have hrun : (runText ⟨10, 10⟩ false "DEF main(): Decimal DO RETURN 1.5 / -0.00; END").1
      = .error (.stopped (.fault ⟨.divisionByZero, some 30⟩)) := by
    rw [runText_of_ok hread]
    rfl
  refine ⟨fun alarms limits analyze => ?_, hrun, ?_⟩
  · exact (no_stage_breaks_down hshort alarms limits analyze).1.2.2.2
  -- What a run may end in does not depend on the alarms, so any will do.
  · have hproper := (no_stage_breaks_down hshort ⟨⟨.missingFraction, 0⟩, .expected .expression [],
      ⟨.missingMain, none⟩, .tooLong⟩ ⟨10, 10⟩ false).2.2.2
    exact hproper _ hrun

/-- A program that the checker accepts is run as if it had not been checked: the
checker leaves the machine alone. -/
theorem perform_of_check {checked : Program Note}
    (h : (session.check tree).1 = .ok checked) (limits : Limits) (analyze : Bool) :
    (session.perform limits analyze tree).1
      = (session.execute limits tree).1.mapError RunError.stopped := by
  cases analyze with
  | false => rfl
  | true =>
      unfold Session.perform Session.performed
      dsimp only
      generalize hcheck : session.check tree = answer at h ⊢
      obtain ⟨result, after⟩ := answer
      obtain rfl : result = .ok checked := h
      show (after.execute limits tree).1.mapError RunError.stopped = _
      rw [session_of_check hcheck, execute_of_symbols]

/-- The checker accepts the squaring program, in which every variable is an integer. -/
theorem exists_check_squaring : ∃ checked, check squaring = .ok checked := by
  have hok : (check squaring).isOk = true := by decide +kernel
  cases hcheck : check squaring with
  | ok checked => exact ⟨checked, rfl⟩
  | error e =>
      rw [hcheck] at hok
      cases hok

/-- The numbers of the squaring program have ten digits at most, and the checker accepts it. Yet
its run has neither a value nor a fault, analyzed or not and whatever the limits are that let it
get so far: the number that it returns has too many digits to be written out. -/
theorem squaring_text_has_no_result :
    (∀ tokens, tokenize squaringText = .ok tokens → NumbersWithin 4300 tokens)
      ∧ (∃ checked, checkText squaringText = .ok checked)
      ∧ (∀ limits analyze, 3 ≤ limits.depth →
        (runText limits analyze squaringText).1
          = .error (.stopped (.number (.tooManyDigits ((2000000000 ^ 32) ^ 32)))))
      ∧ ¬ Showable ((2000000000 ^ 32) ^ 32) := by
  obtain ⟨checked, hcheck⟩ := exists_check_squaring
  refine ⟨fun tokens htokens => ?_, ⟨checked, ?_⟩, fun limits analyze hdepth => ?_, ?_⟩
  · rw [tokenize_squaring] at htokens
    obtain rfl := Except.ok.inj htokens
    decide
  · rw [checkText_of_ok readProgram_squaring]
    exact congrArg (Except.mapError ProgramError.typing) hcheck
  · have hperform :=
      perform_of_check ((check_initial squaring).trans hcheck) limits analyze
    rw [execute_squaring limits hdepth] at hperform
    rw [runText_of_ok readProgram_squaring]
    exact hperform
  · decide

end Proofs

end PlcLang
