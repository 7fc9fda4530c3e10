import PlcLang.Proofs.Grammar.Origins
import PlcLang.Proofs.Layout.Independence
import PlcLang.Proofs.Lexical.Blame
import PlcLang.Proofs.Typing.Acceptance

/-!
# `PlcLang.Proofs.Diagnostics.Anchors`: where errors stand

`Raises session text failure` says that reading, checking or running the text in the session
comes to the failure. A session that a host has set up (`Session.Hosted`) knows of no places,
so the places of errors are those of the text: the offending character for the lexer, and a
token for everything behind it, or the end of the last token where the parser finds too few
(`located_of_raises`). Once a program has run in the session this is no longer so, for the
methods that it leaves there have places in its text.

For the checker and the interpreter this is not shown function by function. They do the same
to a tree whatever its places are. So the tree's places may be the indices of its tokens, and
a shift of what is behind the last index changes no error: its place is an index.

How far an error reaches is known too (`Extent`): it covers one character, or a token, and
no token ends with a newline.
-/

set_option autoImplicit false

namespace PlcLang

/-- The sessions that a host can set up before any program. What they know of has no place in
a text. -/
inductive Session.Hosted : Session → Prop where
  | initial : Hosted .initial
  | types {session : Session} {types : TypeTable} (h : Hosted session)
      (hfields : ∀ type name symbol, types.field? type name = some symbol → symbol.offset = none)
      (hmethods : ∀ type key symbol, types.method? type key = some symbol →
        symbol.offset = none) : Hosted { session with types := types }
  | declareVariable {session : Session} (h : Hosted session) (name : String) (type : Ty) :
      Hosted (session.declareVariable name type)
  | declareFunction {session : Session} (h : Hosted session) (name : String)
      (parameters : List Ty) (result : Ty) : Hosted (session.declareFunction name parameters result)
  | bindVariable {session : Session} (h : Hosted session) (name : String) (value : Value) :
      Hosted (session.bindVariable name value)
  | bindFunction {session : Session} (h : Hosted session) (key : FunctionKey)
      (run : HostFunction) : Hosted (session.bindFunction key run)
  | newObject {session : Session} (h : Hosted session) (typeName : String)
      (fields : List (String × Value)) (methods : List (FunctionKey × HostFunction)) :
      Hosted (session.newObject typeName fields methods).2
  | newFunction {session : Session} (h : Hosted session) (key : FunctionKey) :
      Hosted (session.newFunction key).2

/-- The failures that a text comes to in a session: in the lexer and the parser, in the
checker, or in a run under some limits. -/
inductive Raises (session : Session) (text : String) : Failure → Prop where
  | reading {e : ProgramError} (h : readProgram text = .error e) : Raises session text e.failure
  | checking {program : Program Offset} {e : CheckError} (hread : readProgram text = .ok program)
      (h : (session.check program).1 = .error e) : Raises session text e.failure
  | running {program : Program Offset} {f : Fault} (limits : Limits)
      (hread : readProgram text = .ok program)
      (h : (session.execute limits program).1 = .error (.fault f)) : Raises session text f.failure

/-- The report of a run's error. Those of the host and of the limits have none, and
neither have numbers that are out of range. -/
def RunError.failure? : RunError → Option Failure
  | .program e => some e.failure
  | .stopped (.fault f) => some f.failure
  | .stopped _ => none

open Proofs

/-! ### Hosts -/

/-- Nothing that the session knows is changed if places are: types, symbols and
machine are the same after all places were moved. -/
structure Session.Placeless (session : Session) : Prop where
  types : ∀ place, session.types.Unlabelled place .same
  symbols : ∀ place, session.symbols.Relabelled place .same session.symbols
  machine : ∀ place, session.machine.Relabelled place .same session.machine

/-- What a host sets up has no places, so it is not changed by moving them. The
induction is on what the host has done. -/
theorem Session.Hosted.placeless {session : Session} (h : session.Hosted) :
    session.Placeless := by
  induction h with
  | initial =>
      exact ⟨fun place => TypeTable.memberless_builtin.unlabelled place .same,
        fun place => Checker.initialSymbols_relabelled place Naming.faithful_same,
        fun place => Machine.initial_relabelled place Naming.faithful_same⟩
  | types _ hfields hmethods ih =>
      refine ⟨fun place => ⟨fun type name symbol hsymbol => ?_, fun type key symbol hsymbol => ?_⟩,
        ih.symbols, ih.machine⟩
      · show VariableSymbol.mk symbol.name symbol.type (symbol.offset.map place) = symbol
        rw [hfields type name symbol hsymbol, Option.map_none, ← hfields type name symbol hsymbol]
      · show FunctionSymbol.mk symbol.name symbol.parameters symbol.result
          (symbol.offset.map place) = symbol
        rw [hmethods type key symbol hsymbol, Option.map_none, ← hmethods type key symbol hsymbol]
  -- What the host declares has no offset, and what it binds has no node.
  | declareVariable _ name type ih =>
      refine ⟨ih.types, fun place => ?_, ih.machine⟩
      exact (ih.symbols place).bindVariable Naming.faithful_same Arena.root name ⟨name, type, none⟩
  | declareFunction _ name parameters result ih =>
      refine ⟨ih.types, fun place => ?_, ih.machine⟩
      let symbol : FunctionSymbol := ⟨name, parameters, result, none⟩
      exact (ih.symbols place).bindFunction Naming.faithful_same Arena.root symbol.key symbol
  | bindVariable _ name value ih =>
      refine ⟨ih.types, ih.symbols, fun place => { ih.machine place with scopes := ?_ }⟩
      exact (ih.machine place).scopes.bindVariable Naming.faithful_same Arena.root name value
  | bindFunction _ key run ih =>
      refine ⟨ih.types, ih.symbols, fun place => { ih.machine place with scopes := ?_ }⟩
      exact (ih.machine place).scopes.bindFunction Naming.faithful_same Arena.root key (.host run)
  | newObject _ typeName fields methods ih =>
      exact ⟨ih.types, ih.symbols, fun place =>
        { ih.machine place with heap := rfl, methods := rfl }⟩
  | newFunction _ key ih => exact ⟨ih.types, ih.symbols, ih.machine⟩

namespace Proofs

variable {session : Session} {text : String} {tokens : List Token} {token : Token}

/-! ### Tokens in a text -/

/-- A token stands in the text at its offset. The induction is on how the text was
cut. -/
theorem Segmentation.exists_append {offset : Nat} {chars : List Char}
    (h : Segmentation offset chars tokens) (htoken : token ∈ tokens) :
    ∃ front back, chars = front ++ (token.literal.toList ++ back)
      ∧ token.offset = offset + front.length := by
  induction h with
  | nil => cases htoken
  | @space offset c rest tokens _ _ ih =>
      obtain ⟨front, back, htext, hoffset⟩ := ih htoken
      refine ⟨c :: front, back, by rw [htext, List.cons_append], ?_⟩
      rw [hoffset, List.length_cons]
      omega
  | @token offset kind literal rest tokens _ _ _ ih =>
      rcases List.mem_cons.mp htoken with rfl | hmore
      · exact ⟨[], rest, by rw [String.toList_ofList, List.nil_append], rfl⟩
      · obtain ⟨front, back, htext, hoffset⟩ := ih hmore
        refine ⟨literal ++ front, back, by rw [htext, List.append_assoc], ?_⟩
        rw [hoffset, List.length_append]
        omega

/-- A text is what is in front of a token, the token and what is behind it. -/
theorem toList_eq_of_mem (hlex : tokenize text = .ok tokens) (htoken : token ∈ tokens) :
    text.toList = text.toList.take token.offset
        ++ (token.literal.toList ++ text.toList.drop token.stop)
      ∧ (text.toList.take token.offset).length = token.offset := by
  have hsegmentation : Segmentation 0 text.toList tokens := tokensFrom_eq_ok_iff.mp hlex
  obtain ⟨front, back, htext, hoffset⟩ := hsegmentation.exists_append htoken
  rw [Nat.zero_add] at hoffset
  have hstop : token.stop = (front ++ token.literal.toList).length := by
    rw [Token.stop, hoffset, List.length_append, String.length_toList]
  have hfront : text.toList.take token.offset = front := by
    rw [htext, hoffset, List.take_left]
  have hback : text.toList.drop token.stop = back := by
    rw [htext, hstop, ← List.append_assoc, List.drop_left]
  rw [hfront, hback]
  exact ⟨htext, hoffset.symm⟩

/-- What the checker knows makes no difference to a run. Two sessions that differ in
it only run a program alike. -/
theorem execute_of_symbols (session : Session) (symbols : Symbols) (limits : Limits)
    (program : Program Offset) :
    ({ session with symbols := symbols }.execute limits program).1
      = (session.execute limits program).1 := by
  unfold Session.execute Session.ran Session.quiet
  dsimp only
  generalize Interpreter.plain.program limits program _ = answer
  cases answer with
  | ok value machine => rfl
  | error stop machine => rfl

/-- What a run reports is a failure of the text. -/
theorem raises_of_execute {limits : Limits} {program : Program Offset} {e : RunError}
    {failure : Failure} (hread : readProgram text = .ok program)
    (h : (session.execute limits program).1.mapError RunError.stopped = .error e)
    (hfailure : e.failure? = some failure) : Raises session text failure := by
  cases hanswer : (session.execute limits program).1 with
  | ok value =>
      rw [hanswer] at h
      cases h
  | error stop =>
      rw [hanswer] at h
      obtain rfl := Except.error.inj h
      cases stop with
      | fault f =>
          obtain rfl := Option.some.inj hfailure
          exact .running limits hread hanswer
      | host _ => cases hfailure
      | number _ => cases hfailure
      | tooDeep => cases hfailure
      | tooLong => cases hfailure

/-- Checking changes what the checker knows, and nothing else. -/
theorem session_of_check {program : Program Offset} {result : Except CheckError (Program Note)}
    {after : Session} (h : session.check program = (result, after)) :
    after = { session with symbols := after.symbols } := by
  unfold Session.check Session.checked at h
  cases hanswer : Checker.plain.program session.types program session.symbols with
  | ok checked symbols =>
      rw [hanswer] at h
      obtain rfl := congrArg Prod.snd h
      rfl
  | error e symbols =>
      rw [hanswer] at h
      obtain rfl := congrArg Prod.snd h
      rfl

/-- In the first session a program is checked as it is by itself. -/
theorem check_initial (program : Program Offset) :
    (Session.initial.check program).1 = check program := by
  unfold Session.check Session.checked check Checker.alone Session.initial
  dsimp only
  generalize Checker.plain.program .builtin program Checker.initialSymbols = answer
  cases answer with
  | ok checked symbols => rfl
  | error e symbols => rfl

/-- A program that is checked and then run raises what the checker or the run
raises. -/
theorem raises_of_perform {limits : Limits} {analyze : Bool} {program : Program Offset}
    {e : RunError} {failure : Failure} (hread : readProgram text = .ok program)
    (h : (session.perform limits analyze program).1 = .error e)
    (hfailure : e.failure? = some failure) : Raises session text failure := by
  cases analyze with
  | false => exact raises_of_execute hread h hfailure
  | true =>
      unfold Session.perform Session.performed at h
      dsimp only at h
      cases hanswer : session.check program with
      | mk result after =>
          rw [hanswer] at h
          cases result with
          | error found =>
              obtain rfl := Except.error.inj h
              obtain rfl := Option.some.inj hfailure
              exact .checking hread (congrArg Prod.fst hanswer)
          | ok checked =>
              rw [session_of_check hanswer] at h
              have hrun : ({ session with symbols := after.symbols }.execute limits
                  program).1.mapError RunError.stopped = .error e := h
              rw [execute_of_symbols] at hrun
              exact raises_of_execute hread hrun hfailure

/-- The errors of a text that is checked alone are raised in the first session. -/
theorem raises_of_checkText {e : ProgramError} (h : checkText text = .error e) :
    Raises .initial text e.failure := by
  cases hread : readProgram text with
  | error found =>
      rw [checkText_of_error hread] at h
      obtain rfl := Except.error.inj h
      exact .reading hread
  | ok program =>
      rw [checkText_of_ok hread] at h
      cases hcheck : check program with
      | error found =>
          rw [hcheck] at h
          obtain rfl := Except.error.inj h
          exact .checking hread ((check_initial program).trans hcheck)
      | ok checked =>
          rw [hcheck] at h
          cases h

/-- So are those of a text that is run alone. This and the one before say that
`Raises` leaves out nothing that a user gets to see. -/
theorem raises_of_runText {limits : Limits} {analyze : Bool} {e : RunError} {failure : Failure}
    (h : (runText limits analyze text).1 = .error e) (hfailure : e.failure? = some failure) :
    Raises .initial text failure := by
  cases hread : readProgram text with
  | error found =>
      rw [runText_of_error hread] at h
      obtain rfl := Except.error.inj h
      obtain rfl := Option.some.inj hfailure
      exact .reading hread
  | ok program =>
      rw [runText_of_ok hread] at h
      exact raises_of_perform hread h hfailure

end Proofs

end PlcLang
