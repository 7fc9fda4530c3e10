import PlcLang.Proofs.Grammar.Agreement
import PlcLang.Proofs.Syntax.Subexpressions

/-!
# `PlcLang.Proofs.Breakdowns.Parsing`: the parser never breaks down

The exacting parser (`Parser.Reliance.exacting`) is the parser with an alarm at each place where
it relies on something: on a token that it has looked at before, and on a number in a token of a
number kind, with no more digits than can be read. On the tokens of a text whose numbers are not
too long (`Lexed`) it raises no alarm: it does what the parser does (`exacting_parse_eq`). And
the parser fails for an expectation only, never for a number, and answers with a tree of
expressions of the language (`parse_expected`).

What is carried through the parser is `Sound`. A statement is begun where a token is
left, and so is what a word leads to, so there it is said of the tokens that begin with
that one: `SoundAt`.
-/

set_option autoImplicit false

namespace PlcLang

variable {α β : Type}

/-- The reliance of an exacting parser: where something does not hold that it relies on, it raises
an alarm. The alarm may be any obstacle. -/
@[reducible] def Parser.Reliance.exacting (alarm : Obstacle) : Parser.Reliance where
  rely holds answer := if holds then answer else throw alarm
  rely_true _ := rfl

namespace Proofs

open PlcLang.Parser

/-! ### Tokens that come from the lexer -/

/-- Tokens as the lexer makes them, with numbers that are not too long: the text of
each token is of the form that its kind promises, and no number has more digits than
can be read. -/
structure Lexed (tokens : List Token) : Prop where
  genuine : Genuine tokens
  short : NumbersWithin 4300 tokens

/-- The tokens behind the first one come from the lexer, too. -/
theorem Lexed.tail {token : Token} {rest : List Token} (h : Lexed (token :: rest)) :
    Lexed rest :=
  ⟨fun other hother => h.genuine other (List.mem_cons_of_mem token hother),
    fun other hother => h.short other (List.mem_cons_of_mem token hother)⟩

/-! ### Sound parsers -/

/-- How a parser that is sound ends: with an answer that has `Q`, or with an
expectation that is not met. It never ends with a number that cannot be read. -/
inductive Expected (Q : α → Prop) : Except Obstacle (α × List Token) → Prop where
  | answer {a : α} {rest : List Token} (ha : Q a) (hrest : Lexed rest) : Expected Q (.ok (a, rest))
  | unmet (what : Expectation) (rest : List Token) : Expected Q (.error (.expected what rest))

/-- On these tokens the parser does the same whatever it does where something does not hold that it
relies on: it raises no alarm. And it ends as expected. The parser is given for each
reliance. -/
structure SoundOn (tokens : List Token) (Q : α → Prop) (p : Reliance → Parser α) : Prop where
  exact (alarm : Obstacle) : p (.exacting alarm) tokens = p .trusting tokens
  expected : Expected Q (p .trusting tokens)

/-- On all tokens of the lexer the parser is sound, with an answer that has `Q`. -/
def Sound (Q : α → Prop) (p : Reliance → Parser α) : Prop :=
  ∀ tokens, Lexed tokens → SoundOn tokens Q p

/-- `Sound` for the lists that begin with `token`. It is what can be said of parsers
that take a token without having looked at it. -/
def SoundAt (token : Token) (Q : α → Prop) (p : Reliance → Parser α) : Prop :=
  ∀ more, Lexed (token :: more) → SoundOn (token :: more) Q p

/-- The answer may be anything. This is for parsers that answer with no tree. -/
abbrev AnyAnswer (_ : α) : Prop := True

/-- The second part goes on with the tokens that the first one leaves, and may rely
on what is known of its answer. -/
theorem SoundOn.bind {tokens : List Token} {Q : α → Prop} {R : β → Prop}
    {p : Reliance → Parser α} {f : Reliance → α → Parser β} (h : SoundOn tokens Q p)
    (hf : ∀ a, Q a → Sound R fun reliance => f reliance a) :
    SoundOn tokens R fun reliance => p reliance >>= f reliance := by
  obtain ⟨hexact, hexpected⟩ := h
  generalize hanswer : p .trusting tokens = answer at hexact hexpected
  cases hexpected with
  | @answer a rest ha hrest =>
      obtain ⟨hsame, hends⟩ := hf a ha rest hrest
      constructor
      · intro alarm
        rw [bind_of_ok (hexact alarm), bind_of_ok hanswer]
        exact hsame alarm
      · rw [bind_of_ok hanswer]
        exact hends
  | unmet what rest =>
      have hfails {p : Parser α} {g : α → Parser β}
          (h : p tokens = .error (.expected what rest)) :
          (p >>= g) tokens = .error (.expected what rest) := by
        show (p tokens >>= fun answer => g answer.1 answer.2) = _
        rw [h]
        rfl
      constructor
      · intro alarm
        rw [hfails (hexact alarm), hfails hanswer]
      · rw [hfails hanswer]
        exact .unmet what rest

namespace Sound

variable {Q : α → Prop} {R : β → Prop} {p : Reliance → Parser α}

/-- What is sound on all tokens is sound on those that begin with this one. -/
theorem «at» (h : Sound Q p) (token : Token) : SoundAt token Q p :=
  fun more hlexed => h (token :: more) hlexed

/-- An answer with `Q` takes no token. -/
theorem pure {a : α} (ha : Q a) : Sound Q fun _ => pure a :=
  fun _ hlexed => ⟨fun _ => rfl, .answer ha hlexed⟩

/-- An expectation that is not met is how a sound parser may end. -/
theorem fail (what : Expectation) : Sound Q fun _ => fail what :=
  fun tokens _ => ⟨fun _ => rfl, .unmet what tokens⟩

/-- Sound parts can be put behind each other. The second may rely on what is known
of the answer of the first. -/
theorem bind {f : Reliance → α → Parser β} (h : Sound Q p)
    (hf : ∀ a, Q a → Sound R fun reliance => f reliance a) :
    Sound R fun reliance => p reliance >>= f reliance :=
  fun tokens hlexed => (h tokens hlexed).bind hf

/-- What is made of an answer with `Q` has to have `R`. -/
theorem map {f : α → β} (h : Sound Q p) (hf : ∀ a, Q a → R (f a)) :
    Sound R fun reliance => f <$> p reliance :=
  h.bind fun a ha => .pure (hf a ha)

/-- A choice between two parts, by what both have seen. -/
theorem ite {accepted : Bool} {p' : Reliance → Parser α} (h : Sound Q p) (h' : Sound Q p') :
    Sound Q fun reliance => if accepted then p reliance else p' reliance := by
  cases accepted with
  | true => exact h
  | false => exact h'

end Sound

/-! ### Single tokens -/

section Tokens

variable {Q : α → Prop}

/-- Looking at the next token answers, whatever it is. -/
theorem sound_atAny (literals : List String) : Sound AnyAnswer fun _ => atAny literals := by
  intro tokens hlexed
  refine ⟨fun _ => rfl, ?_⟩
  cases tokens with
  | nil => exact .answer trivial hlexed
  | cons token rest => exact .answer trivial hlexed

/-- A word may be taken, or something else may stand there. -/
theorem sound_accept (literal : String) : Sound AnyAnswer fun _ => accept literal := by
  intro tokens hlexed
  cases tokens with
  | nil => exact ⟨fun _ => rfl, .answer trivial hlexed⟩
  | cons token rest =>
      refine ⟨fun alarm => ?_, ?_⟩
      · rw [@accept_cons (.exacting alarm), accept_cons]
      · rw [accept_cons]
        split
        · exact .answer trivial hlexed.tail
        · exact .answer trivial hlexed

/-- A word that is not there is an expectation that is not met. -/
theorem sound_expect (literal role : String) : Sound AnyAnswer fun _ => expect literal role :=
  (sound_accept literal).bind fun _ _ => .ite (.pure trivial) (.fail _)

/-- A name may be taken. Anything else is an expectation that is not met. -/
theorem sound_expectName (expected : Expectation) :
    Sound AnyAnswer fun _ => expectName expected := by
  intro tokens hlexed
  cases tokens with
  | nil => exact ⟨fun _ => rfl, .unmet expected []⟩
  | cons token rest =>
      refine ⟨fun alarm => ?_, ?_⟩
      · rw [@expectName_cons (.exacting alarm), expectName_cons]
      · rw [expectName_cons]
        split
        · exact .answer trivial hlexed.tail
        · exact .unmet expected _

/-- An operator of the level may be taken, or something else may stand there. -/
theorem sound_acceptOperator (precedence : Precedence) :
    Sound AnyAnswer fun _ => acceptOperator precedence := by
  intro tokens hlexed
  cases tokens with
  | nil => exact ⟨fun _ => rfl, .answer trivial hlexed⟩
  | cons token rest =>
      refine ⟨fun alarm => ?_, ?_⟩
      · rw [@acceptOperator_cons (.exacting alarm), acceptOperator_cons]
      · rw [acceptOperator_cons]
        split
        · exact .answer trivial hlexed.tail
        · exact .answer trivial hlexed

/-- The next token is the one in front, and stays. -/
theorem soundAt_peek {token : Token} {f : Reliance → Option Token → Parser α}
    (h : SoundAt token Q fun reliance => f reliance (some token)) :
    SoundAt token Q fun reliance => peek >>= f reliance := by
  intro more hlexed
  obtain ⟨hexact, hexpected⟩ := h more hlexed
  exact ⟨hexact, hexpected⟩

/-- What is done with the next token, if there is one. If so, its text is of the
form that its kind promises, and what comes next is said of the tokens that begin
with it. -/
theorem sound_peek {f : Reliance → Option Token → Parser α}
    (hnone : Sound Q fun reliance => f reliance none)
    (hsome : ∀ token, TokenClass token.kind token.literal.toList →
      SoundAt token Q fun reliance => f reliance (some token)) :
    Sound Q fun reliance => peek >>= f reliance := by
  intro tokens hlexed
  cases tokens with
  | nil =>
      obtain ⟨hexact, hexpected⟩ := hnone [] hlexed
      exact ⟨hexact, hexpected⟩
  | cons token more =>
      have hclass := hlexed.genuine token List.mem_cons_self
      exact soundAt_peek (hsome token hclass) more hlexed

/-- A token in front can be taken: it is there. -/
theorem soundAt_skip {token : Token} {p : Reliance → Parser α} (h : Sound Q p) :
    SoundAt token Q fun reliance => skip >>= fun _ => p reliance := by
  intro more hlexed
  obtain ⟨hexact, hexpected⟩ := h more hlexed.tail
  exact ⟨hexact, hexpected⟩

/-- A token in front is there, and stays. -/
theorem soundAt_present {token : Token} {p : Reliance → Parser α} (h : SoundAt token Q p) :
    SoundAt token Q fun reliance => present >>= fun _ => p reliance := by
  intro more hlexed
  obtain ⟨hexact, hexpected⟩ := h more hlexed
  exact ⟨hexact, hexpected⟩

end Tokens

/-! ### Expressions -/

section Expressions

variable {expression : Reliance → Parser (Expr Offset)}
  (hexpression : Sound (fun e => Native e.subs) expression)

/-- A chain of operators is of the language if its operands are. The induction is on
the budget. -/
theorem sound_chain (precedence : Precedence) {operand : Reliance → Parser (Expr Offset)}
    (hoperand : Sound (fun e => Native e.subs) operand) (budget : Nat)
    {left : Expr Offset} (hleft : Native left.subs) :
    Sound (fun e => Native e.subs) fun reliance =>
      chain precedence (operand reliance) budget left := by
  induction budget generalizing left with
  | zero => exact .pure hleft
  | succ budget ih =>
      refine (sound_acceptOperator precedence).bind fun found _ => ?_
      cases found with
      | none => exact .pure hleft
      | some op =>
          refine hoperand.bind fun right hright => ?_
          exact ih (native_cons.mpr ⟨trivial, native_append.mpr ⟨hleft, hright⟩⟩)

/-- One level of operators is sound if its operands are. -/
theorem sound_operands (precedence : Precedence) (budget : Nat)
    {operand : Reliance → Parser (Expr Offset)}
    (hoperand : Sound (fun e => Native e.subs) operand) :
    Sound (fun e => Native e.subs) fun reliance =>
      operands precedence budget (operand reliance) :=
  hoperand.bind fun _ hleft => sound_chain precedence hoperand budget hleft

include hexpression

/-- Arguments are of the language, since each expression is. -/
theorem sound_moreArguments (budget : Nat) :
    Sound (fun list => Native (Expr.subsAll list)) fun reliance =>
      moreArguments (expression reliance) budget := by
  induction budget with
  | zero => exact .fail _
  | succ budget ih =>
      refine hexpression.bind fun argument hargument => ?_
      refine (sound_accept ",").bind fun accepted _ => .ite ?_ ?_
      · exact ih.bind fun more hmore => .pure (native_append.mpr ⟨hargument, hmore⟩)
      · refine (sound_expect ")" "after arguments").bind fun _ _ => .pure ?_
        exact native_append.mpr ⟨hargument, native_nil⟩

/-- So are the arguments between parentheses, of which there may be none. -/
theorem sound_arguments (budget : Nat) :
    Sound (fun list => Native (Expr.subsAll list)) fun reliance =>
      arguments (expression reliance) budget :=
  (sound_accept ")").bind fun _ _ =>
    .ite (.pure native_nil) (sound_moreArguments hexpression budget)

/-- A word is a constant, a variable or a call, by its own text and the token behind
it. -/
theorem soundAt_word (budget : Nat) (token : Token) :
    SoundAt token (fun e => Native e.subs) fun reliance =>
      word (expression reliance) budget token := by
  have hleaf (e : Expr Offset) (he : e.IsNative) : Native [e] :=
    native_cons.mpr ⟨he, native_nil⟩
  refine soundAt_present ?_
  split
  · exact soundAt_skip (Sound.pure (hleaf (.nil token.offset) trivial))
  · exact soundAt_skip (Sound.pure (hleaf (.boolean token.offset true) trivial))
  · exact soundAt_skip (Sound.pure (hleaf (.boolean token.offset false) trivial))
  · refine ((sound_expectName _).bind fun name _ => ?_).at token
    refine (sound_accept "(").bind fun _ _ =>
      .ite ?_ (.pure (hleaf (.var token.offset name) trivial))
    refine (sound_arguments hexpression budget).bind fun list hlist => .pure ?_
    exact native_cons.mpr ⟨trivial, hlist⟩

omit hexpression in
/-- A literal with few digits means a number with few digits. So an integer that is
read can be written out again. -/
theorem natAbs_lt_of_digitCount {literal : List Char} {value : Int} {limit : Nat}
    (h : IntegerText literal value) (hcount : digitCount literal ≤ limit) :
    value.natAbs < Decimal.tenTo limit := by
  cases h with
  | @mk negative sign digits hsign hdigits =>
      have hlength : digits.length ≤ limit := by
        rw [← digitCount_of_isDigits hdigits]
        refine Nat.le_trans ?_ hcount
        rw [digitCount, digitCount, List.countP_append]
        exact Nat.le_add_left _ _
      have hnumber : digitsNumber digits < Decimal.tenTo limit :=
        Nat.lt_of_lt_of_le (digitsNumber_lt hdigits.all)
          (Nat.pow_le_pow_right (by decide) hlength)
      -- the sign does not count
      cases negative with
      | false => exact hnumber
      | true =>
          show (-(digitsNumber digits : Int)).natAbs < Decimal.tenTo limit
          rwa [Int.natAbs_neg]

omit hexpression in
/-- An integer of the lexer is a number, and one that is short enough to be read. -/
theorem soundAt_integer {token : Token} (hkind : token.kind = .integer) :
    SoundAt token (fun e => Native e.subs) fun _ => (do
      skip
      match readInteger? token.literal with
      | some value =>
        rely (digitCount token.literal.toList ≤ digitLimit)
          (pure (Expr.integer token.offset value))
      | none => rely false (throw (.malformedNumber token))) := by
  intro more hlexed
  have hclass := hlexed.genuine token List.mem_cons_self
  have hcount : digitCount token.literal.toList ≤ digitLimit :=
    hlexed.short token List.mem_cons_self (.inl hkind)
  obtain ⟨value, htext⟩ : ∃ value, IntegerText token.literal.toList value := by
    rw [hkind] at hclass
    cases hclass with
    | integer h => exact ⟨_, h⟩
  rw [readInteger?_eq_some htext, decide_eq_true hcount]
  simp only [rely_true]
  refine soundAt_skip ?_ more hlexed
  exact .pure (native_cons.mpr ⟨natAbs_lt_of_digitCount htext hcount, native_nil⟩)

omit hexpression in
/-- So is a decimal, and it is within reach of the decimals: its digits are those of
the literal. -/
theorem soundAt_decimal {token : Token} (hkind : token.kind = .decimal) :
    SoundAt token (fun e => Native e.subs) fun _ => (do
      skip
      match Decimal.read? token.literal with
      | some value => pure (Expr.decimal token.offset value)
      | none => rely false (throw (.malformedNumber token))) := by
  intro more hlexed
  have hreadable := readable_of_numbersWithin hlexed.genuine hlexed.short
  obtain ⟨value, hvalue⟩ :=
    Option.isSome_iff_exists.mp (hreadable.decimals token List.mem_cons_self hkind)
  rw [hvalue]
  refine soundAt_skip ?_ more hlexed
  exact .pure (native_cons.mpr ⟨trivial, native_nil⟩)

/-- A primary expression is sound, by the kind of its first token. -/
theorem sound_primary (budget : Nat) :
    Sound (fun e => Native e.subs) fun reliance => primary (expression reliance) budget := by
  have hleaf (e : Expr Offset) (he : e.IsNative) : Native [e] :=
    native_cons.mpr ⟨he, native_nil⟩
  refine sound_peek (.fail _) fun token _ => ?_
  dsimp only
  cases hkind : token.kind with
  | integer => exact soundAt_integer hkind
  | decimal => exact soundAt_decimal hkind
  | character => exact soundAt_skip (.pure (hleaf (.character token.offset _) trivial))
  | string => exact soundAt_skip (.pure (hleaf (.string token.offset _) trivial))
  | identifier => exact soundAt_word hexpression budget token
  | operator =>
      refine ((sound_accept "(").bind fun _ _ => .ite ?_ (.fail _)).at token
      refine hexpression.bind fun inner hinner => ?_
      refine (sound_expect ")" "to close group").bind fun _ _ => .pure ?_
      exact native_cons.mpr ⟨trivial, hinner⟩

/-- Members behind a receiver of the language are of the language. The induction is
on the budget. -/
theorem sound_members (budget : Nat) {receiver : Expr Offset} (hreceiver : Native receiver.subs) :
    Sound (fun e => Native e.subs) fun reliance =>
      members (expression reliance) budget receiver := by
  induction budget generalizing receiver with
  | zero => exact .pure hreceiver
  | succ budget ih =>
      refine (sound_accept ".").bind fun _ _ => .ite ?_ (.pure hreceiver)
      refine (sound_expectName _).bind fun name _ => ?_
      refine (sound_accept "(").bind fun _ _ => .ite ?_ ?_
      · refine (sound_arguments hexpression budget).bind fun list hlist => ?_
        exact ih (native_cons.mpr ⟨trivial, native_append.mpr ⟨hreceiver, hlist⟩⟩)
      · exact ih (native_cons.mpr ⟨trivial, hreceiver⟩)

/-- A primary expression with all its members is sound. -/
theorem sound_postfixChain (budget : Nat) :
    Sound (fun e => Native e.subs) fun reliance => postfixChain (expression reliance) budget :=
  (sound_primary hexpression budget).bind fun _ hreceiver =>
    sound_members hexpression budget hreceiver

end Expressions

/-- Expressions are sound, one level over the other. The induction is on the budget,
which the groups and the arguments use up. -/
theorem sound_expression (budget : Nat) :
    Sound (fun e => Native e.subs) fun _ => expression budget := by
  induction budget with
  | zero => exact .fail _
  | succ budget ih =>
      refine sound_operands .logical (budget + 1) ?_
      refine sound_operands .comparison (budget + 1) ?_
      refine sound_operands .additive (budget + 1) ?_
      refine sound_operands .multiplicative (budget + 1) ?_
      exact sound_postfixChain ih (budget + 1)

/-! ### Statements -/

/-- A part that is there if a word is. Without the word there is a substitute for
it, which has `Q` as well. -/
theorem sound_optional {literal : String} {Q : α → Prop} {p : Reliance → Parser α} {absent : α}
    (h : Sound Q p) (habsent : Q absent) {R : β → Prop} {f : Reliance → α → Parser β}
    (hf : ∀ a, Q a → Sound R fun reliance => f reliance a) :
    Sound R fun reliance => (do
      let a ← if ← accept literal then p reliance else pure absent
      f reliance a) := by
  refine (sound_accept literal).bind fun accepted _ => ?_
  cases accepted with
  | true => exact h.bind hf
  | false => exact (Sound.pure habsent).bind hf

/-- A declaration has a type and a value if it says so, and both are sound. -/
theorem sound_declaration (budget : Nat) :
    Sound (fun d => Native d.exprs) fun _ => declaration budget := by
  have hvalue : Sound (fun value => ∀ e ∈ value, Native e.subs)
      fun _ => some <$> expression budget :=
    (sound_expression budget).map fun e he _ h => by
      obtain rfl := Option.mem_some_iff.mp h
      exact he
  refine (sound_expectName _).bind fun name _ => ?_
  refine sound_optional ((sound_expectName (.name .type)).map (R := AnyAnswer) fun _ _ => trivial)
    trivial fun typeName _ => ?_
  refine sound_optional hvalue (fun _ h => absurd h (Option.not_mem_none _))
    fun value hvalue => .pure ?_
  cases value with
  | none => exact native_nil
  | some value => exact hvalue value rfl

section Statements

variable {statement : Reliance → Parser (Stmt Offset)}
  (hstatement : ∀ token, SoundAt token (fun s => Native s.exprs) statement)

include hstatement

/-- A block is sound if its statements are. It looks at a token before it begins a
statement. -/
theorem sound_block (terminators : List String) (budget : Nat) :
    Sound (fun body => Native (Stmt.exprsAll body)) fun reliance =>
      block terminators (statement reliance) budget := by
  induction budget with
  | zero => exact .fail _
  | succ budget ih =>
      refine (sound_atAny terminators).bind fun ends _ => .ite (.pure native_nil) ?_
      refine sound_peek (.fail _) fun token _ => ?_
      -- the token that was seen is still there when the statement begins
      intro more hlexed
      refine (hstatement token more hlexed).bind fun first hfirst => ?_
      exact ih.bind fun rest hrest => .pure (native_append.mpr ⟨hfirst, hrest⟩)

/-- A conditional is sound behind its first word. -/
theorem sound_conditional (mark : Offset) (budget : Nat) :
    Sound (fun s => Native s.exprs) fun reliance =>
      conditional mark (statement reliance) budget := by
  refine (sound_expression budget).bind fun condition hcondition => ?_
  refine (sound_expect "DO" "after condition").bind fun _ _ => ?_
  refine (sound_block hstatement ["ELSE", "END"] budget).bind fun thenBody hthen => ?_
  have hnone : Native (Stmt.exprsAll ([] : List (Stmt Offset))) := native_nil
  refine sound_optional (sound_block hstatement ["END"] budget) hnone fun elseBody helse => ?_
  refine (sound_expect "END" "after if statement").bind fun _ _ => .pure ?_
  exact native_append.mpr ⟨hcondition, native_append.mpr ⟨hthen, helse⟩⟩

/-- So is a loop over a sequence. -/
theorem sound_forLoop (mark : Offset) (budget : Nat) :
    Sound (fun s => Native s.exprs) fun reliance =>
      forLoop mark (statement reliance) budget := by
  refine (sound_expectName _).bind fun name _ => ?_
  refine (sound_expect "IN" "after loop variable").bind fun _ _ => ?_
  refine (sound_expression budget).bind fun value hvalue => ?_
  refine (sound_expect "DO" "after loop value").bind fun _ _ => ?_
  refine (sound_block hstatement ["END"] budget).bind fun body hbody => ?_
  refine (sound_expect "END" "after loop body").bind fun _ _ => .pure ?_
  exact native_append.mpr ⟨hvalue, hbody⟩

/-- So is a loop on a condition. -/
theorem sound_whileLoop (mark : Offset) (budget : Nat) :
    Sound (fun s => Native s.exprs) fun reliance =>
      whileLoop mark (statement reliance) budget := by
  refine (sound_expression budget).bind fun condition hcondition => ?_
  refine (sound_expect "DO" "after condition").bind fun _ _ => ?_
  refine (sound_block hstatement ["END"] budget).bind fun body hbody => ?_
  refine (sound_expect "END" "after loop body").bind fun _ _ => .pure ?_
  exact native_append.mpr ⟨hcondition, hbody⟩

end Statements

/-- An assignment or an expression alone has no first word, and is sound on all
tokens. -/
theorem sound_expressionStatement (mark : Offset) (budget : Nat) :
    Sound (fun s => Native s.exprs) fun _ => expressionStatement mark budget := by
  refine (sound_expression budget).bind fun target htarget => ?_
  refine (sound_accept "=").bind fun _ _ => .ite ?_ ?_
  · refine (sound_expression budget).bind fun value hvalue => ?_
    refine (sound_expect ";" "after assignment").bind fun _ _ => .pure ?_
    exact native_append.mpr ⟨htarget, hvalue⟩
  · exact (sound_expect ";" "after expression").bind fun _ _ => .pure htarget

/-- A statement is begun where a token is left. By its text it is one of the six
forms, and all of them are sound. The induction is on the budget, for the blocks
inside. -/
theorem soundAt_statement (budget : Nat) (token : Token) :
    SoundAt token (fun s => Native s.exprs) fun _ => statement budget := by
  induction budget generalizing token with
  | zero => exact Sound.at (.fail _) token
  | succ budget ih =>
      refine soundAt_peek ?_
      dsimp only
      split
      · refine soundAt_skip ((sound_declaration (budget + 1)).bind fun d hd => ?_)
        exact (sound_expect ";" "after declaration").bind fun _ _ => .pure hd
      · exact soundAt_skip (sound_conditional ih token.offset (budget + 1))
      · exact soundAt_skip (sound_forLoop ih token.offset (budget + 1))
      · exact soundAt_skip (sound_whileLoop ih token.offset (budget + 1))
      · refine soundAt_skip ((sound_expression (budget + 1)).bind fun value hvalue => ?_)
        exact (sound_expect ";" "after return value").bind fun _ _ => .pure hvalue
      · exact (sound_expressionStatement token.offset (budget + 1)).at token

/-! ### Fields, methods and the whole -/

/-- Parameters answer with names only. -/
theorem sound_moreParameters (budget : Nat) : Sound AnyAnswer fun _ => moreParameters budget := by
  induction budget with
  | zero => exact .fail _
  | succ budget ih =>
      refine (sound_expectName _).bind fun name _ => ?_
      refine (sound_expect ":" "after parameter name").bind fun _ _ => ?_
      refine (sound_expectName _).bind fun typeName _ => ?_
      refine (sound_accept ",").bind fun _ _ => .ite ?_ ?_
      · exact ih.bind fun more _ => .pure trivial
      · exact (sound_expect ")" "after parameters").bind fun _ _ => .pure trivial

/-- A method is sound behind its first word, and its body is of the language. -/
theorem sound_method (mark : Offset) (budget : Nat) :
    Sound (fun m => Native m.exprs) fun _ => method mark budget := by
  refine (sound_expectName _).bind fun name _ => ?_
  refine (sound_expect "(" "after method name").bind fun _ _ => ?_
  refine (sound_accept ")").bind fun accepted _ => ?_
  -- With or without parameters, the method goes on in the same way.
  have hrest (parameters : List (String × String)) : Sound (fun m => Native m.exprs) fun _ => (do
      let returnType ← if ← accept ":" then some <$> expectName (.name .returnType) else pure none
      expect "DO" "before method body"
      let body ← block ["END"] (statement budget) budget
      expect "END" "after method body"
      pure (⟨mark, name, parameters.map (·.1), parameters.map (·.2), returnType, body⟩
        : Method Offset)) := by
    refine sound_optional ((sound_expectName (.name .returnType)).map (R := AnyAnswer)
      fun _ _ => trivial) trivial fun returnType _ => ?_
    refine (sound_expect "DO" "before method body").bind fun _ _ => ?_
    refine (sound_block (soundAt_statement budget) ["END"] budget).bind fun body hbody => ?_
    exact (sound_expect "END" "after method body").bind fun _ _ => .pure hbody
  cases accepted with
  | true => exact hrest []
  | false => exact (sound_moreParameters budget).bind fun parameters _ => hrest parameters

/-- A field is sound behind its first word, and its value is of the language. -/
theorem sound_field (mark : Offset) (budget : Nat) :
    Sound (fun f => Native f.exprs) fun _ => field mark budget :=
  (sound_declaration budget).bind fun _ hd =>
    (sound_expect ";" "after field declaration").bind fun _ _ => .pure hd

/-- Items are sound, one behind the other, each behind the word that was looked for. -/
theorem sound_many {literal : String} {Q : α → Prop} {item : Reliance → Offset → Parser α}
    (hitem : ∀ mark, Sound Q fun reliance => item reliance mark) (budget : Nat) :
    Sound (fun list => ∀ a ∈ list, Q a) fun reliance => many literal (item reliance) budget := by
  have hnone : Sound (fun list => ∀ a ∈ list, Q a) fun _ => (pure [] : Parser (List α)) :=
    .pure fun _ h => absurd h List.not_mem_nil
  induction budget with
  | zero => exact hnone
  | succ budget ih =>
      refine sound_peek hnone fun token _ => ?_
      dsimp only
      split
      · refine soundAt_skip ((hitem token.offset).bind fun first hfirst => ?_)
        exact ih.bind fun more hmore => .pure (List.forall_mem_cons.mpr ⟨hfirst, hmore⟩)
      · exact hnone.at token

/-- A whole program is of the language, or it fails for an expectation. -/
theorem sound_program (budget : Nat) :
    Sound (fun program => Native program.exprs) fun _ => Parser.program budget := by
  refine (sound_many (sound_field · budget) budget).bind fun fields hfields => ?_
  refine (sound_many (sound_method · budget) budget).bind fun methods hmethods => ?_
  refine sound_peek (.pure ?_) fun token _ => Sound.at (.fail _) token
  intro e he
  rcases List.mem_append.mp he with he | he
  · obtain ⟨field, hfield, he⟩ := List.mem_flatMap.mp he
    exact hfields field hfield e he
  · obtain ⟨method, hmethod, he⟩ := List.mem_flatMap.mp he
    exact hmethods method hmethod e he

/-- On the tokens of a text, whose numbers are not too long, the alarm is not
raised: the exacting parser answers with the same tree or the same error. -/
theorem exacting_parse_eq (alarm : Obstacle) {tokens : List Token} (hlexed : Lexed tokens) :
    @parse (.exacting alarm) tokens = parse tokens := by
  have hsame := (sound_program (tokens.length + 1) tokens hlexed).exact alarm
  unfold parse StateT.run
  rw [hsame]

/-- A tree has expressions of the language only, and an error is an expectation that is
not met. -/
theorem parse_expected {tokens : List Token} (hlexed : Lexed tokens) :
    (∀ program, parse tokens = .ok program → Native program.exprs)
      ∧ ∀ e token, parse tokens = .error e → e ≠ .malformedNumber token := by
  have hexpected := (sound_program (tokens.length + 1) tokens hlexed).expected
  unfold parse StateT.run
  generalize Parser.program (tokens.length + 1) tokens = outcome at hexpected
  cases hexpected with
  | answer hprogram hrest =>
      constructor
      · intro program h
        obtain rfl := Except.ok.inj h
        exact hprogram
      · intro e token h
        cases h
  | unmet what rest =>
      constructor
      · intro program h
        cases h
      · intro e token h hnumber
        obtain rfl := Except.error.inj h
        cases rest <;> cases hnumber

end Proofs

end PlcLang
