import PlcLang.Proofs.Grammar.Derivation
import PlcLang.Proofs.Grammar.Words
import PlcLang.Proofs.Lexical.Values
import PlcLang.Syntax.Parser

/-!
# `PlcLang.Proofs.Grammar.Soundness`: what the parser reads is derived

`Reads p Q` says of a parser `p` that whenever it succeeds on tokens of the
lexer, the tokens that it takes off the front and the result that it gives
satisfy `Q`, and these tokens are readable. The lemmas follow the parser
function by function, each with the relation of the grammar that the function
is named for, up to `derives_of_program`: the tokens that make a program derive
it, and none is left.

Budgets are arbitrary here. A parser whose budget is used up stops, or leaves
the rest to its caller, and neither makes an underivable tree.
-/

set_option autoImplicit false

namespace PlcLang.Proofs

open PlcLang.Parser

/-- Whenever `p` succeeds on genuine tokens, what it takes is readable, and what
it takes and what it answers satisfy `Q`. -/
def Reads {α : Type} (p : Parser α) (Q : List Token → α → Prop) : Prop :=
  ∀ tokens a rest, Genuine tokens → p tokens = .ok (a, rest) →
    ∃ used, tokens = used ++ rest ∧ Readable used ∧ Q used a

variable {α β : Type}

/-! ### Combinators -/

/-- A sequence of two parsers answers when both do: the second one goes on where the
first one has stopped, with what it has answered. -/
theorem bind_eq_ok {p : Parser α} {f : α → Parser β} {tokens rest : List Token} {b : β} :
    (p >>= f) tokens = .ok (b, rest)
      ↔ ∃ a middle, p tokens = .ok (a, middle) ∧ f a middle = .ok (b, rest) := by
  show (p tokens >>= fun answer => f answer.1 answer.2) = _ ↔ _
  cases p tokens with
  | error e => simp [bind, Except.bind]
  | ok answer =>
      obtain ⟨a, middle⟩ := answer
      constructor
      · exact fun h => ⟨a, middle, rfl, h⟩
      · rintro ⟨_, _, hanswer, h⟩
        cases hanswer
        exact h

/-- What a parser reads has whatever follows from `Q`. -/
theorem Reads.mono {p : Parser α} {Q R : List Token → α → Prop} (h : Reads p Q)
    (hQR : ∀ used a, Q used a → R used a) : Reads p R := by
  intro tokens a rest hgenuine hp
  obtain ⟨used, rfl, hread, hQ⟩ := h tokens a rest hgenuine hp
  exact ⟨used, rfl, hread, hQR used a hQ⟩

/-- A parser that answers at once has taken nothing, so `Q` must hold of no tokens. -/
theorem Reads.pure {a : α} {Q : List Token → α → Prop} (h : Q [] a) :
    Reads (pure a) Q := by
  intro tokens b rest _ hp
  obtain ⟨rfl, rfl⟩ : a = b ∧ tokens = rest := by
    simpa using (Except.ok.inj hp : (a, tokens) = (b, rest))
  exact ⟨[], rfl, readable_nil, h⟩

/-- A sequence takes what its two parts take, one behind the other. The second part
may rely on what is known of the tokens and the answer of the first one. -/
theorem Reads.bind {p : Parser α} {f : α → Parser β} {P : List Token → α → Prop}
    {Q : List Token → β → Prop} (hp : Reads p P)
    (hf : ∀ a first, P first a → Reads (f a) fun second b => Q (first ++ second) b) :
    Reads (p >>= f) Q := by
  intro tokens b rest hgenuine h
  obtain ⟨a, middle, ha, hb⟩ := bind_eq_ok.mp h
  obtain ⟨first, rfl, hfirst, hP⟩ := hp tokens a middle hgenuine ha
  obtain ⟨second, rfl, hsecond, hQ⟩ := hf a first hP middle b rest hgenuine.right hb
  exact ⟨first ++ second, by rw [List.append_assoc], hfirst.append hsecond, hQ⟩

/-- Changing the answer takes no tokens. -/
theorem Reads.map {p : Parser α} {f : α → β} {P : List Token → α → Prop}
    {Q : List Token → β → Prop} (hp : Reads p P) (hf : ∀ used a, P used a → Q used (f a)) :
    Reads (f <$> p) Q := by
  have hmap : f <$> p = p >>= fun a => Pure.pure (f a) := rfl
  rw [hmap]
  exact hp.bind fun a first ha => .pure (by simpa using hf first a ha)

/-! ### Single tokens -/

/-- A parser that always fails reads anything, since it never succeeds. -/
theorem reads_fail {expected : Expectation} {Q : List Token → α → Prop} :
    Reads (fail expected : Parser α) Q := by
  intro tokens a rest _ h
  simp [fail] at h

/-- A word that is expected is the one token that is taken. Words and signs have no
digits, so the token is readable. -/
theorem reads_expect {literal role : String}
    (hdigit : literal.toList.any Text.isDigit = false) :
    Reads (expect literal role) fun used _ =>
      ∃ token, used = [token] ∧ token.literal = literal := by
  intro tokens a rest hgenuine h
  cases tokens with
  | nil => simp at h
  | cons token more =>
      rw [expect_cons] at h
      split at h
      · next hliteral =>
          obtain rfl : more = rest := by simpa using h
          have hread := readable_of_word (hgenuine token (by simp)) (by rwa [hliteral])
          exact ⟨[token], rfl, hread, token, rfl, hliteral⟩
      · simp at h

/-- A name that is expected is the one token that is taken, and its text is the
answer. -/
theorem reads_expectName {expected : Expectation} :
    Reads (expectName expected) fun used name =>
      ∃ token, used = [token] ∧ token.isName = true ∧ name = token.literal := by
  intro tokens a rest hgenuine h
  cases tokens with
  | nil => simp at h
  | cons token more =>
      rw [expectName_cons] at h
      split at h
      · next hname =>
          obtain ⟨rfl, rfl⟩ : token.literal = a ∧ more = rest := by simpa using h
          have hread := readable_singleton (hgenuine token (by simp)) fun hkind => by
            rw [(isName_iff.mp hname).1] at hkind
            exact absurd hkind (by decide)
          exact ⟨[token], rfl, hread, token, rfl, hname, rfl⟩
      · simp at h

/-- A word that is accepted is the one token that is taken. Where it is not there,
nothing is taken. -/
theorem reads_accept {literal : String} (hdigit : literal.toList.any Text.isDigit = false) :
    Reads (accept literal) fun used accepted =>
      if accepted then ∃ token, used = [token] ∧ token.literal = literal else used = [] := by
  intro tokens a rest hgenuine h
  cases tokens with
  | nil =>
      obtain ⟨rfl, rfl⟩ : false = a ∧ [] = rest := by simpa using h
      exact ⟨[], rfl, readable_nil, by simp⟩
  | cons token more =>
      rw [accept_cons] at h
      split at h
      · next hliteral =>
          obtain ⟨rfl, rfl⟩ : true = a ∧ more = rest := by simpa using h
          have hread := readable_of_word (hgenuine token (by simp)) (by rwa [hliteral])
          exact ⟨[token], rfl, hread, by simp [hliteral]⟩
      · obtain ⟨rfl, rfl⟩ : false = a ∧ token :: more = rest := by simpa using h
        exact ⟨[], rfl, readable_nil, by simp⟩

/-- Looking for one of some words takes none of them, whether one is there or not. -/
theorem reads_atAny {literals : List String} :
    Reads (atAny literals) fun used _ => used = [] := by
  intro tokens a rest _ h
  obtain rfl : tokens = rest := by
    cases tokens with
    | nil => simpa [atAny] using (Prod.ext_iff.mp (Except.ok.inj h)).2
    | cons token more => exact (Prod.ext_iff.mp (Except.ok.inj h)).2
  exact ⟨[], rfl, readable_nil, rfl⟩

/-- The operator of a text is written with that text. A text that no operator is
known by has an operator of its own, so this holds of all texts. -/
theorem symbol_ofSymbol (text : String) : (BinaryOp.ofSymbol text).symbol = text := by
  unfold BinaryOp.ofSymbol
  split <;> rfl

/-- No operator of the grammar is written with digits. So its token is no decimal
and is readable. -/
theorem isDigit_symbol {op : BinaryOp} {precedence : Precedence}
    (h : op.precedence? = some precedence) :
    op.symbol.toList.any Text.isDigit = false := by
  -- Any text is an operator of kind `other`, digits included, but such an
  -- operator has no precedence.
  cases op with
  | other => simp [BinaryOp.precedence?] at h
  | _ => decide

/-- An operator that is accepted is the one token that is taken, and it has the
precedence that was asked for. Where there is none, nothing is taken. -/
theorem reads_acceptOperator {precedence : Precedence} :
    Reads (acceptOperator precedence) fun used op? =>
      match op? with
      | some op => ∃ token, used = [token] ∧ IsOperator precedence token op
      | none => used = [] := by
  intro tokens a rest hgenuine h
  cases tokens with
  | nil =>
      obtain ⟨rfl, rfl⟩ : none = a ∧ [] = rest := by simpa using h
      exact ⟨[], rfl, readable_nil, rfl⟩
  | cons token more =>
      rw [acceptOperator_cons] at h
      split at h
      · next hprecedence =>
          obtain ⟨rfl, rfl⟩ : some (BinaryOp.ofSymbol token.literal) = a ∧ more = rest := by
            simpa using h
          have hsymbol := symbol_ofSymbol token.literal
          have hdigit := isDigit_symbol hprecedence
          rw [hsymbol] at hdigit
          exact ⟨[token], rfl, readable_of_word (hgenuine token (by simp)) hdigit, token, rfl,
            hsymbol.symm, hprecedence⟩
      · obtain ⟨rfl, rfl⟩ : none = a ∧ token :: more = rest := by simpa using h
        exact ⟨[], rfl, readable_nil, rfl⟩

/-! ### The token in front -/

/-- `Reads` for the lists that begin with `token`. The parser decides by the token
in front, and takes it only afterwards. -/
def ReadsAt (token : Token) (p : Parser α) (Q : List Token → α → Prop) : Prop :=
  ∀ more a rest, Genuine (token :: more) → p (token :: more) = .ok (a, rest) →
    ∃ used, token :: more = used ++ rest ∧ Readable used ∧ Q used a

/-- What holds of all lists holds of those that begin with one token. -/
theorem Reads.at {p : Parser α} {Q : List Token → α → Prop} (h : Reads p Q) (token : Token) :
    ReadsAt token p Q :=
  fun more a rest hgenuine hp => h (token :: more) a rest hgenuine hp

/-- Looking at the next token takes none. It is enough to go through both cases: no
token is left, or one stands in front and is of the class of its kind. -/
theorem reads_peek {f : Option Token → Parser α} {Q : List Token → α → Prop}
    (hnone : Reads (f none) Q)
    (hsome : ∀ token, TokenClass token.kind token.literal.toList →
      ReadsAt token (f (some token)) Q) :
    Reads (peek >>= f) Q := by
  intro tokens a rest hgenuine h
  obtain ⟨front, middle, hpeek, h⟩ := bind_eq_ok.mp h
  obtain ⟨rfl, rfl⟩ : tokens.head? = front ∧ tokens = middle := by simpa [peek] using hpeek
  cases tokens with
  | nil => exact hnone [] a rest hgenuine h
  | cons token more => exact hsome token (hgenuine token (by simp)) more a rest hgenuine h

/-- Dropping the token in front takes it. It must be readable, which only decimals
may fail to be. -/
theorem readsAt_skip {token : Token} {p : Parser α} {Q : List Token → α → Prop}
    (hdecimal : token.kind = .decimal → (Decimal.read? token.literal).isSome = true)
    (h : Reads p fun used a => Q (token :: used) a) : ReadsAt token (skip >>= fun _ => p) Q := by
  intro more a rest hgenuine hp
  obtain ⟨_, middle, hskip, hp⟩ := bind_eq_ok.mp hp
  obtain rfl : more = middle := by simpa [skip_cons] using hskip
  obtain ⟨used, rfl, hused, hQ⟩ := h more a rest (fun t ht => hgenuine t (by simp [ht])) hp
  have hread := readable_singleton (hgenuine token (by simp)) hdecimal
  exact ⟨token :: used, rfl, hread.append hused, hQ⟩

/-- A parser that drops the token in front and throws reads anything, since it never
succeeds. -/
theorem readsAt_skip_throw {token : Token} {obstacle : Obstacle} {Q : List Token → α → Prop} :
    ReadsAt token (skip >>= fun _ => (throw obstacle : Parser α)) Q := by
  intro more a rest _ hp
  obtain ⟨_, middle, _, hp⟩ := bind_eq_ok.mp hp
  cases hp

/-- Dropping a word in front takes it. Words have no digits, so it is readable. -/
theorem readsAt_skipWord {token : Token} {literal : String} {p : Parser α}
    {Q : List Token → α → Prop} (hliteral : token.literal = literal)
    (hdigit : literal.toList.any Text.isDigit = false)
    (h : Reads p fun used a => Q (token :: used) a) : ReadsAt token (skip >>= fun _ => p) Q := by
  intro more a rest hgenuine
  have hkind := kind_ne_decimal (hgenuine token (by simp)) (by rwa [hliteral])
  exact readsAt_skip (fun hdecimal => absurd hdecimal hkind) h more a rest hgenuine

/-! ### Expressions -/

section Expressions

variable {expression : Parser (Expr Offset)}
  (hexpression : Reads expression fun used e => DerivesExpr anyLevel used e.bare)

/-- More operands behind a left one that has been read already. By induction on the
budget, each time round with a longer left operand. -/
theorem reads_chain {precedence : Precedence} {operand : Parser (Expr Offset)}
    (hoperand : Reads operand fun used e => DerivesExpr (operandLevel precedence) used e.bare)
    (budget : Nat) {first : List Token} {left : Expr Offset}
    (hleft : DerivesExpr (.operators precedence) first left.bare) :
    Reads (chain precedence operand budget left) fun used e =>
      DerivesExpr (.operators precedence) (first ++ used) e.bare := by
  -- Both the tokens read so far and the operand on the left grow, so they are
  -- general; a budget used up leaves the rest to the caller.
  induction budget generalizing first left with
  | zero => exact .pure (by simpa using hleft)
  | succ budget ih =>
      refine reads_acceptOperator.bind fun op? used hop => ?_
      cases op? with
      | none =>
          subst hop
          exact .pure (by simpa using hleft)
      | some op =>
          obtain ⟨token, rfl, hop⟩ := hop
          refine hoperand.bind fun right second hright => ?_
          -- What is read becomes the left operand of what follows, which is why
          -- operators of one precedence group to the left.
          refine (ih (.binary hleft hop hright)).mono fun used e h => ?_
          simpa using h

/-- Operands with operators of one precedence between them: the first one, and the
chain behind it. -/
theorem reads_operands (precedence : Precedence) {operand : Parser (Expr Offset)}
    (hoperand : Reads operand fun used e => DerivesExpr (operandLevel precedence) used e.bare)
    (budget : Nat) :
    Reads (operands precedence budget operand) fun used e =>
      DerivesExpr (.operators precedence) used e.bare :=
  hoperand.bind fun _ _ hleft => reads_chain hoperand budget (.operand hleft)

include hexpression

/-- A list of arguments that has begun takes a series of expressions and the
parenthesis that closes it. -/
theorem reads_moreArguments (budget : Nat) :
    Reads (moreArguments expression budget) fun used arguments =>
      ∃ tokens paren, used = tokens ++ [paren] ∧ paren.literal = ")"
        ∧ DerivesSeries tokens (arguments.map Expr.bare) := by
  induction budget with
  | zero => exact reads_fail
  | succ budget ih =>
      refine hexpression.bind fun e first he => ?_
      refine (reads_accept (by decide)).bind fun accepted second h => ?_
      cases accepted with
      | true =>
          obtain ⟨comma, rfl, hcomma⟩ := h
          refine ih.bind fun more third h => .pure ?_
          obtain ⟨tokens, paren, rfl, hparen, hmore⟩ := h
          exact ⟨first ++ comma :: tokens, paren, by simp, hparen, .more he hcomma hmore⟩
      | false =>
          obtain rfl : second = [] := h
          refine (reads_expect (by decide)).bind fun _ third h => .pure ?_
          obtain ⟨paren, rfl, hparen⟩ := h
          exact ⟨first, paren, by simp, hparen, .one he⟩

/-- Arguments behind their opening parenthesis, which may be none. -/
theorem reads_arguments (budget : Nat) :
    Reads (arguments expression budget) fun used arguments =>
      DerivesArguments used (arguments.map Expr.bare) := by
  refine (reads_accept (by decide)).bind fun accepted first h => ?_
  cases accepted with
  | true =>
      obtain ⟨paren, rfl, hparen⟩ := h
      exact .pure (.none hparen)
  | false =>
      obtain rfl : first = [] := h
      refine (reads_moreArguments hexpression budget).mono fun used arguments h => ?_
      obtain ⟨tokens, paren, rfl, hparen, hseries⟩ := h
      exact .some hseries hparen

/-- A word where an expression begins: a constant, a name or a call of a method of
the program. -/
theorem readsAt_word (budget : Nat) {token : Token} :
    ReadsAt token (word expression budget token) fun used e =>
      DerivesExpr .primary used e.bare := by
  unfold word
  rw [present_bind]
  split
  · next h => exact readsAt_skipWord h (by decide) (.pure (.nil h))
  · next h => exact readsAt_skipWord h (by decide) (.pure (@DerivesExpr.boolean _ true h))
  · next h => exact readsAt_skipWord h (by decide) (.pure (@DerivesExpr.boolean _ false h))
  -- A name is a call if a parenthesis follows it, and a variable if none does.
  · refine (Reads.bind reads_expectName fun name first hname => ?_).at token
    obtain ⟨token', rfl, hname, rfl⟩ := hname
    refine (reads_accept (by decide)).bind fun accepted second h => ?_
    cases accepted with
    | true =>
        obtain ⟨paren, rfl, hparen⟩ := h
        refine (reads_arguments hexpression budget).bind fun arguments third h => .pure ?_
        simpa using DerivesExpr.call hname hparen h
    | false =>
        obtain rfl : second = [] := h
        exact .pure (.var hname)

/-- An expression without operators and member accesses: a literal, a word, or an
expression in parentheses. -/
theorem reads_primary (budget : Nat) :
    Reads (primary expression budget) fun used e => DerivesExpr .primary used e.bare := by
  refine reads_peek reads_fail fun token hclass => ?_
  -- The kind of a token says which class its text belongs to, and the class
  -- which value it stands for. The readers of values answer with that value.
  cases hkind : token.kind with
  | integer =>
      rw [hkind] at hclass
      obtain ⟨value, hvalue⟩ : ∃ value, IntegerText token.literal.toList value := by
        cases hclass with
        | integer h => exact ⟨_, h⟩
      simp only [hkind, readInteger?_eq_some hvalue]
      exact readsAt_skip (by simp [hkind]) (.pure (.integer hkind hvalue))
  | decimal =>
      rw [hkind] at hclass
      obtain ⟨value, hvalue⟩ : ∃ value, DecimalText token.literal.toList value := by
        cases hclass with
        | decimal h => exact ⟨_, h⟩
      have hread := read?_eq hvalue
      simp only [hkind, hread]
      -- A decimal out of reach is an error of its own, so nothing is read.
      cases hreach : value.inReach with
      | true =>
          rw [hreach] at hread
          exact readsAt_skip (fun _ => by simp [hread]) (.pure (.decimal hkind hvalue))
      | false => exact readsAt_skip_throw
  | character =>
      rw [hkind] at hclass
      obtain ⟨c, htext⟩ : ∃ c, QuotedText '\'' token.literal.toList [c] := by
        cases hclass with
        | character h => exact ⟨_, h⟩
      simp only [hkind, literalBody_eq htext]
      exact readsAt_skip (by simp [hkind]) (.pure (.character hkind htext))
  | string =>
      rw [hkind] at hclass
      obtain ⟨text, htext⟩ : ∃ text, QuotedText '"' token.literal.toList text := by
        cases hclass with
        | string h => exact ⟨_, h⟩
      simp only [hkind, literalBody_eq htext]
      exact readsAt_skip (by simp [hkind]) (.pure (.string hkind htext))
  | identifier =>
      simp only [hkind]
      exact readsAt_word hexpression budget
  | operator =>
      simp only [hkind]
      refine (Reads.bind (reads_accept (by decide)) fun accepted first h => ?_).at token
      cases accepted with
      | false => exact reads_fail
      | true =>
          obtain ⟨left, rfl, hleft⟩ := h
          refine hexpression.bind fun inner second hinner => ?_
          refine (reads_expect (by decide)).bind fun _ third h => ?_
          obtain ⟨right, rfl, hright⟩ := h
          refine .pure ?_
          simpa using DerivesExpr.group hleft hinner hright

/-- Member accesses behind a receiver that has been read already. By induction on
the budget, each time round with a longer receiver. -/
theorem reads_members (budget : Nat) {first : List Token} {receiver : Expr Offset}
    (hreceiver : DerivesExpr .members first receiver.bare) :
    Reads (members expression budget receiver) fun used e =>
      DerivesExpr .members (first ++ used) e.bare := by
  induction budget generalizing first receiver with
  | zero => exact .pure (by simpa using hreceiver)
  | succ budget ih =>
      refine (reads_accept (by decide)).bind fun accepted second h => ?_
      cases accepted with
      | false =>
          obtain rfl : second = [] := h
          exact .pure (by simpa using hreceiver)
      | true =>
          obtain ⟨point, rfl, hpoint⟩ := h
          refine reads_expectName.bind fun name third hname => ?_
          obtain ⟨nameToken, rfl, hname, rfl⟩ := hname
          refine (reads_accept (by decide)).bind fun accepted fourth h => ?_
          cases accepted with
          | false =>
              obtain rfl : fourth = [] := h
              refine (ih (.field hreceiver hpoint hname)).mono fun used e h => ?_
              simpa using h
          | true =>
              obtain ⟨paren, rfl, hparen⟩ := h
              refine (reads_arguments hexpression budget).bind fun arguments fifth h => ?_
              have hcall := DerivesExpr.methodCall hreceiver hpoint hname hparen h
              rw [← Expr.bare_methodCall] at hcall
              refine (ih hcall).mono fun used e h => ?_
              simpa using h

/-- An expression without operators: its first part and the member accesses behind
it. -/
theorem reads_postfixChain (budget : Nat) :
    Reads (postfixChain expression budget) fun used e => DerivesExpr .members used e.bare :=
  (reads_primary hexpression budget).bind fun _ _ h => reads_members hexpression budget (.simple h)

end Expressions

/-- The parser of expressions reads expressions of any level. By induction on the
budget, for the expressions in parentheses and in arguments. -/
theorem reads_expression (budget : Nat) :
    Reads (expression budget) fun used e => DerivesExpr anyLevel used e.bare := by
  induction budget with
  | zero => exact reads_fail
  | succ budget ih =>
      -- The four precedences stand one on the other, the tightest below, and
      -- arguments and groups go back to the top with a smaller budget.
      have hmembers := reads_postfixChain ih (budget + 1)
      have hmultiplicative := reads_operands .multiplicative hmembers (budget + 1)
      have hadditive := reads_operands .additive hmultiplicative (budget + 1)
      have hcomparison := reads_operands .comparison hadditive (budget + 1)
      exact reads_operands .logical hcomparison (budget + 1)

/-! ### Statements -/

section Optional

variable {Q : List Token → β → Prop}

/-- An optional name behind a colon, and what comes after it. It is stated with what
comes after it, since that is how declarations and methods use it. -/
theorem reads_typeName {expected : Expectation} {f : Option String → Parser β}
    (hf : ∀ typeName first, DerivesTypeName first typeName →
      Reads (f typeName) fun second b => Q (first ++ second) b) :
    Reads (do
      let typeName ← if ← accept ":" then some <$> expectName expected else pure none
      f typeName) Q := by
  refine (reads_accept (by decide)).bind fun accepted first h => ?_
  cases accepted with
  | false =>
      obtain rfl : first = [] := h
      exact hf none [] .absent
  | true =>
      obtain ⟨colon, rfl, hcolon⟩ := h
      refine (reads_expectName.map (Q := fun used name => DerivesTypeName (colon :: used) name)
        fun used name h => ?_).bind fun typeName second h => ?_
      · obtain ⟨token, rfl, hname, rfl⟩ := h
        exact .present hcolon hname
      · simpa using hf typeName (colon :: second) h

/-- An optional first value behind an equals sign, and what comes after it. -/
theorem reads_value (budget : Nat) {f : Option (Expr Offset) → Parser β}
    (hf : ∀ value first, DerivesValue first (value.map Expr.bare) →
      Reads (f value) fun second b => Q (first ++ second) b) :
    Reads (do
      let value ← if ← accept "=" then some <$> expression budget else pure none
      f value) Q := by
  refine (reads_accept (by decide)).bind fun accepted first h => ?_
  cases accepted with
  | false =>
      obtain rfl : first = [] := h
      exact hf none [] .absent
  | true =>
      obtain ⟨equals, rfl, hequals⟩ := h
      refine ((reads_expression budget).map
        (Q := fun used value => DerivesValue (equals :: used) (value.map Expr.bare))
        fun used e he => .present hequals he).bind fun value second h => ?_
      simpa using hf value (equals :: second) h

end Optional

/-- A declaration: a name, an optional type and an optional first value. -/
theorem reads_declaration (budget : Nat) :
    Reads (declaration budget) fun used d => DerivesDeclaration used d.bare := by
  refine reads_expectName.bind fun name first hname => ?_
  obtain ⟨token, rfl, hname, rfl⟩ := hname
  refine reads_typeName fun typeName second htype => ?_
  refine reads_value budget fun value third hvalue => .pure ?_
  simpa using DerivesDeclaration.mk hname htype hvalue

/-- Statements up to a terminator, which is not taken. By induction on the budget of
the loop. -/
theorem reads_block {statement : Parser (Stmt Offset)}
    (hstatement : Reads statement fun used s => DerivesStmt used s.bare)
    (terminators : List String) (budget : Nat) :
    Reads (block terminators statement budget) fun used body =>
      DerivesBlock used (body.map Stmt.bare) := by
  induction budget with
  | zero => exact reads_fail
  | succ budget ih =>
      refine reads_atAny.bind fun found first h => ?_
      subst h
      cases found with
      | true => exact .pure .nil
      | false =>
          refine reads_peek reads_fail fun token _ => Reads.at ?_ token
          refine hstatement.bind fun s second hs => ih.bind fun more third hmore => .pure ?_
          simpa using DerivesBlock.cons hs hmore

section Statements

variable {statement : Parser (Stmt Offset)}
  (hstatement : Reads statement fun used s => DerivesStmt used s.bare)

include hstatement

/-- The second branch of a conditional, and what comes after it. A conditional
without the word has an empty one. -/
theorem reads_else (budget : Nat) {Q : List Token → β → Prop}
    {f : List (Stmt Offset) → Parser β}
    (hf : ∀ body first, DerivesElse first (body.map Stmt.bare) →
      Reads (f body) fun second b => Q (first ++ second) b) :
    Reads (do
      let body ← if ← accept "ELSE" then block ["END"] statement budget else pure []
      f body) Q := by
  refine (reads_accept (by decide)).bind fun accepted first h => ?_
  cases accepted with
  | false =>
      obtain rfl : first = [] := h
      exact hf [] [] .absent
  | true =>
      obtain ⟨word, rfl, hword⟩ := h
      refine (reads_block hstatement _ budget).bind fun body second h => ?_
      simpa using hf body (word :: second) (.present hword h)

/-- A conditional behind its first word, which the caller has taken. -/
theorem reads_conditional (mark : Offset) (budget : Nat) {token : Token}
    (htoken : token.literal = "IF") :
    Reads (conditional mark statement budget) fun used s =>
      DerivesStmt (token :: used) s.bare := by
  refine (reads_expression budget).bind fun condition first hcondition => ?_
  refine (reads_expect (by decide)).bind fun _ second h => ?_
  obtain ⟨opening, rfl, hopening⟩ := h
  refine (reads_block hstatement _ budget).bind fun thenBody third hthen => ?_
  refine reads_else hstatement budget fun elseBody fourth helse => ?_
  refine (reads_expect (by decide)).bind fun _ fifth h => .pure ?_
  obtain ⟨last, rfl, hlast⟩ := h
  simpa using DerivesStmt.cond htoken hcondition hopening hthen helse hlast

/-- A loop over a sequence behind its first word, which the caller has taken. -/
theorem reads_forLoop (mark : Offset) (budget : Nat) {token : Token}
    (htoken : token.literal = "FOR") :
    Reads (forLoop mark statement budget) fun used s => DerivesStmt (token :: used) s.bare := by
  refine reads_expectName.bind fun name first hname => ?_
  obtain ⟨nameToken, rfl, hname, rfl⟩ := hname
  refine (reads_expect (by decide)).bind fun _ second h => ?_
  obtain ⟨between, rfl, hbetween⟩ := h
  refine (reads_expression budget).bind fun value third hvalue => ?_
  refine (reads_expect (by decide)).bind fun _ fourth h => ?_
  obtain ⟨opening, rfl, hopening⟩ := h
  refine (reads_block hstatement _ budget).bind fun body fifth hbody => ?_
  refine (reads_expect (by decide)).bind fun _ sixth h => .pure ?_
  obtain ⟨last, rfl, hlast⟩ := h
  simpa using DerivesStmt.forIn htoken hname hbetween hvalue hopening hbody hlast

/-- A loop on a condition behind its first word, which the caller has taken. -/
theorem reads_whileLoop (mark : Offset) (budget : Nat) {token : Token}
    (htoken : token.literal = "WHILE") :
    Reads (whileLoop mark statement budget) fun used s => DerivesStmt (token :: used) s.bare := by
  refine (reads_expression budget).bind fun condition first hcondition => ?_
  refine (reads_expect (by decide)).bind fun _ second h => ?_
  obtain ⟨opening, rfl, hopening⟩ := h
  refine (reads_block hstatement _ budget).bind fun body third hbody => ?_
  refine (reads_expect (by decide)).bind fun _ fourth h => .pure ?_
  obtain ⟨last, rfl, hlast⟩ := h
  simpa using DerivesStmt.whileDo htoken hcondition hopening hbody hlast

end Statements

/-- A statement that begins with an expression: an assignment to a name or a field,
or a call. -/
theorem reads_expressionStatement (mark : Offset) (budget : Nat) :
    Reads (expressionStatement mark budget) fun used s => DerivesStmt used s.bare := by
  refine (reads_expression budget).bind fun target first htarget => ?_
  refine (reads_accept (by decide)).bind fun accepted second h => ?_
  cases accepted with
  | true =>
      obtain ⟨equals, rfl, hequals⟩ := h
      refine (reads_expression budget).bind fun value third hvalue => ?_
      refine (reads_expect (by decide)).bind fun _ fourth h => .pure ?_
      obtain ⟨last, rfl, hlast⟩ := h
      simpa using DerivesStmt.assign htarget hequals hvalue hlast
  | false =>
      obtain rfl : second = [] := h
      refine (reads_expect (by decide)).bind fun _ third h => .pure ?_
      obtain ⟨last, rfl, hlast⟩ := h
      simpa using DerivesStmt.expression htarget hlast

/-- The parser of statements reads statements. By induction on the budget, for the
statements in bodies; the first word decides which one it is. -/
theorem reads_statement (budget : Nat) :
    Reads (statement budget) fun used s => DerivesStmt used s.bare := by
  induction budget with
  | zero => exact reads_fail
  | succ budget ih =>
      -- The first word decides; a statement that begins with none of these words
      -- is an expression or an assignment.
      refine reads_peek reads_fail fun token _ => ?_
      dsimp only
      split
      · next htoken =>
          refine readsAt_skipWord htoken (by decide) ?_
          refine (reads_declaration _).bind fun d first hd => ?_
          refine (reads_expect (by decide)).bind fun _ second h => .pure ?_
          obtain ⟨last, rfl, hlast⟩ := h
          simpa using DerivesStmt.declare htoken hd hlast
      · next htoken =>
          exact readsAt_skipWord htoken (by decide) (reads_conditional ih _ _ htoken)
      · next htoken =>
          exact readsAt_skipWord htoken (by decide) (reads_forLoop ih _ _ htoken)
      · next htoken =>
          exact readsAt_skipWord htoken (by decide) (reads_whileLoop ih _ _ htoken)
      · next htoken =>
          refine readsAt_skipWord htoken (by decide) ?_
          refine (reads_expression _).bind fun value first hvalue => ?_
          refine (reads_expect (by decide)).bind fun _ second h => .pure ?_
          obtain ⟨last, rfl, hlast⟩ := h
          simpa using DerivesStmt.result htoken hvalue hlast
      · exact (reads_expressionStatement _ _).at token

/-! ### Fields, methods and programs -/

/-- A list of parameters that has begun takes a series of them and the parenthesis
that closes it. -/
theorem reads_moreParameters (budget : Nat) :
    Reads (moreParameters budget) fun used parameters =>
      ∃ tokens paren, used = tokens ++ [paren] ∧ paren.literal = ")"
        ∧ DerivesParameterSeries tokens parameters := by
  induction budget with
  | zero => exact reads_fail
  | succ budget ih =>
      refine reads_expectName.bind fun name first hname => ?_
      obtain ⟨nameToken, rfl, hname, rfl⟩ := hname
      refine (reads_expect (by decide)).bind fun _ second h => ?_
      obtain ⟨colon, rfl, hcolon⟩ := h
      refine reads_expectName.bind fun typeName third htype => ?_
      obtain ⟨typeToken, rfl, htype, rfl⟩ := htype
      refine (reads_accept (by decide)).bind fun accepted fourth h => ?_
      cases accepted with
      | true =>
          obtain ⟨comma, rfl, hcomma⟩ := h
          refine ih.bind fun more fifth h => .pure ?_
          obtain ⟨tokens, paren, rfl, hparen, hmore⟩ := h
          exact ⟨nameToken :: colon :: typeToken :: comma :: tokens, paren, by simp, hparen,
            .more hname hcolon htype hcomma hmore⟩
      | false =>
          obtain rfl : fourth = [] := h
          refine (reads_expect (by decide)).bind fun _ fifth h => .pure ?_
          obtain ⟨paren, rfl, hparen⟩ := h
          exact ⟨[nameToken, colon, typeToken], paren, by simp, hparen, .one hname hcolon htype⟩

/-- Parameters behind their opening parenthesis, which may be none, and what comes
after them. -/
theorem reads_parameters (budget : Nat) {Q : List Token → β → Prop}
    {f : List (String × String) → Parser β}
    (hf : ∀ parameters first, DerivesParameters first parameters →
      Reads (f parameters) fun second b => Q (first ++ second) b) :
    Reads (do
      let parameters ← if ← accept ")" then pure [] else moreParameters budget
      f parameters) Q := by
  refine (reads_accept (by decide)).bind fun accepted first h => ?_
  cases accepted with
  | true =>
      obtain ⟨paren, rfl, hparen⟩ := h
      exact hf [] [paren] (.none hparen)
  | false =>
      obtain rfl : first = [] := h
      refine (reads_moreParameters budget).bind fun parameters second h => ?_
      obtain ⟨tokens, paren, rfl, hparen, hseries⟩ := h
      exact hf parameters _ (.some hseries hparen)

/-- A method behind its first word, which the caller has taken. -/
theorem reads_method (mark : Offset) (budget : Nat) {token : Token}
    (htoken : token.literal = "DEF") :
    Reads (method mark budget) fun used m => DerivesMethod (token :: used) m.bare := by
  refine reads_expectName.bind fun name first hname => ?_
  obtain ⟨nameToken, rfl, hname, rfl⟩ := hname
  refine (reads_expect (by decide)).bind fun _ second h => ?_
  obtain ⟨paren, rfl, hparen⟩ := h
  refine reads_parameters budget fun parameters third hparameters => ?_
  refine reads_typeName fun returnType fourth htype => ?_
  refine (reads_expect (by decide)).bind fun _ fifth h => ?_
  obtain ⟨opening, rfl, hopening⟩ := h
  refine (reads_block (reads_statement budget) _ budget).bind fun body sixth hbody => ?_
  refine (reads_expect (by decide)).bind fun _ seventh h => .pure ?_
  obtain ⟨last, rfl, hlast⟩ := h
  simpa using DerivesMethod.mk htoken hname hparen hparameters htype hopening hbody hlast

/-- A field behind its first word, which the caller has taken. -/
theorem reads_field (mark : Offset) (budget : Nat) {token : Token}
    (htoken : token.literal = "LET") :
    Reads (field mark budget) fun used f => DerivesField (token :: used) f.bare := by
  refine (reads_declaration budget).bind fun d first hd => ?_
  refine (reads_expect (by decide)).bind fun _ second h => .pure ?_
  obtain ⟨last, rfl, hlast⟩ := h
  simpa using DerivesField.mk htoken hd hlast

/-- Where the word is there, one more item is read, marked with the offset of the
word. -/
theorem many_of_eq {literal : String} {item : Offset → Parser α} {token : Token}
    (h : token.literal = literal) (budget : Nat) (rest : List Token) :
    many literal item (budget + 1) (token :: rest)
      = ((skip >>= fun _ => item token.offset) >>= fun first => do
          let more ← many literal item budget
          pure (first :: more)) (token :: rest) := by
  show (if token.literal = literal then _ else _ : Parser (List α)) (token :: rest) = _
  rw [if_pos h]
  rfl

/-- Where another word is there, no item is read, and nothing is taken. -/
theorem many_of_ne {literal : String} {item : Offset → Parser α} {token : Token}
    (h : token.literal ≠ literal) (budget : Nat) (rest : List Token) :
    many literal item (budget + 1) (token :: rest) = .ok ([], token :: rest) := by
  show (if token.literal = literal then _ else _ : Parser (List α)) (token :: rest) = _
  rw [if_neg h]
  rfl

/-- All items that begin with one word, one behind the other. Fields and methods are
read in this way. -/
theorem reads_many {literal : String} {item : Offset → Parser α} {bare : α → β}
    {R : List Token → β → Prop} (hdigit : literal.toList.any Text.isDigit = false)
    (hitem : ∀ token : Token, token.literal = literal →
      Reads (item token.offset) fun used a => R (token :: used) (bare a)) (budget : Nat) :
    Reads (many literal item budget) fun used list => DerivesAll R used (list.map bare) := by
  induction budget with
  | zero => exact .pure .nil
  | succ budget ih =>
      refine reads_peek (.pure .nil) fun token _ => ?_
      dsimp only
      split
      · next htoken =>
          refine readsAt_skipWord htoken hdigit ((hitem token htoken).bind fun a first ha => ih.bind
            fun more second hmore => .pure ?_)
          simpa using DerivesAll.cons ha hmore
      · exact (Reads.pure .nil).at token

/-- Whenever the parser makes a program of genuine tokens, they derive it, all of
them are read, and all of them are readable. -/
theorem derives_of_program {budget : Nat} {tokens rest : List Token} {program : Program Offset}
    (hgenuine : Genuine tokens) (h : Parser.program budget tokens = .ok (program, rest)) :
    rest = [] ∧ Readable tokens ∧ Derives tokens program.bare := by
  have hfield : Reads (many "LET" (field · budget) budget) fun used list =>
      DerivesAll DerivesField used (list.map Field.bare) :=
    reads_many (by decide) (fun token htoken => reads_field _ budget htoken) budget
  have hmethod : Reads (many "DEF" (method · budget) budget) fun used list =>
      DerivesAll DerivesMethod used (list.map Method.bare) :=
    reads_many (by decide) (fun token htoken => reads_method _ budget htoken) budget
  -- The fields come first and the methods behind them, and the parser fails
  -- if a token is left then.
  obtain ⟨fields, middle, hfields, hbehind⟩ := bind_eq_ok.mp h
  obtain ⟨methods, last, hmethods, hlast⟩ := bind_eq_ok.mp hbehind
  obtain ⟨fieldTokens, rfl, hfieldsRead, hf⟩ := hfield _ _ _ hgenuine hfields
  obtain ⟨methodTokens, rfl, hmethodsRead, hm⟩ := hmethod _ _ _ hgenuine.right hmethods
  cases last with
  | nil =>
      obtain ⟨rfl, rfl⟩ : Program.mk fields methods = program ∧ [] = rest := by
        simpa using (Except.ok.inj hlast : (Program.mk fields methods, []) = (program, rest))
      rw [List.append_nil]
      exact ⟨rfl, hfieldsRead.append hmethodsRead, by simpa using Derives.mk hf hm⟩
  | cons token more => cases hlast

end PlcLang.Proofs
