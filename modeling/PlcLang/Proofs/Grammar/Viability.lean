import PlcLang.Proofs.Grammar.Lookahead

/-!
# `PlcLang.Proofs.Grammar.Viability`: what a failing parser has taken

A parser that fails on an expectation has not gone astray before: the tokens
that it took can be completed. `Completable Q used` says that some readable
tokens behind `used` make up something with `Q`, and `Viable p Q` that this
holds of whatever `p` has taken when it fails. `Q` is the relation of the
grammar that the function is named for, as in `Reads`, and the lemmas follow
the parser in the same order.

In a sequence the parts that come later must be possible at all, or the first
part could not be completed. So `Viable p Q` also says that something has `Q`.
Budgets are arbitrary again: a parser whose budget is used up fails where it
stands.
-/

set_option autoImplicit false

namespace PlcLang.Proofs

open PlcLang.Parser

variable {α β : Type}

/-! ### Completions -/

/-- Behind the tokens there can be more, so that all of them together have `Q` with
some answer. -/
def Completable (Q : List Token → α → Prop) (used : List Token) : Prop :=
  ∃ more a, Readable more ∧ Q (used ++ more) a

/-- When `p` fails on genuine tokens, those that it has taken are readable and
can be completed to something with `Q`. -/
structure Viable (p : Parser α) (Q : List Token → α → Prop) : Prop where
  possible : Completable Q []
  failing : ∀ tokens what left, Genuine tokens → p tokens = .error (.expected what left) →
    ∃ used, tokens = used ++ left ∧ Readable used ∧ Completable Q used

/-- What can be completed to something with `Q` can be completed to whatever follows
from `Q`. -/
theorem Completable.mono {Q R : List Token → α → Prop} {used : List Token}
    (h : Completable Q used) (hQR : ∀ tokens a, Q tokens a → R tokens a) : Completable R used := by
  obtain ⟨more, a, hmore, hQ⟩ := h
  exact ⟨more, a, hmore, hQR _ _ hQ⟩

/-- What a failing parser has taken can be completed to whatever follows from `Q`. -/
theorem Viable.mono {p : Parser α} {Q R : List Token → α → Prop} (h : Viable p Q)
    (hQR : ∀ tokens a, Q tokens a → R tokens a) : Viable p R where
  possible := h.possible.mono hQR
  failing tokens what left hgenuine hfail := by
    obtain ⟨used, hsplit, hused, hcompletable⟩ := h.failing tokens what left hgenuine hfail
    exact ⟨used, hsplit, hused, hcompletable.mono hQR⟩

/-- A parser that can only fail where it begins has taken nothing, so something with
`Q` is all that is needed. -/
theorem viable_of_fails_at_once {p : Parser α} {Q : List Token → α → Prop}
    (possible : Completable Q [])
    (h : ∀ tokens what left, p tokens = .error (.expected what left) → tokens = left) :
    Viable p Q where
  possible := possible
  failing tokens what left _ hfail := by
    obtain rfl := h tokens what left hfail
    exact ⟨[], rfl, readable_nil, possible⟩

/-- A parser that answers at once does not fail. -/
theorem Viable.pure {a : α} {Q : List Token → α → Prop} (h : Q [] a) : Viable (pure a) Q :=
  viable_of_fails_at_once ⟨[], a, readable_nil, h⟩ fun _ _ _ hfail => nomatch hfail

/-- A parser that fails at once has taken nothing. It is viable wherever something
has `Q` at all. -/
theorem viable_fail {what : Expectation} {Q : List Token → α → Prop} (h : Completable Q []) :
    Viable (fail what : Parser α) Q :=
  viable_of_fails_at_once h fun _ _ _ hfail => by cases hfail; rfl

/-- A sequence. Where the first part fails, its tokens are completed, and behind
them the second part is possible. Where the second part fails, the first one has
read what it should. -/
theorem Viable.bind {p : Parser α} {f : α → Parser β} {P : List Token → α → Prop}
    {Q : List Token → β → Prop} (hp : Viable p P) (hreads : Reads p P)
    (hf : ∀ a first, P first a → Viable (f a) fun second b => Q (first ++ second) b) :
    Viable (p >>= f) Q := by
  -- What can be completed for the first part can be completed for both, since
  -- the second part is possible behind any first one.
  have hboth (used : List Token) (h : Completable P used) : Completable Q used := by
    obtain ⟨first, a, hfirst, hP⟩ := h
    obtain ⟨second, b, hsecond, hQ⟩ := (hf a _ hP).possible
    refine ⟨first ++ second, b, hfirst.append hsecond, ?_⟩
    simpa using hQ
  constructor
  case possible => exact hboth [] hp.possible
  case failing =>
    intro tokens what left hgenuine hfail
    have hleft : (p >>= f) tokens = leaving left (.error what) := hfail
    rcases bind_eq_leaving_iff.mp hleft with ⟨_, _, hfirst⟩ | ⟨a, middle, hanswer, hsecond⟩
    · obtain ⟨used, hsplit, hused, hcompletable⟩ := hp.failing tokens _ left hgenuine hfirst
      exact ⟨used, hsplit, hused, hboth used hcompletable⟩
    · obtain ⟨first, rfl, hfirst, hP⟩ := hreads tokens a middle hgenuine hanswer
      obtain ⟨second, rfl, hread, more, b, hmore, hQ⟩ :=
        (hf a first hP).failing middle what left hgenuine.right hsecond
      refine ⟨first ++ second, by rw [List.append_assoc], hfirst.append hread, more, b, hmore, ?_⟩
      simpa using hQ

/-- Changing the answer does not change where a parser fails. -/
theorem Viable.map {p : Parser α} {f : α → β} {P : List Token → α → Prop}
    {Q : List Token → β → Prop} (hp : Viable p P) (hreads : Reads p P)
    (hf : ∀ used a, P used a → Q used (f a)) : Viable (f <$> p) Q := by
  have hmap : f <$> p = p >>= fun a => Pure.pure (f a) := rfl
  rw [hmap]
  exact hp.bind hreads fun a first ha => .pure (by simpa using hf first a ha)

/-! ### Single tokens -/

/-- There is a readable token for every word of the grammar and every sign.
Completions are made of these. -/
theorem exists_word (literal : String) (h : literal ∈ keywords ∨ literal ∈ punctuation) :
    ∃ token : Token, token.literal = literal ∧ Readable [token] := by
  have hdigit : ∀ word ∈ keywords ++ punctuation,
      word.toList.any Text.isDigit = false := by decide
  have hsign : ∀ word ∈ punctuation,
      word.toList.all isSymbol = true ∧ word.toList.length = 1 := by decide
  have hdigit := hdigit literal (List.mem_append.mpr h)
  rcases h with hword | hmem
  · exact ⟨⟨.identifier, literal, 0⟩, rfl,
      readable_of_word (tokenClass_of_mem_keywords hword) hdigit⟩
  · obtain ⟨hall, hlength⟩ := hsign literal hmem
    obtain ⟨c, hliteral⟩ := List.length_eq_one_iff.mp hlength
    have hclass : TokenClass .operator literal.toList := by
      rw [hliteral] at hall ⊢
      exact .symbol (by simpa using hall)
    exact ⟨⟨.operator, literal, 0⟩, rfl, readable_of_word hclass hdigit⟩

/-- A name for completions. Any name would do: the grammar does not ask which one it
is. -/
def someName : Token :=
  ⟨.identifier, "x", 0⟩

/-- It is a name, and no keyword. -/
theorem isName_someName : someName.isName = true := by
  decide

/-- It can stand among readable tokens. -/
theorem readable_someName : Readable [someName] :=
  readable_of_word (.identifier (by decide) nofun) (by decide)

/-- Where a word is expected and is not there, nothing has been taken, and the word
itself is a completion. -/
theorem viable_expect {literal role : String}
    (hword : literal ∈ keywords ∨ literal ∈ punctuation) :
    Viable (expect literal role) fun used _ =>
      ∃ token, used = [token] ∧ token.literal = literal := by
  obtain ⟨token, hliteral, hread⟩ := exists_word _ hword
  refine viable_of_fails_at_once ⟨[token], (), hread, token, rfl, hliteral⟩ ?_
  intro tokens what left h
  cases tokens with
  | nil => cases h; rfl
  | cons token rest =>
      rw [expect_cons] at h
      split at h <;> cases h
      rfl

/-- Where a name is expected and is not there, nothing has been taken, and any name
is a completion. -/
theorem viable_expectName {what : Expectation} :
    Viable (expectName what) fun used name =>
      ∃ token, used = [token] ∧ token.isName = true ∧ name = token.literal := by
  refine viable_of_fails_at_once
    ⟨[someName], _, readable_someName, someName, rfl, isName_someName, rfl⟩ ?_
  intro tokens what left h
  cases tokens with
  | nil => cases h; rfl
  | cons token rest =>
      rw [expectName_cons] at h
      split at h <;> cases h
      rfl

/-- A word that may be there or not makes nothing fail. -/
theorem viable_accept {literal : String} :
    Viable (accept literal) fun used accepted =>
      if accepted then ∃ token, used = [token] ∧ token.literal = literal else used = [] := by
  refine viable_of_fails_at_once ⟨[], false, readable_nil, by simp⟩ fun tokens what left h => ?_
  cases tokens with
  | nil => cases h
  | cons token rest =>
      rw [accept_cons] at h
      split at h <;> cases h

/-- An operator that may be there or not makes nothing fail. -/
theorem viable_acceptOperator {precedence : Precedence} :
    Viable (acceptOperator precedence) fun used op? =>
      match op? with
      | some op => ∃ token, used = [token] ∧ IsOperator precedence token op
      | none => used = [] := by
  refine viable_of_fails_at_once ⟨[], none, readable_nil, rfl⟩ fun tokens what left h => ?_
  cases tokens with
  | nil => cases h
  | cons token rest =>
      rw [acceptOperator_cons] at h
      split at h <;> cases h

/-- Looking for one of some words does not fail. -/
theorem viable_atAny {literals : List String} :
    Viable (atAny literals) fun used _ => used = [] := by
  refine viable_of_fails_at_once ⟨[], false, readable_nil, rfl⟩ fun tokens what left h => ?_
  cases tokens <;> cases h

/-! ### The token in front -/

/-- What `Viable` says of failures, for the lists that begin with `token`. Whether
there is something with `Q` does not depend on the list, so it is not asked again. -/
def ViableAt (token : Token) (p : Parser α) (Q : List Token → α → Prop) : Prop :=
  ∀ rest what left, Genuine (token :: rest) → p (token :: rest) = .error (.expected what left) →
    ∃ used, token :: rest = used ++ left ∧ Readable used ∧ Completable Q used

/-- What holds of all lists holds of those that begin with one token. -/
theorem Viable.at {p : Parser α} {Q : List Token → α → Prop} (h : Viable p Q) (token : Token) :
    ViableAt token p Q :=
  fun rest => h.failing (token :: rest)

/-- A parser that looks at the next token first. It is enough to go through both
cases: no token is left, or one stands in front and is of the class of its kind. -/
theorem viable_peek {f : Option Token → Parser α} {Q : List Token → α → Prop}
    (hnone : Viable (f none) Q)
    (hsome : ∀ token, TokenClass token.kind token.literal.toList →
      ViableAt token (f (some token)) Q) : Viable (peek >>= f) Q where
  possible := hnone.possible
  failing tokens what left hgenuine h := by
    cases tokens with
    | nil => exact hnone.failing [] what left hgenuine h
    | cons token rest =>
        exact hsome token (hgenuine token (by simp)) rest what left hgenuine h

/-- A word in front that is dropped is part of what has been taken, and what comes
behind it decides. -/
theorem viableAt_skipWord {token : Token} {literal : String} {p : Parser α}
    {Q : List Token → α → Prop} (hliteral : token.literal = literal)
    (hdigit : literal.toList.any Text.isDigit = false)
    (h : Viable p fun used a => Q (token :: used) a) :
    ViableAt token (skip >>= fun _ => p) Q := by
  intro rest what left hgenuine hfail
  have hread := readable_of_word (hgenuine token (by simp)) (by rwa [hliteral])
  have hrest : Genuine rest := fun other hother => hgenuine other (by simp [hother])
  obtain ⟨used, rfl, hused, hcompletable⟩ := h.failing rest what left hrest hfail
  exact ⟨token :: used, rfl, hread.append hused, hcompletable⟩

/-- A token in front that is dropped, and then nothing fails on an expectation. -/
theorem viableAt_skip_of_answers {token : Token} {p : Parser α} {Q : List Token → α → Prop}
    (h : ∀ tokens what left, p tokens ≠ .error (.expected what left)) :
    ViableAt token (skip >>= fun _ => p) Q :=
  fun rest what left _ hfail => absurd hfail (h rest what left)

/-- A token in front that is all there is to read. -/
theorem viableAt_skip_pure {token : Token} {Q : List Token → α → Prop} (a : α) :
    ViableAt token (skip >>= fun _ => pure a) Q :=
  viableAt_skip_of_answers nofun

/-- A number that cannot be read is an obstacle of its own and no expectation, so
`Viable` does not ask about it. -/
theorem viableAt_skip_throw {token malformed : Token} {Q : List Token → α → Prop} :
    ViableAt token (skip >>= fun _ => throw (.malformedNumber malformed)) Q :=
  viableAt_skip_of_answers nofun

/-! ### Expressions -/

/-- There is an expression at every level: a name. This completes whatever stops
before an expression. -/
theorem derives_someName (level : Level) :
    DerivesExpr level [someName] (.var () someName.literal) := by
  have hprimary : DerivesExpr .primary [someName] (.var () someName.literal) := .var isName_someName
  cases level with
  | primary => exact hprimary
  | members => exact .simple hprimary
  | operators precedence =>
      cases precedence with
      | multiplicative => exact .operand (.simple hprimary)
      | additive => exact .operand (.operand (.simple hprimary))
      | comparison => exact .operand (.operand (.operand (.simple hprimary)))
      | logical => exact .operand (.operand (.operand (.operand (.simple hprimary))))

/-- Where nothing has been taken, there can be an expression of any level. -/
theorem completable_expression (level : Level) :
    Completable (fun used (e : Expr Offset) => DerivesExpr level used e.bare) [] :=
  ⟨[someName], .var 0 someName.literal, readable_someName, derives_someName level⟩

/-- Where an expression is expected and none begins, nothing has been taken of it. -/
theorem viable_fail_expression (level : Level) :
    Viable (fail .expression) fun used (e : Expr Offset) => DerivesExpr level used e.bare :=
  viable_fail (completable_expression level)

/-- More operands behind a left one that has been read. Where an operator has been
taken and no operand follows, a name completes the chain. -/
theorem viable_chain {precedence : Precedence} {operand : Parser (Expr Offset)}
    (hoperand : Viable operand fun used e => DerivesExpr (operandLevel precedence) used e.bare)
    (hreads : Reads operand fun used e => DerivesExpr (operandLevel precedence) used e.bare)
    (budget : Nat) {first : List Token} {left : Expr Offset}
    (hleft : DerivesExpr (.operators precedence) first left.bare) :
    Viable (chain precedence operand budget left) fun used e =>
      DerivesExpr (.operators precedence) (first ++ used) e.bare := by
  induction budget generalizing first left with
  | zero => exact .pure (by simpa using hleft)
  | succ budget ih =>
      refine viable_acceptOperator.bind reads_acceptOperator fun op? used hop => ?_
      cases op? with
      | none =>
          subst hop
          exact .pure (by simpa using hleft)
      | some op =>
          obtain ⟨token, rfl, hop⟩ := hop
          refine hoperand.bind hreads fun right second hright => ?_
          refine (ih (.binary hleft hop hright)).mono fun used e h => ?_
          simpa using h

/-- Operands with operators of one precedence between them. -/
theorem viable_operands (precedence : Precedence) {operand : Parser (Expr Offset)}
    (hoperand : Viable operand fun used e => DerivesExpr (operandLevel precedence) used e.bare)
    (hreads : Reads operand fun used e => DerivesExpr (operandLevel precedence) used e.bare)
    (budget : Nat) :
    Viable (operands precedence budget operand) fun used e =>
      DerivesExpr (.operators precedence) used e.bare :=
  hoperand.bind hreads fun _ _ hleft => viable_chain hoperand hreads budget (.operand hleft)

section Expressions

variable {expression : Parser (Expr Offset)}
  (hexpression : Viable expression fun used e => DerivesExpr anyLevel used e.bare)
  (hreads : Reads expression fun used e => DerivesExpr anyLevel used e.bare)

include hexpression hreads

/-- A list of arguments that has begun. A name and a parenthesis complete it
wherever it fails. -/
theorem viable_moreArguments (budget : Nat) :
    Viable (moreArguments expression budget) fun used arguments =>
      ∃ tokens paren, used = tokens ++ [paren] ∧ paren.literal = ")"
        ∧ DerivesSeries tokens (arguments.map Expr.bare) := by
  induction budget with
  | zero =>
      obtain ⟨paren, hparen, hread⟩ := exists_word ")" (by decide)
      exact viable_fail ⟨[someName, paren], [.var 0 someName.literal],
        readable_someName.append hread, [someName], paren, rfl, hparen,
        .one (derives_someName anyLevel)⟩
  | succ budget ih =>
      refine hexpression.bind hreads fun e first he => ?_
      refine viable_accept.bind (reads_accept (by decide)) fun accepted second h => ?_
      cases accepted with
      | true =>
          obtain ⟨comma, rfl, hcomma⟩ := h
          refine ih.bind (reads_moreArguments hreads budget) fun more third h => .pure ?_
          obtain ⟨tokens, paren, rfl, hparen, hmore⟩ := h
          exact ⟨first ++ comma :: tokens, paren, by simp, hparen, .more he hcomma hmore⟩
      | false =>
          obtain rfl : second = [] := h
          refine (viable_expect (by decide)).bind (reads_expect (by decide)) fun _ third h => ?_
          obtain ⟨paren, rfl, hparen⟩ := h
          exact .pure ⟨first, paren, by simp, hparen, .one he⟩

/-- Arguments behind their opening parenthesis. -/
theorem viable_arguments (budget : Nat) :
    Viable (arguments expression budget) fun used arguments =>
      DerivesArguments used (arguments.map Expr.bare) := by
  refine viable_accept.bind (reads_accept (by decide)) fun accepted first h => ?_
  cases accepted with
  | true =>
      obtain ⟨paren, rfl, hparen⟩ := h
      exact .pure (.none hparen)
  | false =>
      obtain rfl : first = [] := h
      refine (viable_moreArguments hexpression hreads budget).mono fun used arguments h => ?_
      obtain ⟨tokens, paren, rfl, hparen, hseries⟩ := h
      exact .some hseries hparen

/-- A word where an expression begins. Only the arguments of a call can fail. -/
theorem viableAt_word (budget : Nat) {token : Token} :
    ViableAt token (word expression budget token) fun used e =>
      DerivesExpr .primary used e.bare := by
  unfold word
  rw [present_bind]
  split
  · exact viableAt_skip_pure _
  · exact viableAt_skip_pure _
  · exact viableAt_skip_pure _
  · refine (Viable.bind viable_expectName reads_expectName fun name first hname => ?_).at token
    obtain ⟨token', rfl, hname, rfl⟩ := hname
    refine viable_accept.bind (reads_accept (by decide)) fun accepted second h => ?_
    cases accepted with
    | true =>
        obtain ⟨paren, rfl, hparen⟩ := h
        refine (viable_arguments hexpression hreads budget).bind (reads_arguments hreads budget)
          fun arguments third h => .pure ?_
        simpa using DerivesExpr.call hname hparen h
    | false =>
        obtain rfl : second = [] := h
        exact .pure (.var hname)

/-- An expression without operators and member accesses. In parentheses the closing
one may be missing, and is the completion. -/
theorem viable_primary (budget : Nat) :
    Viable (primary expression budget) fun used e => DerivesExpr .primary used e.bare := by
  refine viable_peek (viable_fail_expression .primary) fun token _ => ?_
  dsimp only
  split
  -- A literal is one token. Its value may be out of reach, but that is no
  -- expectation.
  · cases readInteger? token.literal with
    | some value => exact viableAt_skip_pure _
    | none => exact viableAt_skip_throw
  · cases Decimal.read? token.literal with
    | some value => exact viableAt_skip_pure _
    | none => exact viableAt_skip_throw
  · exact viableAt_skip_pure _
  · exact viableAt_skip_pure _
  · exact viableAt_word hexpression hreads budget
  · refine (Viable.bind viable_accept (reads_accept (by decide))
      fun accepted first h => ?_).at token
    cases accepted with
    | false =>
        obtain rfl : first = [] := h
        exact viable_fail_expression .primary
    | true =>
        obtain ⟨left, rfl, hleft⟩ := h
        refine hexpression.bind hreads fun inner second hinner => ?_
        refine (viable_expect (by decide)).bind (reads_expect (by decide)) fun _ third h => ?_
        obtain ⟨right, rfl, hright⟩ := h
        refine .pure ?_
        simpa using DerivesExpr.group hleft hinner hright

/-- Member accesses behind a receiver that has been read. Behind a point a name is
the completion. -/
theorem viable_members (budget : Nat) {first : List Token} {receiver : Expr Offset}
    (hreceiver : DerivesExpr .members first receiver.bare) :
    Viable (members expression budget receiver) fun used e =>
      DerivesExpr .members (first ++ used) e.bare := by
  induction budget generalizing first receiver with
  | zero => exact .pure (by simpa using hreceiver)
  | succ budget ih =>
      refine viable_accept.bind (reads_accept (by decide)) fun accepted second h => ?_
      cases accepted with
      | false =>
          obtain rfl : second = [] := h
          exact .pure (by simpa using hreceiver)
      | true =>
          obtain ⟨point, rfl, hpoint⟩ := h
          refine viable_expectName.bind reads_expectName fun name third hname => ?_
          obtain ⟨nameToken, rfl, hname, rfl⟩ := hname
          refine viable_accept.bind (reads_accept (by decide)) fun accepted fourth h => ?_
          cases accepted with
          | false =>
              obtain rfl : fourth = [] := h
              refine (ih (.field hreceiver hpoint hname)).mono fun used e h => ?_
              simpa using h
          | true =>
              obtain ⟨paren, rfl, hparen⟩ := h
              refine (viable_arguments hexpression hreads budget).bind
                (reads_arguments hreads budget) fun arguments fifth h => ?_
              have hcall := DerivesExpr.methodCall hreceiver hpoint hname hparen h
              rw [← Expr.bare_methodCall] at hcall
              refine (ih hcall).mono fun used e h => ?_
              simpa using h

/-- An expression without operators: its first part and the member accesses behind
it. -/
theorem viable_postfixChain (budget : Nat) :
    Viable (postfixChain expression budget) fun used e => DerivesExpr .members used e.bare :=
  (viable_primary hexpression hreads budget).bind (reads_primary hreads budget) fun _ _ h =>
    viable_members hexpression hreads budget (.simple h)

end Expressions

/-- The parser of expressions. By induction on the budget, for the expressions in
parentheses and in arguments. -/
theorem viable_expression (budget : Nat) :
    Viable (expression budget) fun used e => DerivesExpr anyLevel used e.bare := by
  induction budget with
  | zero => exact viable_fail_expression anyLevel
  | succ budget ih =>
      have hreads := reads_postfixChain (reads_expression budget) (budget + 1)
      have hmembers := viable_postfixChain ih (reads_expression budget) (budget + 1)
      have hreads' := reads_operands .multiplicative hreads (budget + 1)
      have hfactors := viable_operands .multiplicative hmembers hreads (budget + 1)
      have hreads'' := reads_operands .additive hreads' (budget + 1)
      have hterms := viable_operands .additive hfactors hreads' (budget + 1)
      have hcomparisons := viable_operands .comparison hterms hreads'' (budget + 1)
      exact viable_operands .logical hcomparisons
        (reads_operands .comparison hreads'' (budget + 1)) (budget + 1)

/-! ### Statements -/

section Optional

variable {Q : List Token → β → Prop}

/-- An optional name behind a colon, and what comes after it. Behind the colon any
name is a completion. -/
theorem viable_typeName {expected : Expectation} {f : Option String → Parser β}
    (hf : ∀ typeName first, DerivesTypeName first typeName →
      Viable (f typeName) fun second b => Q (first ++ second) b) :
    Viable (do
      let typeName ← if ← accept ":" then some <$> expectName expected else pure none
      f typeName) Q := by
  refine viable_accept.bind (reads_accept (by decide)) fun accepted first h => ?_
  cases accepted with
  | false =>
      obtain rfl : first = [] := h
      exact hf none [] .absent
  | true =>
      obtain ⟨colon, rfl, hcolon⟩ := h
      have hname (used : List Token) (name : String)
          (h : ∃ token : Token, used = [token] ∧ token.isName = true ∧ name = token.literal) :
          DerivesTypeName (colon :: used) (some name) := by
        obtain ⟨token, rfl, hname, rfl⟩ := h
        exact .present hcolon hname
      refine (viable_expectName.map reads_expectName hname).bind (reads_expectName.map hname)
        fun typeName second h => ?_
      simpa using hf typeName (colon :: second) h

/-- An optional first value behind an equals sign, and what comes after it. Behind
the sign any name is a completion. -/
theorem viable_value (budget : Nat) {f : Option (Expr Offset) → Parser β}
    (hf : ∀ value first, DerivesValue first (value.map Expr.bare) →
      Viable (f value) fun second b => Q (first ++ second) b) :
    Viable (do
      let value ← if ← accept "=" then some <$> expression budget else pure none
      f value) Q := by
  refine viable_accept.bind (reads_accept (by decide)) fun accepted first h => ?_
  cases accepted with
  | false =>
      obtain rfl : first = [] := h
      exact hf none [] .absent
  | true =>
      obtain ⟨equals, rfl, hequals⟩ := h
      let R (used : List Token) (value : Option (Expr Offset)) :=
        DerivesValue (equals :: used) (value.map Expr.bare)
      have hvalue (used : List Token) (e : Expr Offset) (he : DerivesExpr anyLevel used e.bare) :
          R used (some e) :=
        .present hequals he
      refine ((viable_expression budget).map (reads_expression budget) hvalue).bind
        ((reads_expression budget).map hvalue) fun value second h => ?_
      simpa using hf value (equals :: second) h

end Optional

/-- A declaration: a name, an optional type and an optional first value. -/
theorem viable_declaration (budget : Nat) :
    Viable (declaration budget) fun used d => DerivesDeclaration used d.bare := by
  refine viable_expectName.bind reads_expectName fun name first hname => ?_
  obtain ⟨token, rfl, hname, rfl⟩ := hname
  refine viable_typeName fun typeName second htype => ?_
  refine viable_value budget fun value third hvalue => .pure ?_
  simpa using DerivesDeclaration.mk hname htype hvalue

section Statements

variable {statement : Parser (Stmt Offset)}
  (hstatement : Viable statement fun used s => DerivesStmt used s.bare)
  (hreads : Reads statement fun used s => DerivesStmt used s.bare)

include hstatement hreads

/-- A block may be empty, so it can be completed wherever it is. What the statements
in it are does not matter as long as they are viable. -/
theorem viable_block (terminators : List String) (budget : Nat) :
    Viable (block terminators statement budget) fun used body =>
      DerivesBlock used (body.map Stmt.bare) := by
  have hnone {what : Expectation} : Viable (fail what) fun used (body : List (Stmt Offset)) =>
      DerivesBlock used (body.map Stmt.bare) :=
    viable_fail ⟨[], [], readable_nil, .nil⟩
  induction budget with
  | zero => exact hnone
  | succ budget ih =>
      refine viable_atAny.bind reads_atAny fun found first h => ?_
      subst h
      cases found with
      | true => exact .pure .nil
      | false =>
          refine viable_peek hnone fun token _ => Viable.at ?_ token
          refine hstatement.bind hreads fun s second hs => ?_
          refine ih.bind (reads_block hreads terminators budget) fun more third hmore => .pure ?_
          simpa using DerivesBlock.cons hs hmore

/-- The second branch of a conditional, and what comes after it. It may be left out. -/
theorem viable_else (budget : Nat) {Q : List Token → β → Prop}
    {f : List (Stmt Offset) → Parser β}
    (hf : ∀ body first, DerivesElse first (body.map Stmt.bare) →
      Viable (f body) fun second b => Q (first ++ second) b) :
    Viable (do
      let body ← if ← accept "ELSE" then block ["END"] statement budget else pure []
      f body) Q := by
  refine viable_accept.bind (reads_accept (by decide)) fun accepted first h => ?_
  cases accepted with
  | false =>
      obtain rfl : first = [] := h
      exact hf [] [] .absent
  | true =>
      obtain ⟨word, rfl, hword⟩ := h
      refine (viable_block hstatement hreads _ budget).bind (reads_block hreads _ budget)
        fun body second h => ?_
      simpa using hf body (word :: second) (.present hword h)

/-- A conditional behind its first word, which the caller has taken. -/
theorem viable_conditional (mark : Offset) (budget : Nat) {token : Token}
    (htoken : token.literal = "IF") :
    Viable (conditional mark statement budget) fun used s =>
      DerivesStmt (token :: used) s.bare := by
  refine (viable_expression budget).bind (reads_expression budget)
    fun condition first hcondition => ?_
  refine (viable_expect (by decide)).bind (reads_expect (by decide)) fun _ second h => ?_
  obtain ⟨opening, rfl, hopening⟩ := h
  refine (viable_block hstatement hreads _ budget).bind (reads_block hreads _ budget)
    fun thenBody third hthen => ?_
  refine viable_else hstatement hreads budget fun elseBody fourth helse => ?_
  refine (viable_expect (by decide)).bind (reads_expect (by decide)) fun _ fifth h => .pure ?_
  obtain ⟨last, rfl, hlast⟩ := h
  simpa using DerivesStmt.cond htoken hcondition hopening hthen helse hlast

/-- A loop over a sequence behind its first word, which the caller has taken. -/
theorem viable_forLoop (mark : Offset) (budget : Nat) {token : Token}
    (htoken : token.literal = "FOR") :
    Viable (forLoop mark statement budget) fun used s => DerivesStmt (token :: used) s.bare := by
  refine viable_expectName.bind reads_expectName fun name first hname => ?_
  obtain ⟨nameToken, rfl, hname, rfl⟩ := hname
  refine (viable_expect (by decide)).bind (reads_expect (by decide)) fun _ second h => ?_
  obtain ⟨between, rfl, hbetween⟩ := h
  refine (viable_expression budget).bind (reads_expression budget) fun value third hvalue => ?_
  refine (viable_expect (by decide)).bind (reads_expect (by decide)) fun _ fourth h => ?_
  obtain ⟨opening, rfl, hopening⟩ := h
  refine (viable_block hstatement hreads _ budget).bind (reads_block hreads _ budget)
    fun body fifth hbody => ?_
  refine (viable_expect (by decide)).bind (reads_expect (by decide)) fun _ sixth h => .pure ?_
  obtain ⟨last, rfl, hlast⟩ := h
  simpa using DerivesStmt.forIn htoken hname hbetween hvalue hopening hbody hlast

/-- A loop on a condition behind its first word, which the caller has taken. -/
theorem viable_whileLoop (mark : Offset) (budget : Nat) {token : Token}
    (htoken : token.literal = "WHILE") :
    Viable (whileLoop mark statement budget) fun used s => DerivesStmt (token :: used) s.bare := by
  refine (viable_expression budget).bind (reads_expression budget)
    fun condition first hcondition => ?_
  refine (viable_expect (by decide)).bind (reads_expect (by decide)) fun _ second h => ?_
  obtain ⟨opening, rfl, hopening⟩ := h
  refine (viable_block hstatement hreads _ budget).bind (reads_block hreads _ budget)
    fun body third hbody => ?_
  refine (viable_expect (by decide)).bind (reads_expect (by decide)) fun _ fourth h => .pure ?_
  obtain ⟨last, rfl, hlast⟩ := h
  simpa using DerivesStmt.whileDo htoken hcondition hopening hbody hlast

end Statements

/-- A statement that begins with an expression. Behind a name or a field it can
become an assignment, and behind a call it ends. -/
theorem viable_expressionStatement (mark : Offset) (budget : Nat) :
    Viable (expressionStatement mark budget) fun used s => DerivesStmt used s.bare := by
  refine (viable_expression budget).bind (reads_expression budget) fun target first htarget => ?_
  refine viable_accept.bind (reads_accept (by decide)) fun accepted second h => ?_
  cases accepted with
  | true =>
      obtain ⟨equals, rfl, hequals⟩ := h
      refine (viable_expression budget).bind (reads_expression budget) fun value third hvalue => ?_
      refine (viable_expect (by decide)).bind (reads_expect (by decide)) fun _ fourth h => .pure ?_
      obtain ⟨last, rfl, hlast⟩ := h
      simpa using DerivesStmt.assign htarget hequals hvalue hlast
  | false =>
      obtain rfl : second = [] := h
      refine (viable_expect (by decide)).bind (reads_expect (by decide)) fun _ third h => .pure ?_
      obtain ⟨last, rfl, hlast⟩ := h
      simpa using DerivesStmt.expression htarget hlast

/-- Where a statement is expected and none begins, nothing has been taken of it. -/
theorem viable_fail_statement :
    Viable (fail .expression) fun used (s : Stmt Offset) => DerivesStmt used s.bare := by
  obtain ⟨last, hlast, hread⟩ := exists_word ";" (by decide)
  exact viable_fail ⟨[someName, last], .expression 0 (.var 0 someName.literal),
    readable_someName.append hread, .expression (derives_someName anyLevel) hlast⟩

/-- The parser of statements. By induction on the budget, for the statements in
bodies. -/
theorem viable_statement (budget : Nat) :
    Viable (statement budget) fun used s => DerivesStmt used s.bare := by
  induction budget with
  | zero => exact viable_fail_statement
  | succ budget ih =>
      have hreads := reads_statement budget
      refine viable_peek viable_fail_statement fun token _ => ?_
      dsimp only
      split
      · next htoken =>
          refine viableAt_skipWord htoken (by decide) ?_
          refine (viable_declaration _).bind (reads_declaration _) fun d first hd => ?_
          refine (viable_expect (by decide)).bind (reads_expect (by decide)) fun _ second h => ?_
          obtain ⟨last, rfl, hlast⟩ := h
          exact .pure (by simpa using DerivesStmt.declare htoken hd hlast)
      · next htoken =>
          exact viableAt_skipWord htoken (by decide) (viable_conditional ih hreads _ _ htoken)
      · next htoken =>
          exact viableAt_skipWord htoken (by decide) (viable_forLoop ih hreads _ _ htoken)
      · next htoken =>
          exact viableAt_skipWord htoken (by decide) (viable_whileLoop ih hreads _ _ htoken)
      · next htoken =>
          refine viableAt_skipWord htoken (by decide) ?_
          refine (viable_expression _).bind (reads_expression _) fun value first hvalue => ?_
          refine (viable_expect (by decide)).bind (reads_expect (by decide)) fun _ second h => ?_
          obtain ⟨last, rfl, hlast⟩ := h
          exact .pure (by simpa using DerivesStmt.result htoken hvalue hlast)
      · exact (viable_expressionStatement _ _).at token

/-! ### Fields, methods and programs -/

/-- A list of parameters that has begun. A name, a colon, a type and a parenthesis
complete it. -/
theorem viable_moreParameters (budget : Nat) :
    Viable (moreParameters budget) fun used parameters =>
      ∃ tokens paren, used = tokens ++ [paren] ∧ paren.literal = ")"
        ∧ DerivesParameterSeries tokens parameters := by
  induction budget with
  -- Without budget the parser fails at once, and what may follow is still a whole parameter.
  | zero =>
      obtain ⟨paren, hparen, hread⟩ := exists_word ")" (by decide)
      obtain ⟨colon, hcolon, hreadColon⟩ := exists_word ":" (by decide)
      have hname := readable_someName
      exact viable_fail ⟨[someName] ++ ([colon] ++ ([someName] ++ [paren])), _,
        hname.append (hreadColon.append (hname.append hread)), [someName, colon, someName], paren,
        rfl, hparen, .one isName_someName hcolon isName_someName⟩
  | succ budget ih =>
      refine viable_expectName.bind reads_expectName fun name first hname => ?_
      obtain ⟨nameToken, rfl, hname, rfl⟩ := hname
      refine (viable_expect (by decide)).bind (reads_expect (by decide)) fun _ second h => ?_
      obtain ⟨colon, rfl, hcolon⟩ := h
      refine viable_expectName.bind reads_expectName fun typeName third htype => ?_
      obtain ⟨typeToken, rfl, htype, rfl⟩ := htype
      refine viable_accept.bind (reads_accept (by decide)) fun accepted fourth h => ?_
      cases accepted with
      | true =>
          obtain ⟨comma, rfl, hcomma⟩ := h
          refine ih.bind (reads_moreParameters budget) fun more fifth h => .pure ?_
          obtain ⟨tokens, paren, rfl, hparen, hmore⟩ := h
          exact ⟨nameToken :: colon :: typeToken :: comma :: tokens, paren, by simp, hparen,
            .more hname hcolon htype hcomma hmore⟩
      | false =>
          obtain rfl : fourth = [] := h
          refine (viable_expect (by decide)).bind (reads_expect (by decide)) fun _ fifth h => ?_
          obtain ⟨paren, rfl, hparen⟩ := h
          exact .pure ⟨[nameToken, colon, typeToken], paren, by simp, hparen,
            .one hname hcolon htype⟩

/-- Parameters behind their opening parenthesis, which may be none, and what comes
after them. -/
theorem viable_parameters (budget : Nat) {Q : List Token → β → Prop}
    {f : List (String × String) → Parser β}
    (hf : ∀ parameters first, DerivesParameters first parameters →
      Viable (f parameters) fun second b => Q (first ++ second) b) :
    Viable (do
      let parameters ← if ← accept ")" then pure [] else moreParameters budget
      f parameters) Q := by
  refine viable_accept.bind (reads_accept (by decide)) fun accepted first h => ?_
  cases accepted with
  | true =>
      obtain ⟨paren, rfl, hparen⟩ := h
      exact hf [] [paren] (.none hparen)
  | false =>
      obtain rfl : first = [] := h
      refine (viable_moreParameters budget).bind (reads_moreParameters budget)
        fun parameters second h => ?_
      obtain ⟨tokens, paren, rfl, hparen, hseries⟩ := h
      exact hf parameters _ (.some hseries hparen)

/-- A method behind its first word, which the caller has taken. -/
theorem viable_method (mark : Offset) (budget : Nat) {token : Token}
    (htoken : token.literal = "DEF") :
    Viable (method mark budget) fun used m => DerivesMethod (token :: used) m.bare := by
  have hreads := reads_statement budget
  refine viable_expectName.bind reads_expectName fun name first hname => ?_
  obtain ⟨nameToken, rfl, hname, rfl⟩ := hname
  refine (viable_expect (by decide)).bind (reads_expect (by decide)) fun _ second h => ?_
  obtain ⟨paren, rfl, hparen⟩ := h
  refine viable_parameters budget fun parameters third hparameters => ?_
  refine viable_typeName fun returnType fourth htype => ?_
  refine (viable_expect (by decide)).bind (reads_expect (by decide)) fun _ fifth h => ?_
  obtain ⟨opening, rfl, hopening⟩ := h
  refine (viable_block (viable_statement budget) hreads _ budget).bind
    (reads_block hreads _ budget) fun body sixth hbody => ?_
  refine (viable_expect (by decide)).bind (reads_expect (by decide)) fun _ seventh h => .pure ?_
  obtain ⟨last, rfl, hlast⟩ := h
  simpa using DerivesMethod.mk htoken hname hparen hparameters htype hopening hbody hlast

/-- A field behind its first word, which the caller has taken. -/
theorem viable_field (mark : Offset) (budget : Nat) {token : Token}
    (htoken : token.literal = "LET") :
    Viable (field mark budget) fun used f => DerivesField (token :: used) f.bare := by
  refine (viable_declaration budget).bind (reads_declaration budget) fun d first hd => ?_
  refine (viable_expect (by decide)).bind (reads_expect (by decide)) fun _ second h => .pure ?_
  obtain ⟨last, rfl, hlast⟩ := h
  simpa using DerivesField.mk htoken hd hlast

/-- All items that begin with one word. No more items is always a completion, so the
items read before one that fails stay what they are. -/
theorem viable_many {literal : String} {item : Offset → Parser α} {bare : α → β}
    {R : List Token → β → Prop} (hdigit : literal.toList.any Text.isDigit = false)
    (hitem : ∀ token : Token, token.literal = literal →
      Viable (item token.offset) fun used a => R (token :: used) (bare a))
    (hreads : ∀ token : Token, token.literal = literal →
      Reads (item token.offset) fun used a => R (token :: used) (bare a)) (budget : Nat) :
    Viable (many literal item budget) fun used list => DerivesAll R used (list.map bare) := by
  induction budget with
  | zero => exact .pure .nil
  | succ budget ih =>
      refine viable_peek (.pure .nil) fun token _ => ?_
      dsimp only
      split
      · next htoken =>
          refine viableAt_skipWord htoken hdigit ?_
          refine (hitem token htoken).bind (hreads token htoken) fun a first ha => ?_
          refine ih.bind (reads_many hdigit hreads budget) fun more second hmore => .pure ?_
          simpa using DerivesAll.cons ha hmore
      · exact (Viable.pure .nil).at token

/-- When the parser of programs fails, the tokens that it has taken are the front
part of some program. -/
theorem viable_program (budget : Nat) :
    Viable (Parser.program budget) fun used program => Derives used program.bare := by
  have hreadsField (token : Token) (htoken : token.literal = "LET") :=
    reads_field token.offset budget htoken
  have hreadsMethod (token : Token) (htoken : token.literal = "DEF") :=
    reads_method token.offset budget htoken
  refine Viable.bind (viable_many (by decide) (fun token htoken =>
    viable_field token.offset budget htoken) hreadsField budget)
    (reads_many (by decide) hreadsField budget) fun fields first hfields => ?_
  refine Viable.bind (viable_many (by decide) (fun token htoken =>
    viable_method token.offset budget htoken) hreadsMethod budget)
    (reads_many (by decide) hreadsMethod budget) fun methods second hmethods => ?_
  -- Behind the fields and methods nothing is missing.
  have hderives : Derives (first ++ (second ++ [])) (Program.mk fields methods).bare := by
    simpa using Derives.mk hfields hmethods
  refine viable_peek (.pure hderives) fun token _ => Viable.at (viable_fail ?_) token
  exact ⟨[], ⟨fields, methods⟩, readable_nil, hderives⟩

end PlcLang.Proofs
