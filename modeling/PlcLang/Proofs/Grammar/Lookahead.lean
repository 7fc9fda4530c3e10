import PlcLang.Proofs.Grammar.Soundness

/-!
# `PlcLang.Proofs.Grammar.Lookahead`: the parser looks one token ahead

A parser decides by the next token alone. So what it does on a list of tokens
depends on those that it takes and on the first one that it leaves, and on
nothing behind that one: `LooksAhead`. It holds of answers and of failures, for
every function of the parser and every budget, on any tokens, and it is kept by
sequences, so each lemma here is as long as its function.

The first part of the property is worth a name of its own: a parser takes tokens
off the front of the list and never changes what is left.
-/

set_option autoImplicit false

namespace PlcLang.Proofs

open PlcLang.Parser

variable {α β : Type}

/-! ### How a parser is left -/

/-- A parser is left with an answer or with an expectation that is not met, and
in both cases with tokens that are not read yet. -/
def leaving (left : List Token) : Except Expectation α → Except Obstacle (α × List Token)
  | .ok a => .ok (a, left)
  | .error what => .error (.expected what left)

/-- What `p` takes is a front part of the tokens, and `p` is left in the same
way whatever stands behind the first token that it leaves. -/
def LooksAhead (p : Parser α) : Prop :=
  ∀ tokens left outcome, p tokens = leaving left outcome →
    ∃ used, tokens = used ++ left
      ∧ ∀ other, other.head? = left.head? → p (used ++ other) = leaving other outcome

/-- A sequence is left where its first part fails, or where its second part is
left. -/
theorem bind_eq_leaving_iff {p : Parser α} {f : α → Parser β} {tokens left : List Token}
    {outcome : Except Expectation β} :
    (p >>= f) tokens = leaving left outcome
      ↔ (∃ what, outcome = .error what ∧ p tokens = leaving left (.error what))
        ∨ ∃ a middle, p tokens = leaving middle (.ok a) ∧ f a middle = leaving left outcome := by
  show (p tokens >>= fun answer => f answer.1 answer.2) = _ ↔ _
  constructor
  · intro h
    cases hp : p tokens with
    | ok answer =>
        rw [hp] at h
        exact .inr ⟨answer.1, answer.2, rfl, h⟩
    | error obstacle =>
        rw [hp] at h
        cases outcome with
        | ok b => cases h
        | error what =>
            obtain rfl : obstacle = .expected what left := Except.error.inj h
            exact .inl ⟨what, rfl, rfl⟩
  · intro h
    rcases h with ⟨what, rfl, hfail⟩ | ⟨a, middle, hanswer, hleft⟩
    · rw [hfail]
      rfl
    · rw [hanswer]
      exact hleft

/-- What stands behind a front part shows in the first token at most. -/
theorem head?_append_congr {used left other : List Token} (h : other.head? = left.head?) :
    (used ++ other).head? = (used ++ left).head? := by
  cases used with
  | nil => exact h
  | cons token more => rfl

/-- A sequence looks no farther ahead than its parts. -/
theorem LooksAhead.bind {p : Parser α} {f : α → Parser β} (hp : LooksAhead p)
    (hf : ∀ a, LooksAhead (f a)) : LooksAhead (p >>= f) := by
  intro tokens left outcome h
  rcases bind_eq_leaving_iff.mp h with ⟨what, rfl, hfail⟩ | ⟨a, middle, hanswer, hleft⟩
  · obtain ⟨used, rfl, hsame⟩ := hp tokens left _ hfail
    refine ⟨used, rfl, fun other hother => ?_⟩
    exact bind_eq_leaving_iff.mpr (.inl ⟨what, rfl, hsame other hother⟩)
  · obtain ⟨first, rfl, hfirst⟩ := hp tokens middle _ hanswer
    obtain ⟨second, rfl, hsecond⟩ := hf a middle left outcome hleft
    refine ⟨first ++ second, (List.append_assoc ..).symm, fun other hother => ?_⟩
    -- The first parser sees the tokens of the second one, and the token behind
    -- them if the second one takes none.
    have hanswers := hfirst (second ++ other) (head?_append_congr hother)
    rw [List.append_assoc]
    exact bind_eq_leaving_iff.mpr (.inr ⟨a, second ++ other, hanswers, hsecond other hother⟩)

/-- An answer that is there already looks at nothing. -/
theorem LooksAhead.pure (a : α) : LooksAhead (pure a) := by
  intro tokens left outcome h
  cases outcome with
  | error what => cases h
  | ok b =>
      obtain ⟨rfl, rfl⟩ : a = b ∧ tokens = left := by
        simpa using (Except.ok.inj h : (a, tokens) = (b, left))
      exact ⟨[], rfl, fun other _ => rfl⟩

/-- What is made of an answer looks at nothing more. -/
theorem LooksAhead.map {p : Parser α} (hp : LooksAhead p) (f : α → β) : LooksAhead (f <$> p) :=
  hp.bind fun a => .pure (f a)

/-- An optional part, decided by what was accepted. -/
theorem LooksAhead.ite {p q : Parser α} {accepted : Bool} (hp : LooksAhead p)
    (hq : LooksAhead q) : LooksAhead (if accepted then p else q) := by
  cases accepted with
  | true => exact hp
  | false => exact hq

/-! ### Single tokens -/

/-- A parser is left in one way only. -/
theorem leaving_inj {left other : List Token} {outcome outcome' : Except Expectation α}
    (h : leaving left outcome = leaving other outcome') : left = other ∧ outcome = outcome' := by
  cases outcome <;> cases outcome' <;> cases h <;> exact ⟨rfl, rfl⟩

/-- A parser that decides by the first token and either leaves it or takes it. So do
all parsers of single tokens. -/
theorem looksAhead_of_head {p : Parser α} (hnil : ∃ outcome, p [] = leaving [] outcome)
    (hcons : ∀ token, ∃ outcome, (∀ rest, p (token :: rest) = leaving (token :: rest) outcome)
      ∨ ∀ rest, p (token :: rest) = leaving rest outcome) : LooksAhead p := by
  intro tokens left outcome h
  cases tokens with
  | nil =>
      obtain ⟨outcome', hp⟩ := hnil
      obtain ⟨rfl, rfl⟩ := leaving_inj (hp.symm.trans h)
      refine ⟨[], rfl, fun other hother => ?_⟩
      obtain rfl : other = [] := List.head?_eq_none_iff.mp hother
      exact hp
  | cons token rest =>
      obtain ⟨outcome', hleaves | htakes⟩ := hcons token
      · obtain ⟨rfl, rfl⟩ := leaving_inj ((hleaves rest).symm.trans h)
        refine ⟨[], rfl, fun other hother => ?_⟩
        obtain ⟨more, rfl⟩ := List.head?_eq_some_iff.mp hother
        exact hleaves more
      · obtain ⟨rfl, rfl⟩ := leaving_inj ((htakes rest).symm.trans h)
        exact ⟨[token], rfl, fun other _ => htakes other⟩

/-- A failure looks at nothing. -/
theorem looksAhead_fail (what : Expectation) : LooksAhead (fail what : Parser α) :=
  looksAhead_of_head ⟨.error what, rfl⟩ fun _ => ⟨.error what, .inl fun _ => rfl⟩

/-- A number that cannot be read is no expectation, so nothing is asked of it here. -/
theorem looksAhead_throw (token : Token) :
    LooksAhead (throw (.malformedNumber token) : Parser α) := by
  intro tokens left outcome h
  cases outcome <;> cases h

/-- Looking at the next token is looking one token ahead. -/
theorem looksAhead_peek : LooksAhead peek :=
  looksAhead_of_head ⟨.ok none, rfl⟩ fun token => ⟨.ok (some token), .inl fun _ => rfl⟩

/-- Dropping a token is looking at it. -/
theorem looksAhead_skip : LooksAhead skip :=
  looksAhead_of_head ⟨.ok (), rfl⟩ fun _ => ⟨.ok (), .inr fun _ => rfl⟩

/-- So is asking for one of some words. -/
theorem looksAhead_atAny (literals : List String) : LooksAhead (atAny literals) :=
  looksAhead_of_head ⟨.ok false, rfl⟩ fun token =>
    ⟨.ok (literals.contains token.literal), .inl fun _ => rfl⟩

/-- So is accepting a word. -/
theorem looksAhead_accept (literal : String) : LooksAhead (accept literal) := by
  refine looksAhead_of_head ⟨.ok false, rfl⟩ fun token => ?_
  by_cases h : token.literal = literal
  · exact ⟨.ok true, .inr fun rest => by simp [accept_cons, h, leaving]⟩
  · exact ⟨.ok false, .inl fun rest => by simp [accept_cons, h, leaving]⟩

/-- So is expecting one. -/
theorem looksAhead_expect (literal role : String) : LooksAhead (expect literal role) :=
  (looksAhead_accept literal).bind fun _ => .ite (.pure ()) (looksAhead_fail _)

/-- So is expecting a name. -/
theorem looksAhead_expectName (what : Expectation) : LooksAhead (expectName what) := by
  refine looksAhead_of_head ⟨.error what, rfl⟩ fun token => ?_
  by_cases h : token.isName = true
  · exact ⟨.ok token.literal, .inr fun rest => by simp [expectName_cons, h, leaving]⟩
  · exact ⟨.error what, .inl fun rest => by simp [expectName_cons, h, leaving]⟩

/-- So is accepting an operator. -/
theorem looksAhead_acceptOperator (precedence : Precedence) :
    LooksAhead (acceptOperator precedence) := by
  refine looksAhead_of_head ⟨.ok none, rfl⟩ fun token => ?_
  by_cases h : (BinaryOp.ofSymbol token.literal).precedence? = some precedence
  · exact ⟨.ok (some _), .inr fun rest => by simp only [acceptOperator_cons, if_pos h]; rfl⟩
  · exact ⟨.ok none, .inl fun rest => by simp only [acceptOperator_cons, if_neg h]; rfl⟩

/-! ### Expressions -/

/-- A chain looks one token ahead to see whether it goes on. The induction is on the
budget. -/
theorem looksAhead_chain (precedence : Precedence) {operand : Parser (Expr Offset)}
    (hoperand : LooksAhead operand) (budget : Nat) (left : Expr Offset) :
    LooksAhead (chain precedence operand budget left) := by
  induction budget generalizing left with
  | zero => exact .pure left
  | succ budget ih =>
      refine (looksAhead_acceptOperator precedence).bind fun op? => ?_
      cases op? with
      | none => exact .pure left
      | some op => exact hoperand.bind fun right => ih _

/-- So do operands of one level. -/
theorem looksAhead_operands (precedence : Precedence) (budget : Nat)
    {operand : Parser (Expr Offset)} (hoperand : LooksAhead operand) :
    LooksAhead (operands precedence budget operand) :=
  hoperand.bind fun left => looksAhead_chain precedence hoperand budget left

section Expressions

variable {expression : Parser (Expr Offset)} (hexpression : LooksAhead expression)

include hexpression

/-- So do arguments that have begun. -/
theorem looksAhead_moreArguments (budget : Nat) :
    LooksAhead (moreArguments expression budget) := by
  induction budget with
  | zero => exact looksAhead_fail _
  | succ budget ih =>
      refine hexpression.bind fun argument => (looksAhead_accept ",").bind fun accepted => ?_
      refine .ite (ih.bind fun more => .pure _) ?_
      exact (looksAhead_expect _ _).bind fun _ => .pure _

/-- So do arguments. -/
theorem looksAhead_arguments (budget : Nat) : LooksAhead (arguments expression budget) :=
  (looksAhead_accept ")").bind fun _ =>
    .ite (.pure []) (looksAhead_moreArguments hexpression budget)

/-- So does a word, which may be a call. -/
theorem looksAhead_word (budget : Nat) (token : Token) :
    LooksAhead (word expression budget token) := by
  unfold word
  rw [present_bind]
  split
  · exact looksAhead_skip.bind fun _ => .pure _
  · exact looksAhead_skip.bind fun _ => .pure _
  · exact looksAhead_skip.bind fun _ => .pure _
  · refine (looksAhead_expectName _).bind fun name => (looksAhead_accept "(").bind fun _ => ?_
    exact .ite ((looksAhead_arguments hexpression budget).bind fun _ => .pure _) (.pure _)

/-- So does a primary expression. -/
theorem looksAhead_primary (budget : Nat) : LooksAhead (primary expression budget) := by
  refine looksAhead_peek.bind fun front => ?_
  cases front with
  | none => exact looksAhead_fail _
  | some token =>
      dsimp only
      split
      · refine looksAhead_skip.bind fun _ => ?_
        split
        · exact .pure _
        · exact looksAhead_throw token
      · refine looksAhead_skip.bind fun _ => ?_
        split
        · exact .pure _
        · exact looksAhead_throw token
      · exact looksAhead_skip.bind fun _ => .pure _
      · exact looksAhead_skip.bind fun _ => .pure _
      · exact looksAhead_word hexpression budget token
      · refine (looksAhead_accept "(").bind fun _ => .ite ?_ (looksAhead_fail _)
        exact hexpression.bind fun _ => (looksAhead_expect _ _).bind fun _ => .pure _

/-- So do member accesses. -/
theorem looksAhead_members (budget : Nat) (receiver : Expr Offset) :
    LooksAhead (members expression budget receiver) := by
  induction budget generalizing receiver with
  | zero => exact .pure receiver
  | succ budget ih =>
      refine (looksAhead_accept ".").bind fun _ => .ite ?_ (.pure receiver)
      refine (looksAhead_expectName _).bind fun name => (looksAhead_accept "(").bind fun _ => ?_
      exact .ite ((looksAhead_arguments hexpression budget).bind fun _ => ih _) (ih _)

/-- So does an expression with its members. -/
theorem looksAhead_postfixChain (budget : Nat) : LooksAhead (postfixChain expression budget) :=
  (looksAhead_primary hexpression budget).bind fun receiver =>
    looksAhead_members hexpression budget receiver

end Expressions

/-- So do expressions. The induction is on the budget. -/
theorem looksAhead_expression (budget : Nat) : LooksAhead (expression budget) := by
  induction budget with
  | zero => exact looksAhead_fail _
  | succ budget ih =>
      have hmultiplicative :=
        looksAhead_operands .multiplicative (budget + 1) (looksAhead_postfixChain ih (budget + 1))
      have hadditive := looksAhead_operands .additive (budget + 1) hmultiplicative
      have hcomparison := looksAhead_operands .comparison (budget + 1) hadditive
      exact looksAhead_operands .logical (budget + 1) hcomparison

/-! ### Statements -/

/-- A part that is there if a word is, and what comes after it. -/
theorem looksAhead_optional (literal : String) {p q : Parser α} {f : α → Parser β}
    (hp : LooksAhead p) (hq : LooksAhead q) (hf : ∀ a, LooksAhead (f a)) :
    LooksAhead (do
      let a ← if ← accept literal then p else q
      f a) := by
  refine (looksAhead_accept literal).bind fun accepted => ?_
  cases accepted with
  | true => exact hp.bind hf
  | false => exact hq.bind hf

/-- A declaration looks one token ahead, for its type and for its value. -/
theorem looksAhead_declaration (budget : Nat) : LooksAhead (declaration budget) := by
  refine (looksAhead_expectName _).bind fun name => ?_
  refine looksAhead_optional ":" ((looksAhead_expectName _).map _) (.pure none) fun _ => ?_
  refine looksAhead_optional "=" ((looksAhead_expression budget).map _) (.pure none) fun _ => ?_
  exact .pure _

section Statements

variable {statement : Parser (Stmt Offset)} (hstatement : LooksAhead statement)

include hstatement

/-- A block looks one token ahead, for its end. -/
theorem looksAhead_block (terminators : List String) (budget : Nat) :
    LooksAhead (block terminators statement budget) := by
  induction budget with
  | zero => exact looksAhead_fail _
  | succ budget ih =>
      refine (looksAhead_atAny terminators).bind fun _ => .ite (.pure []) ?_
      refine looksAhead_peek.bind fun front => ?_
      cases front with
      | none => exact looksAhead_fail _
      | some _ => exact hstatement.bind fun _ => ih.bind fun _ => .pure _

/-- So does a conditional, for its second branch. -/
theorem looksAhead_conditional (mark : Offset) (budget : Nat) :
    LooksAhead (conditional mark statement budget) := by
  refine (looksAhead_expression budget).bind fun condition => ?_
  refine (looksAhead_expect _ _).bind fun _ => ?_
  refine (looksAhead_block hstatement _ budget).bind fun thenBody => ?_
  refine looksAhead_optional "ELSE" (looksAhead_block hstatement _ budget) (.pure []) fun _ => ?_
  exact (looksAhead_expect _ _).bind fun _ => .pure _

/-- So does a loop over a sequence. -/
theorem looksAhead_forLoop (mark : Offset) (budget : Nat) :
    LooksAhead (forLoop mark statement budget) := by
  refine (looksAhead_expectName _).bind fun name => (looksAhead_expect _ _).bind fun _ => ?_
  refine (looksAhead_expression budget).bind fun value => (looksAhead_expect _ _).bind fun _ => ?_
  refine (looksAhead_block hstatement _ budget).bind fun body => ?_
  exact (looksAhead_expect _ _).bind fun _ => .pure _

/-- So does a loop on a condition. -/
theorem looksAhead_whileLoop (mark : Offset) (budget : Nat) :
    LooksAhead (whileLoop mark statement budget) := by
  refine (looksAhead_expression budget).bind fun condition => ?_
  refine (looksAhead_expect _ _).bind fun _ => ?_
  refine (looksAhead_block hstatement _ budget).bind fun body => ?_
  exact (looksAhead_expect _ _).bind fun _ => .pure _

end Statements

/-- So does a statement that begins with an expression, for the equals sign. -/
theorem looksAhead_expressionStatement (mark : Offset) (budget : Nat) :
    LooksAhead (expressionStatement mark budget) := by
  refine (looksAhead_expression budget).bind fun target => (looksAhead_accept "=").bind fun _ => ?_
  refine .ite ((looksAhead_expression budget).bind fun value => ?_) ?_
  · exact (looksAhead_expect _ _).bind fun _ => .pure _
  · exact (looksAhead_expect _ _).bind fun _ => .pure _

/-- So does a statement. The induction is on the budget. -/
theorem looksAhead_statement (budget : Nat) : LooksAhead (statement budget) := by
  induction budget with
  | zero => exact looksAhead_fail _
  | succ budget ih =>
      refine looksAhead_peek.bind fun front => ?_
      cases front with
      | none => exact looksAhead_fail _
      | some token =>
          dsimp only
          split
          · refine looksAhead_skip.bind fun _ => (looksAhead_declaration _).bind fun _ => ?_
            exact (looksAhead_expect _ _).bind fun _ => .pure _
          · exact looksAhead_skip.bind fun _ => looksAhead_conditional ih _ _
          · exact looksAhead_skip.bind fun _ => looksAhead_forLoop ih _ _
          · exact looksAhead_skip.bind fun _ => looksAhead_whileLoop ih _ _
          · refine looksAhead_skip.bind fun _ => (looksAhead_expression _).bind fun _ => ?_
            exact (looksAhead_expect _ _).bind fun _ => .pure _
          · exact looksAhead_expressionStatement _ _

/-! ### Fields, methods and programs -/

/-- So do parameters that have begun. -/
theorem looksAhead_moreParameters (budget : Nat) : LooksAhead (moreParameters budget) := by
  induction budget with
  | zero => exact looksAhead_fail _
  | succ budget ih =>
      refine (looksAhead_expectName _).bind fun name => (looksAhead_expect _ _).bind fun _ => ?_
      refine (looksAhead_expectName _).bind fun type => (looksAhead_accept ",").bind fun _ => ?_
      exact .ite (ih.bind fun _ => .pure _) ((looksAhead_expect _ _).bind fun _ => .pure _)

/-- So does a method. -/
theorem looksAhead_method (mark : Offset) (budget : Nat) : LooksAhead (method mark budget) := by
  refine (looksAhead_expectName _).bind fun name => (looksAhead_expect _ _).bind fun _ => ?_
  refine looksAhead_optional ")" (.pure []) (looksAhead_moreParameters budget) fun _ => ?_
  refine looksAhead_optional ":" ((looksAhead_expectName _).map _) (.pure none) fun _ => ?_
  refine (looksAhead_expect _ _).bind fun _ => ?_
  refine (looksAhead_block (looksAhead_statement budget) _ budget).bind fun body => ?_
  exact (looksAhead_expect _ _).bind fun _ => .pure _

/-- So does a field. -/
theorem looksAhead_field (mark : Offset) (budget : Nat) : LooksAhead (field mark budget) :=
  (looksAhead_declaration budget).bind fun _ => (looksAhead_expect _ _).bind fun _ => .pure _

/-- So do items that begin with one word, for another one. -/
theorem looksAhead_many (literal : String) {item : Offset → Parser α}
    (hitem : ∀ mark, LooksAhead (item mark)) (budget : Nat) :
    LooksAhead (many literal item budget) := by
  induction budget with
  | zero => exact .pure []
  | succ budget ih =>
      refine looksAhead_peek.bind fun front => ?_
      cases front with
      | none => exact .pure []
      | some token =>
          dsimp only
          split
          · exact looksAhead_skip.bind fun _ => (hitem _).bind fun _ => ih.bind fun _ => .pure _
          · exact .pure []

/-- What the parser of programs does depends on the tokens that it takes and the
one behind them. -/
theorem looksAhead_program (budget : Nat) : LooksAhead (Parser.program budget) := by
  refine (looksAhead_many "LET" (looksAhead_field · budget) budget).bind fun fields => ?_
  refine (looksAhead_many "DEF" (looksAhead_method · budget) budget).bind fun methods => ?_
  refine looksAhead_peek.bind fun front => ?_
  cases front with
  | none => exact .pure _
  | some token => exact looksAhead_fail _

end PlcLang.Proofs
