import PlcLang.Proofs.Grammar.Lookahead

/-!
# `PlcLang.Proofs.Grammar.Progress`: tokens are taken

A parser that answers has taken a token, blocks and the repetitions that may not be
entered apart: `Takes`. A sequence takes a token if one of its parts does and the others
put none back, and no parser puts a token back (`LooksAhead.length_le`). Where the parser
has seen a token and drops it, it is enough to look at the lists that begin with that one
(`TakesAt`).

Nothing here asks where the tokens come from.
-/

set_option autoImplicit false

namespace PlcLang.Proofs

open PlcLang.Parser

variable {α β : Type}

/-! ### Taking tokens -/

/-- When `p` answers there are fewer tokens than before. -/
def Takes (p : Parser α) : Prop :=
  ∀ tokens a left, p tokens = .ok (a, left) → left.length < tokens.length

/-- A parser leaves no more tokens than there were. -/
theorem LooksAhead.length_le {p : Parser α} (hp : LooksAhead p) {tokens left : List Token} {a : α}
    (h : p tokens = .ok (a, left)) : left.length ≤ tokens.length := by
  obtain ⟨used, rfl, -⟩ := hp tokens left (.ok a) h
  rw [List.length_append]
  exact Nat.le_add_left _ _

/-- A sequence takes a token if its first part does. -/
theorem Takes.bind {p : Parser α} {f : α → Parser β} (hp : Takes p)
    (hf : ∀ a, LooksAhead (f a)) : Takes (p >>= f) := by
  intro tokens b left h
  obtain ⟨a, middle, ha, hb⟩ := bind_eq_ok.mp h
  exact Nat.lt_of_le_of_lt ((hf a).length_le hb) (hp tokens a middle ha)

/-- A failure gives no answer. -/
theorem takes_fail (what : Expectation) : Takes (fail what : Parser α) := by
  intro tokens a left h
  cases h

/-- A name that was expected is taken. -/
theorem takes_expectName (what : Expectation) : Takes (expectName what) := by
  intro tokens a left h
  cases tokens with
  | nil => simp at h
  | cons token rest =>
      rw [expectName_cons] at h
      split at h
      · obtain ⟨-, rfl⟩ : token.literal = a ∧ rest = left := by simpa using h
        exact Nat.lt_succ_self rest.length
      · simp at h

/-- A word that is accepted is taken. -/
theorem length_lt_of_accept {literal : String} {tokens left : List Token}
    (h : accept literal tokens = .ok (true, left)) : left.length < tokens.length := by
  cases tokens with
  | nil => simp at h
  | cons token rest =>
      rw [accept_cons] at h
      split at h
      · obtain rfl : rest = left := by simpa using h
        exact Nat.lt_succ_self rest.length
      · simp at h

/-- An operator that is accepted is taken. -/
theorem length_lt_of_acceptOperator {precedence : Precedence} {tokens left : List Token}
    {op : BinaryOp} (h : acceptOperator precedence tokens = .ok (some op, left)) :
    left.length < tokens.length := by
  cases tokens with
  | nil => simp at h
  | cons token rest =>
      rw [acceptOperator_cons] at h
      split at h
      · obtain ⟨-, rfl⟩ : BinaryOp.ofSymbol token.literal = op ∧ rest = left := by simpa using h
        exact Nat.lt_succ_self rest.length
      · simp at h

/-- A part behind an accepted word takes a token: the word. -/
theorem Takes.accept {literal : String} {f : Bool → Parser β} (htrue : LooksAhead (f true))
    (hfalse : Takes (f false)) : Takes (accept literal >>= f) := by
  intro tokens b left h
  obtain ⟨accepted, middle, ha, hb⟩ := bind_eq_ok.mp h
  cases accepted with
  | true => exact Nat.lt_of_le_of_lt (htrue.length_le hb) (length_lt_of_accept ha)
  | false =>
      exact Nat.lt_of_lt_of_le (hfalse _ _ _ hb) ((looksAhead_accept literal).length_le ha)

/-- `Takes` for the lists that begin with `token`. -/
def TakesAt (token : Token) (p : Parser α) : Prop :=
  ∀ more a left, p (token :: more) = .ok (a, left) → left.length < (token :: more).length

/-- What takes a token takes one from these lists. -/
theorem Takes.at {p : Parser α} (h : Takes p) (token : Token) : TakesAt token p :=
  fun more => h (token :: more)

/-- Looking at a token takes none, so what comes next has to. -/
theorem takes_peek {f : Option Token → Parser β} (hnone : Takes (f none))
    (hsome : ∀ token, TakesAt token (f (some token))) : Takes (peek >>= f) := by
  intro tokens b left h
  obtain ⟨front, middle, hpeek, hb⟩ := bind_eq_ok.mp h
  obtain ⟨rfl, rfl⟩ : tokens.head? = front ∧ tokens = middle := by simpa [peek] using hpeek
  cases tokens with
  | nil => exact hnone _ _ _ hb
  | cons token more => exact hsome token more b left hb

/-- Dropping the token in front takes it. -/
theorem takesAt_skip {token : Token} {p : Parser β} (hp : LooksAhead p) :
    TakesAt token (skip >>= fun _ => p) := by
  intro more b left h
  obtain ⟨_, middle, hskip, hb⟩ := bind_eq_ok.mp h
  obtain rfl : more = middle := by simpa [skip_cons] using hskip
  exact Nat.lt_succ_of_le (hp.length_le hb)

section Expressions

variable {expression : Parser (Expr Offset)} (hexpression : LooksAhead expression)

include hexpression

/-- A word takes its own token. -/
theorem takesAt_word (budget : Nat) (token : Token) :
    TakesAt token (word expression budget token) := by
  unfold word
  rw [present_bind]
  split
  · exact takesAt_skip (.pure _)
  · exact takesAt_skip (.pure _)
  · exact takesAt_skip (.pure _)
  · refine ((takes_expectName _).bind fun name => ?_).at token
    refine (looksAhead_accept "(").bind fun _ => .ite ?_ (.pure _)
    exact (looksAhead_arguments hexpression budget).bind fun _ => .pure _

/-- A primary expression takes a token, by the kind of the first one. -/
theorem takes_primary (budget : Nat) : Takes (primary expression budget) := by
  refine takes_peek (takes_fail _) fun token => ?_
  dsimp only
  split
  · refine takesAt_skip ?_
    split
    · exact .pure _
    · exact looksAhead_throw token
  · refine takesAt_skip ?_
    split
    · exact .pure _
    · exact looksAhead_throw token
  · exact takesAt_skip (.pure _)
  · exact takesAt_skip (.pure _)
  · exact takesAt_word hexpression budget token
  · refine (Takes.accept ?_ (takes_fail _)).at token
    exact hexpression.bind fun _ => (looksAhead_expect _ _).bind fun _ => .pure _

/-- Arguments that have begun take a token. -/
theorem takes_moreArguments (htakes : Takes expression) (budget : Nat) :
    Takes (moreArguments expression budget) := by
  cases budget with
  | zero => exact takes_fail _
  | succ budget =>
      refine htakes.bind fun argument => (looksAhead_accept ",").bind fun _ => .ite ?_ ?_
      · exact (looksAhead_moreArguments hexpression budget).bind fun _ => .pure _
      · exact (looksAhead_expect _ _).bind fun _ => .pure _

/-- Arguments take a token: the closing parenthesis at least. -/
theorem takes_arguments (htakes : Takes expression) (budget : Nat) :
    Takes (arguments expression budget) :=
  .accept (.pure []) (takes_moreArguments hexpression htakes budget)

/-- An expression with its members takes a token. -/
theorem takes_postfixChain (budget : Nat) : Takes (postfixChain expression budget) :=
  (takes_primary hexpression budget).bind fun receiver =>
    looksAhead_members hexpression budget receiver

end Expressions

/-- Operands of one level take a token: the first operand does. -/
theorem takes_operands (precedence : Precedence) (budget : Nat) {operand : Parser (Expr Offset)}
    (hoperand : LooksAhead operand) (htakes : Takes operand) :
    Takes (operands precedence budget operand) :=
  htakes.bind fun left => looksAhead_chain precedence hoperand budget left

/-- Operands of these levels, where those of the last one are `operand`. The parser
of expressions is built up like this from its four levels. -/
def tiers (budget : Nat) (operand : Parser (Expr Offset)) :
    List Precedence → Parser (Expr Offset)
  | [] => operand
  | precedence :: tighter => operands precedence budget (tiers budget operand tighter)

/-- Levels look one token ahead if the innermost one does. -/
theorem looksAhead_tiers {operand : Parser (Expr Offset)} (hoperand : LooksAhead operand)
    (budget : Nat) (levels : List Precedence) : LooksAhead (tiers budget operand levels) := by
  induction levels with
  | nil => exact hoperand
  | cons precedence tighter ih => exact looksAhead_operands precedence budget ih

/-- Levels take a token if the innermost one does. -/
theorem takes_tiers {operand : Parser (Expr Offset)} (hlooks : LooksAhead operand)
    (htakes : Takes operand) (budget : Nat) (levels : List Precedence) :
    Takes (tiers budget operand levels) := by
  induction levels with
  | nil => exact htakes
  | cons precedence tighter ih =>
      exact takes_operands precedence budget (looksAhead_tiers hlooks budget tighter) ih

/-- An expression begins with a primary one, whatever its operators are. -/
theorem takes_expression (budget : Nat) : Takes (expression budget) := by
  cases budget with
  | zero => exact takes_fail _
  | succ budget =>
      have hlooks := looksAhead_expression budget
      exact takes_tiers (looksAhead_postfixChain hlooks _) (takes_postfixChain hlooks _) _
        [.logical, .comparison, .additive, .multiplicative]

/-- A declaration takes its name. -/
theorem takes_declaration (budget : Nat) : Takes (declaration budget) := by
  refine (takes_expectName _).bind fun name => ?_
  refine looksAhead_optional ":" ((looksAhead_expectName _).map _) (.pure none) fun _ => ?_
  refine looksAhead_optional "=" ((looksAhead_expression budget).map _) (.pure none) fun _ => ?_
  exact .pure _

/-- A statement takes its first word, or it begins with an expression. -/
theorem takes_statement (budget : Nat) : Takes (statement budget) := by
  cases budget with
  | zero => exact takes_fail _
  | succ budget =>
      have hstatement := looksAhead_statement budget
      refine takes_peek (takes_fail _) fun token => ?_
      dsimp only
      split
      · refine takesAt_skip ((looksAhead_declaration _).bind fun _ => ?_)
        exact (looksAhead_expect _ _).bind fun _ => .pure _
      · exact takesAt_skip (looksAhead_conditional hstatement _ _)
      · exact takesAt_skip (looksAhead_forLoop hstatement _ _)
      · exact takesAt_skip (looksAhead_whileLoop hstatement _ _)
      · refine takesAt_skip ((looksAhead_expression _).bind fun _ => ?_)
        exact (looksAhead_expect _ _).bind fun _ => .pure _
      · refine ((takes_expression _).bind fun target => ?_).at token
        refine (looksAhead_accept "=").bind fun _ => .ite ?_ ?_
        · refine (looksAhead_expression _).bind fun _ => ?_
          exact (looksAhead_expect _ _).bind fun _ => .pure _
        · exact (looksAhead_expect _ _).bind fun _ => .pure _

/-- Parameters that have begun take a name. -/
theorem takes_moreParameters (budget : Nat) : Takes (moreParameters budget) := by
  cases budget with
  | zero => exact takes_fail _
  | succ budget =>
      refine (takes_expectName _).bind fun name => (looksAhead_expect _ _).bind fun _ => ?_
      refine (looksAhead_expectName _).bind fun type => (looksAhead_accept ",").bind fun _ => ?_
      refine .ite ((looksAhead_moreParameters budget).bind fun _ => .pure _) ?_
      exact (looksAhead_expect _ _).bind fun _ => .pure _

end PlcLang.Proofs
