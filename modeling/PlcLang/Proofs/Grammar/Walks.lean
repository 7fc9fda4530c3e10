import PlcLang.Proofs.Grammar.Progress
import PlcLang.Proofs.Grammar.Unbounded

/-!
# `PlcLang.Proofs.Grammar.Walks`: the parser is found without its budget

A walk of `Parser.Unbounded` and the function of the parser that it is named for end
alike (`EndsAs`): both answer, and what the one has left is what stands behind the
position of the other, or both fail, for the same reason and at the same place. They do
so wherever the budget is larger than the number of tokens that are left
(`FollowsBelow`), for each unit of it is spent behind a token. A walk that is begun
where a token is left follows a parser that is given that token (`FollowsAt`).

So a walk from the first token ends, and where it ends depends on no budget:
`program_eq_of_length_lt`. Nothing here asks where the tokens come from.
-/

set_option autoImplicit false

namespace PlcLang.Proofs

open PlcLang.Parser
open Unbounded (Walk Impasse)

variable {α β : Type} {tokens : List Token}

/-! ### How a walk ends -/

/-- The token is of a number kind and its text is no number. Only such a token can
be an obstacle that is no expectation. -/
def Malformed (token : Token) : Prop :=
  token.kind = .integer ∧ readInteger? token.literal = none
    ∨ token.kind = .decimal ∧ Decimal.read? token.literal = none

/-- A walk from `start` ends as a parser does that is given the tokens from there on.
It does not go back and it does not leave the tokens. -/
inductive EndsAs (tokens : List Token) (start : Nat) :
    Except Obstacle (α × List Token) → Option (Except Impasse (α × Nat)) → Prop where
  | answer (a : α) {position : Nat} (hle : start ≤ position)
      (hinside : position ≤ tokens.length) :
      EndsAs tokens start (.ok (a, tokens.drop position)) (some (.ok (a, position)))
  | unmet (what : Expectation) {position : Nat} (hinside : position ≤ tokens.length) :
      EndsAs tokens start (.error (.expected what (tokens.drop position)))
        (some (.error (.unmet what position)))
  | malformedNumber {token : Token} (hmem : token ∈ tokens) (h : Malformed token) :
      EndsAs tokens start (.error (.malformedNumber token))
        (some (.error (.malformedNumber token)))

/-- A walk from an earlier position that gets to `start` ends as the parser does
too. -/
theorem EndsAs.of_le {start earlier : Nat} {outcome : Except Obstacle (α × List Token)}
    {ending : Option (Except Impasse (α × Nat))} (h : EndsAs tokens start outcome ending)
    (hle : earlier ≤ start) : EndsAs tokens earlier outcome ending := by
  cases h with
  | answer a hmove hinside => exact .answer a (Nat.le_trans hle hmove) hinside
  | unmet what hinside => exact .unmet what hinside
  | malformedNumber hmem h => exact .malformedNumber hmem h

/-- One ending of a walk is followed by one outcome only. So two parsers that a walk
follows from one position have the same outcome there. -/
theorem EndsAs.unique {start : Nat} {outcome outcome' : Except Obstacle (α × List Token)}
    {ending : Option (Except Impasse (α × Nat))} (h : EndsAs tokens start outcome ending)
    (h' : EndsAs tokens start outcome' ending) : outcome = outcome' := by
  cases h <;> cases h' <;> rfl

/-- The second part of a walk goes on where the first one has got to. -/
theorem walk_bind_of_answer {q : Walk α} {g : α → Walk β} {position after : Nat} {a : α}
    (h : q position = some (.ok (a, after))) : (q >>= g) position = g a after := by
  show Option.bind (q position) _ = _
  rw [h]
  rfl

/-- A walk ends where its first part gets no further, and for the same reason. -/
theorem walk_bind_of_impasse {q : Walk α} {g : α → Walk β} {position : Nat} {impasse : Impasse}
    (h : q position = some (.error impasse)) :
    (q >>= g) position = some (.error impasse) := by
  show Option.bind (q position) _ = _
  rw [h]
  rfl

/-! ### Walks that follow a parser -/

variable {position bound budget : Nat} {token : Token} {p : Parser α} {q : Walk α}

/-- From this position the walk ends as the parser does that is given the tokens
from there on. -/
def FollowsFrom (tokens : List Token) (position : Nat) (p : Parser α) (q : Walk α) : Prop :=
  EndsAs tokens position (p (tokens.drop position)) (q position)

/-- The walk follows the parser wherever fewer than `bound` tokens are left. The
bound is what a budget is compared with. -/
def FollowsBelow (tokens : List Token) (bound : Nat) (p : Parser α) (q : Walk α) : Prop :=
  ∀ position, position ≤ tokens.length → tokens.length < position + bound →
    FollowsFrom tokens position p q

/-- `FollowsBelow` for the positions of one token. Functions of the parser that are
given their first token are begun at such a position only. -/
def FollowsAt (tokens : List Token) (bound : Nat) (token : Token) (p : Parser α) (q : Walk α) :
    Prop :=
  ∀ position, tokens[position]? = some token → tokens.length < position + bound →
    FollowsFrom tokens position p q

/-- A token that is there stands in front of the tokens behind it. -/
theorem drop_eq_cons (h : tokens[position]? = some token) :
    tokens.drop position = token :: tokens.drop (position + 1) := by
  obtain ⟨hlt, rfl⟩ := List.getElem?_eq_some_iff.mp h
  exact List.drop_eq_getElem_cons hlt

/-- A position where there is a token is within the tokens. -/
theorem lt_of_getElem? (h : tokens[position]? = some token) : position < tokens.length :=
  (List.getElem?_eq_some_iff.mp h).1

/-- Where there is no token, none is left. -/
theorem drop_eq_nil (h : tokens[position]? = none) : tokens.drop position = [] :=
  List.drop_eq_nil_of_le (List.getElem?_eq_none_iff.mp h)

/-- Where fewer tokens are left is further on. -/
theorem lt_of_length_drop_lt {after : Nat}
    (h : (tokens.drop after).length < (tokens.drop position).length) : position < after := by
  rw [List.length_drop, List.length_drop] at h
  omega

/-- A sequence from one position. The second walk is begun where the first one has
got to, and may rely on what the first parser has answered there. -/
theorem FollowsFrom.bind {f : α → Parser β} {g : α → Walk β}
    (h : FollowsFrom tokens position p q)
    (hf : ∀ a after, position ≤ after → after ≤ tokens.length →
      p (tokens.drop position) = .ok (a, tokens.drop after) →
      FollowsFrom tokens after (f a) (g a)) :
    FollowsFrom tokens position (p >>= f) (q >>= g) := by
  unfold FollowsFrom at h
  show EndsAs tokens position
    (p (tokens.drop position) >>= fun answer => f answer.1 answer.2) ((q >>= g) position)
  generalize houtcome : p (tokens.drop position) = outcome at h ⊢
  generalize hending : q position = ending at h
  cases h with
  | answer a hle hinside =>
      rw [walk_bind_of_answer hending]
      exact (hf a _ hle hinside houtcome).of_le hle
  | unmet what hinside =>
      rw [walk_bind_of_impasse hending]
      exact .unmet what hinside
  | malformedNumber hmem h =>
      rw [walk_bind_of_impasse hending]
      exact .malformedNumber hmem h

namespace FollowsBelow

variable {f : α → Parser β} {g : α → Walk β}

/-- Any walk follows any parser where fewer than no tokens are left: there is no
such position. -/
theorem zero (p : Parser α) (q : Walk α) : FollowsBelow tokens 0 p q :=
  fun _ hinside hleft => absurd hleft (Nat.not_lt_of_le hinside)

/-- A walk that follows a parser below a bound does so below a smaller one. -/
theorem mono {lower : Nat} (h : FollowsBelow tokens bound p q) (hle : lower ≤ bound) :
    FollowsBelow tokens lower p q :=
  fun position hinside hleft => h position hinside (by omega)

/-- A walk that follows a parser wherever it is begun does so at a token. -/
theorem «at» (h : FollowsBelow tokens bound p q) (token : Token) :
    FollowsAt tokens bound token p q :=
  fun position htoken hleft => h position (Nat.le_of_lt (lt_of_getElem? htoken)) hleft

/-- Both answer at once and stay where they are. -/
theorem pure (a : α) : FollowsBelow tokens bound (pure a) (pure a) :=
  fun _ hinside _ => .answer a (Nat.le_refl _) hinside

/-- Both fail at once on the same expectation, and the position is that of the
tokens that are left. -/
theorem fail (what : Expectation) :
    FollowsBelow tokens bound (fail what : Parser α) (Unbounded.fail what) :=
  fun _ hinside _ => .unmet what hinside

/-- A sequence, where nothing is known of how far the first part has gone. -/
theorem bind (h : FollowsBelow tokens bound p q)
    (hf : ∀ a, FollowsBelow tokens bound (f a) (g a)) :
    FollowsBelow tokens bound (p >>= f) (q >>= g) :=
  fun position hinside hleft => (h position hinside hleft).bind
    fun a after hle hafter _ => hf a after hafter (by omega)

/-- Behind a parser that takes a token there is one token less. So the second part
needs a smaller bound, and with it a smaller budget. -/
theorem bind_takes (hp : Takes p) (h : FollowsBelow tokens (bound + 1) p q)
    (hf : ∀ a, FollowsBelow tokens bound (f a) (g a)) :
    FollowsBelow tokens (bound + 1) (p >>= f) (q >>= g) :=
  fun position hinside hleft => (h position hinside hleft).bind
    fun a after _ hafter hanswer => by
      have hless := lt_of_length_drop_lt (hp _ _ _ hanswer)
      exact hf a after hafter (by omega)

/-- Changing the answers of both in the same way changes nothing else. -/
theorem map (h : FollowsBelow tokens bound p q) (f : α → β) :
    FollowsBelow tokens bound (f <$> p) (f <$> q) :=
  h.bind fun a => .pure (f a)

/-- Both go the same way. -/
theorem ite {accepted : Bool} {p' : Parser α} {q' : Walk α} (h : FollowsBelow tokens bound p q)
    (h' : FollowsBelow tokens bound p' q') :
    FollowsBelow tokens bound (if accepted then p else p') (if accepted then q else q') := by
  cases accepted with
  | true => exact h
  | false => exact h'

end FollowsBelow

/-- A loop. Each time round it takes a token and a unit of its budget, so it is
enough to go round once, with what is left behind one token for the rest. -/
theorem FollowsBelow.loop {ι : Type} {p : Nat → ι → Parser α} {q : ι → Walk α}
    (h : ∀ less budget i, less < bound → less ≤ budget →
      (∀ i, FollowsBelow tokens less (p budget i) (q i)) →
        FollowsBelow tokens (less + 1) (p (budget + 1) i) (q i))
    (hle : bound ≤ budget) (i : ι) : FollowsBelow tokens bound (p budget i) (q i) := by
  -- The induction is on the budget. The bound falls with it, so where the budget is used
  -- up no token is left.
  have hupto (budget : Nat) : ∀ less, less ≤ bound → less ≤ budget → ∀ i,
      FollowsBelow tokens less (p budget i) (q i) := by
    induction budget with
    | zero =>
        intro less _ hnone i
        obtain rfl : less = 0 := Nat.le_zero.mp hnone
        exact .zero _ _
    | succ budget ih =>
        intro less hbound hle i
        cases less with
        | zero => exact .zero _ _
        | succ less =>
            have hless : less ≤ budget := Nat.le_of_succ_le_succ hle
            exact h less budget i hbound hless (ih less (Nat.le_of_lt hbound) hless)
  exact hupto budget bound (Nat.le_refl _) hle i

/-- A token that a walk is begun at is among the tokens. A number that cannot be
read needs to be. -/
theorem followsAt_of_mem (h : token ∈ tokens → FollowsAt tokens bound token p q) :
    FollowsAt tokens bound token p q :=
  fun position htoken hleft => h (List.mem_of_getElem? htoken) position htoken hleft

namespace FollowsAt

variable {f : α → Parser β} {g : α → Walk β}

/-- A walk that follows a parser at a token below a bound does so below a smaller
one. -/
theorem mono {lower : Nat} (h : FollowsAt tokens bound token p q) (hle : lower ≤ bound) :
    FollowsAt tokens lower token p q :=
  fun position htoken hleft => h position htoken (by omega)

/-- Behind a parser that takes the token in front there is one token less. -/
theorem bind_takes (hp : TakesAt token p) (h : FollowsAt tokens (bound + 1) token p q)
    (hf : ∀ a, FollowsBelow tokens bound (f a) (g a)) :
    FollowsAt tokens (bound + 1) token (p >>= f) (q >>= g) :=
  fun position htoken hleft => (h position htoken hleft).bind
    fun a after _ hafter hanswer => by
      rw [drop_eq_cons htoken] at hanswer
      have hless := hp _ _ _ hanswer
      rw [← drop_eq_cons htoken] at hless
      have hafter' := lt_of_length_drop_lt hless
      exact hf a after hafter (by omega)

end FollowsAt

/-! ### Single tokens -/

/-- What is done with a token that is there. The walk has not looked at it yet, or has
already done so. -/
theorem followsAt_peek {f : Option Token → Parser α}
    (h : FollowsAt tokens bound token (f (some token)) q) :
    FollowsAt tokens bound token (peek >>= f) q := by
  intro position htoken hleft
  show EndsAs tokens position (f (tokens.drop position).head? (tokens.drop position)) _
  rw [List.head?_drop, htoken]
  exact h position htoken hleft

/-- What is done with the next token, if there is one. Both look at the same token
and take nothing. -/
theorem followsBelow_peek {f : Option Token → Parser α} {g : Option Token → Walk α}
    (hnone : FollowsBelow tokens bound (f none) (g none))
    (hsome : ∀ token, FollowsAt tokens bound token (f (some token)) (g (some token))) :
    FollowsBelow tokens bound (peek >>= f) (Unbounded.peek tokens >>= g) := by
  intro position hinside hleft
  show EndsAs tokens position (f (tokens.drop position).head? (tokens.drop position))
    (g tokens[position]? position)
  rw [List.head?_drop]
  cases h : tokens[position]? with
  | none => exact hnone position hinside hleft
  | some token => exact hsome token position h hleft

/-- The token at the position is seen, and the walk stays there. -/
theorem peek_of_some (h : tokens[position]? = some token) :
    Unbounded.peek tokens position = some (.ok (some token, position)) :=
  h ▸ rfl

/-- Behind the last token none is seen. -/
theorem peek_of_none (h : tokens[position]? = none) :
    Unbounded.peek tokens position = some (.ok (none, position)) :=
  h ▸ rfl

/-- The token at the position is there, and the walk stays before it. -/
theorem current_of_some (h : tokens[position]? = some token) :
    Unbounded.current tokens position = some (.ok (token, position)) := by
  rw [Unbounded.current, walk_bind_of_answer (peek_of_some h)]
  rfl

/-- A token that must be there and is not is a breakdown. -/
theorem current_of_none (h : tokens[position]? = none) :
    Unbounded.current tokens position = some (.error .breakdown) := by
  rw [Unbounded.current, walk_bind_of_answer (peek_of_none h)]
  rfl

/-- The token at the position is taken, and the walk goes one on. -/
theorem advance_of_some (h : tokens[position]? = some token) :
    Unbounded.advance tokens position = some (.ok (token, position + 1)) := by
  rw [Unbounded.advance, walk_bind_of_answer (current_of_some h)]
  rfl

/-- A token that is there can be looked at, so the look is no breakdown. -/
theorem followsAt_current {g : Token → Walk α} (h : FollowsAt tokens bound token p (g token)) :
    FollowsAt tokens bound token p (Unbounded.current tokens >>= g) := by
  intro position htoken hleft
  unfold FollowsFrom
  rw [walk_bind_of_answer (current_of_some htoken)]
  exact h position htoken hleft

/-- A token that is there can be taken, and then there is one token less. -/
theorem followsAt_advance {g : Token → Walk α} (h : FollowsBelow tokens bound p (g token)) :
    FollowsAt tokens (bound + 1) token (skip >>= fun _ => p) (Unbounded.advance tokens >>= g) := by
  intro position htoken hleft
  unfold FollowsFrom
  rw [walk_bind_of_answer (advance_of_some htoken), drop_eq_cons htoken]
  show EndsAs tokens position (p (tokens.drop (position + 1))) _
  have hinside := lt_of_getElem? htoken
  exact (h (position + 1) hinside (by omega)).of_le (Nat.le_succ position)

/-- Whether the token at the position has one of the texts. -/
theorem atAny_of_some (literals : List String) (h : tokens[position]? = some token) :
    Unbounded.atAny tokens literals position
      = some (.ok (literals.contains token.literal, position)) := by
  rw [Unbounded.atAny, walk_bind_of_answer (peek_of_some h)]
  rfl

/-- Behind the last token there is no text. -/
theorem atAny_of_none (literals : List String) (h : tokens[position]? = none) :
    Unbounded.atAny tokens literals position = some (.ok (false, position)) := by
  rw [Unbounded.atAny, walk_bind_of_answer (peek_of_none h)]
  rfl

/-- Both look for the texts at the same token, and take nothing. -/
theorem followsBelow_atAny (literals : List String) :
    FollowsBelow tokens bound (atAny literals) (Unbounded.atAny tokens literals) := by
  intro position hinside _
  unfold FollowsFrom
  cases h : tokens[position]? with
  | none =>
      rw [atAny_of_none literals h, drop_eq_nil h, atAny, ← drop_eq_nil h]
      exact .answer false (Nat.le_refl _) hinside
  | some token =>
      rw [atAny_of_some literals h, drop_eq_cons h, atAny, ← drop_eq_cons h]
      exact .answer _ (Nat.le_refl _) hinside

/-- Looking before taking is the same as both at once. -/
theorem followsBelow_accept (literal : String) :
    FollowsBelow tokens bound (accept literal) (Unbounded.accept tokens literal) := by
  intro position hinside _
  unfold FollowsFrom
  rw [Unbounded.accept]
  cases h : tokens[position]? with
  | none =>
      rw [walk_bind_of_answer (atAny_of_none [literal] h), drop_eq_nil h, accept_nil,
        ← drop_eq_nil h]
      exact .answer false (Nat.le_refl _) hinside
  | some token =>
      rw [walk_bind_of_answer (atAny_of_some [literal] h), drop_eq_cons h, accept_cons]
      by_cases hliteral : token.literal = literal
      · rw [if_pos hliteral, if_pos (by simp [hliteral]), walk_bind_of_answer (advance_of_some h)]
        exact .answer true (Nat.le_succ _) (lt_of_getElem? h)
      · rw [if_neg hliteral, if_neg (by simp [hliteral]), ← drop_eq_cons h]
        exact .answer false (Nat.le_refl _) hinside

/-- Behind a word that is accepted there is one token less, and where it is not
there nothing has been taken. So the two ways on have different bounds. -/
theorem followsBelow_accept_bind {literal : String} {f : Bool → Parser β} {g : Bool → Walk β}
    (htrue : FollowsBelow tokens bound (f true) (g true))
    (hfalse : FollowsBelow tokens (bound + 1) (f false) (g false)) :
    FollowsBelow tokens (bound + 1) (accept literal >>= f)
      (Unbounded.accept tokens literal >>= g) := by
  intro position hinside hleft
  refine (followsBelow_accept literal position hinside hleft).bind fun accepted after hle hafter
    hanswer => ?_
  cases accepted with
  | true =>
      have hless := lt_of_length_drop_lt (length_lt_of_accept hanswer)
      exact htrue after hafter (by omega)
  | false => exact hfalse after hafter (by omega)

/-- Both take an expected word, or fail where it should be. -/
theorem followsBelow_expect (literal role : String) :
    FollowsBelow tokens bound (expect literal role) (Unbounded.expect tokens literal role) := by
  unfold expect
  exact (followsBelow_accept literal).bind fun accepted => .ite (.pure ()) (.fail _)

/-- Both take an expected name, or fail where it should be. -/
theorem followsBelow_expectName (what : Expectation) :
    FollowsBelow tokens bound (expectName what) (Unbounded.expectName tokens what) := by
  intro position hinside _
  unfold FollowsFrom
  rw [Unbounded.expectName]
  cases h : tokens[position]? with
  | none =>
      rw [walk_bind_of_answer (peek_of_none h), drop_eq_nil h, expectName_nil, ← drop_eq_nil h]
      exact .unmet what hinside
  | some token =>
      rw [walk_bind_of_answer (peek_of_some h), drop_eq_cons h, expectName_cons]
      dsimp only
      by_cases hname : token.isName = true
      · rw [if_pos hname, if_pos hname, walk_bind_of_answer (advance_of_some h)]
        exact .answer token.literal (Nat.le_succ _) (lt_of_getElem? h)
      · rw [if_neg hname, if_neg hname, ← drop_eq_cons h]
        exact .unmet what hinside

/-- Both take an operator of the precedence, or nothing. -/
theorem followsBelow_acceptOperator (precedence : Precedence) :
    FollowsBelow tokens bound (acceptOperator precedence)
      (Unbounded.acceptOperator tokens precedence) := by
  intro position hinside _
  unfold FollowsFrom
  rw [Unbounded.acceptOperator]
  cases h : tokens[position]? with
  | none =>
      rw [walk_bind_of_answer (peek_of_none h), drop_eq_nil h, acceptOperator_nil, ← drop_eq_nil h]
      exact .answer none (Nat.le_refl _) hinside
  | some token =>
      rw [walk_bind_of_answer (peek_of_some h), drop_eq_cons h, acceptOperator_cons]
      dsimp only
      by_cases hop : (BinaryOp.ofSymbol token.literal).precedence? = some precedence
      · rw [if_pos hop, if_pos hop, walk_bind_of_answer (advance_of_some h)]
        exact .answer (some _) (Nat.le_succ _) (lt_of_getElem? h)
      · rw [if_neg hop, if_neg hop, ← drop_eq_cons h]
        exact .answer none (Nat.le_refl _) hinside

/-- Behind an operator that is accepted there is one token less. -/
theorem followsBelow_acceptOperator_bind {precedence : Precedence}
    {f : Option BinaryOp → Parser β} {g : Option BinaryOp → Walk β}
    (hsome : ∀ op, FollowsBelow tokens bound (f (some op)) (g (some op)))
    (hnone : FollowsBelow tokens (bound + 1) (f none) (g none)) :
    FollowsBelow tokens (bound + 1) (acceptOperator precedence >>= f)
      (Unbounded.acceptOperator tokens precedence >>= g) := by
  intro position hinside hleft
  refine (followsBelow_acceptOperator precedence position hinside hleft).bind fun op? after hle
    hafter hanswer => ?_
  cases op? with
  | some op =>
      have hless := lt_of_length_drop_lt (length_lt_of_acceptOperator hanswer)
      exact hsome op after hafter (by omega)
  | none => exact hnone after hafter (by omega)

/-- A token whose text is a number is answered with it. -/
theorem number_of_some {read? : String → Option α} {a : α} (h : read? token.literal = some a) :
    Unbounded.number read? token = pure a := by
  rw [Unbounded.number, h]

/-- Both end at a token of the list that is no number, and name it. -/
theorem followsBelow_number_of_none {read? : String → Option β} {g : β → Walk α}
    (hread : read? token.literal = none) (hmem : token ∈ tokens) (h : Malformed token) :
    FollowsBelow tokens bound (throw (.malformedNumber token))
      (Unbounded.number read? token >>= g) := by
  intro position _ _
  rw [Unbounded.number, hread]
  exact .malformedNumber hmem h

/-! ### Expressions -/

section Expressions

variable {expression : Parser (Expr Offset)}

/-- The loop over operators of one precedence: each time round takes an operator. -/
theorem followsBelow_chain (precedence : Precedence) {levels : List Precedence}
    {operand : Parser (Expr Offset)}
    (hoperand : FollowsBelow tokens bound operand (Unbounded.binary tokens levels))
    (hle : bound ≤ budget) (left : Expr Offset) :
    FollowsBelow tokens bound (chain precedence operand budget left)
      (Unbounded.chain tokens precedence levels left) := by
  refine FollowsBelow.loop (p := chain precedence operand)
    (q := Unbounded.chain tokens precedence levels) (fun less budget left hless _ ih => ?_) hle left
  rw [Unbounded.chain]
  refine followsBelow_acceptOperator_bind (fun op => ?_) (.pure left)
  exact (hoperand.mono (Nat.le_of_lt hless)).bind fun right => ih _

variable (hexpression : FollowsBelow tokens bound expression (Unbounded.expression tokens))

include hexpression

/-- A list of arguments that has begun: each time round takes a comma. -/
theorem followsBelow_moreArguments (hle : bound ≤ budget) :
    FollowsBelow tokens bound (moreArguments expression budget)
      (Unbounded.moreArguments tokens) := by
  refine FollowsBelow.loop (p := fun budget (_ : Unit) => moreArguments expression budget)
    (q := fun _ => Unbounded.moreArguments tokens) (fun less budget _ hless _ ih => ?_) hle ()
  rw [Unbounded.moreArguments]
  refine (hexpression.mono hless).bind fun argument => followsBelow_accept_bind ?_ ?_
  · exact (ih ()).bind fun more => .pure _
  · exact (followsBelow_expect _ _).bind fun _ => .pure _

/-- Arguments behind their opening parenthesis. -/
theorem followsBelow_arguments (hle : bound ≤ budget) :
    FollowsBelow tokens bound (arguments expression budget) (Unbounded.arguments tokens) := by
  rw [Unbounded.arguments]
  exact (followsBelow_accept ")").bind fun _ =>
    .ite (.pure []) (followsBelow_moreArguments hexpression hle)

/-- A word where an expression begins. It is taken before the arguments of a call,
so these have one token less. -/
theorem followsAt_word (hle : bound ≤ budget) (token : Token) :
    FollowsAt tokens (bound + 1) token (word expression budget token)
      (Unbounded.word tokens) := by
  rw [Unbounded.word]
  refine followsAt_current ?_
  unfold word
  rw [present_bind]
  split
  · next h =>
      rw [if_pos h]
      exact followsAt_advance (.pure _)
  · next h =>
      simp only [h, String.reduceEq, ↓reduceIte]
      exact followsAt_advance (.pure _)
  · next h =>
      simp only [h, String.reduceEq, ↓reduceIte]
      exact followsAt_advance (.pure _)
  · next hnil htrue hfalse =>
      rw [if_neg hnil, if_neg htrue, if_neg hfalse]
      refine (FollowsBelow.bind_takes (takes_expectName _) (followsBelow_expectName _) fun name =>
        ?_).at token
      refine (followsBelow_accept "(").bind fun _ => .ite ?_ (.pure _)
      exact (followsBelow_arguments hexpression hle).bind fun _ => .pure _

/-- An expression without operators and member accesses. What stands in parentheses
has one token less. -/
theorem followsBelow_primary (hle : bound ≤ budget) :
    FollowsBelow tokens (bound + 1) (primary expression budget) (Unbounded.primary tokens) := by
  rw [Unbounded.primary]
  refine followsBelow_peek (.fail _) fun token => ?_
  dsimp only
  cases hkind : token.kind with
  | integer =>
      refine followsAt_of_mem fun hmem => followsAt_advance ?_
      cases hread : readInteger? token.literal with
      | some value =>
          rw [number_of_some hread]
          exact .pure _
      | none => exact followsBelow_number_of_none hread hmem (.inl ⟨hkind, hread⟩)
  | decimal =>
      refine followsAt_of_mem fun hmem => followsAt_advance ?_
      cases hread : Decimal.read? token.literal with
      | some value =>
          rw [number_of_some hread]
          exact .pure _
      | none => exact followsBelow_number_of_none hread hmem (.inr ⟨hkind, hread⟩)
  | character => exact followsAt_advance (.pure _)
  | string => exact followsAt_advance (.pure _)
  | identifier => exact followsAt_word hexpression hle token
  | operator =>
      refine (followsBelow_accept_bind ?_ (.fail _)).at token
      exact hexpression.bind fun _ => (followsBelow_expect _ _).bind fun _ => .pure _

/-- The loop over member accesses: each time round takes a point and a name. The
budget of the loop is that of the whole, so the bound may be as large as that. -/
theorem followsBelow_members {lower : Nat} (hle : lower ≤ budget) (hbound : lower ≤ bound + 1)
    (receiver : Expr Offset) :
    FollowsBelow tokens lower (members expression budget receiver)
      (Unbounded.members tokens receiver) := by
  refine FollowsBelow.loop (p := members expression) (q := Unbounded.members tokens)
    (fun less budget receiver hless hbudget ih => ?_) hle receiver
  -- Arguments stand behind a point, so there is a token less for them than for the chain.
  have hnested := hexpression.mono (Nat.le_of_lt_succ (Nat.lt_of_lt_of_le hless hbound))
  rw [Unbounded.members]
  refine followsBelow_accept_bind ?_ (.pure receiver)
  refine (followsBelow_expectName _).bind fun name => ?_
  refine (followsBelow_accept "(").bind fun _ => .ite ?_ (ih _)
  exact (followsBelow_arguments hnested hbudget).bind fun _ => ih _

/-- An expression without operators: its first part, and the member accesses behind
it. -/
theorem followsBelow_postfixChain (hle : bound + 1 ≤ budget) :
    FollowsBelow tokens (bound + 1) (postfixChain expression budget)
      (Unbounded.postfixChain tokens) := by
  rw [Unbounded.postfixChain]
  exact (followsBelow_primary hexpression (Nat.le_of_succ_le hle)).bind fun receiver =>
    followsBelow_members hexpression hle (Nat.le_refl _) receiver

end Expressions

/-- Level by level, down to the operands of the last one. By induction on the
levels. -/
theorem followsBelow_tiers {operand : Parser (Expr Offset)}
    (hoperand : FollowsBelow tokens bound operand (Unbounded.postfixChain tokens))
    (hle : bound ≤ budget) (levels : List Precedence) :
    FollowsBelow tokens bound (tiers budget operand levels) (Unbounded.binary tokens levels) := by
  induction levels with
  | nil =>
      rw [Unbounded.binary]
      exact hoperand
  | cons precedence tighter ih =>
      rw [Unbounded.binary]
      exact ih.bind fun left => followsBelow_chain precedence ih hle left

/-- An expression of fewer tokens than the budget is found without one. By induction
on the budget, for the expressions inside of it. -/
theorem followsBelow_expression (tokens : List Token) (budget : Nat) :
    FollowsBelow tokens budget (expression budget) (Unbounded.expression tokens) := by
  induction budget with
  | zero => exact .zero _ _
  | succ budget ih =>
      -- Nested expressions have one unit less, and a token is in front of each of them.
      rw [Unbounded.expression]
      exact followsBelow_tiers (followsBelow_postfixChain ih (Nat.le_refl _)) (Nat.le_refl _)
        Unbounded.levels

/-! ### Statements -/

/-- One part if a word is there and another one if it is not, and what comes after
it. -/
theorem followsBelow_choice {literal : String} {p' : Parser α} {q' : Walk α} {f : α → Parser β}
    {g : α → Walk β} (h : FollowsBelow tokens bound p q) (h' : FollowsBelow tokens bound p' q')
    (hf : ∀ a, FollowsBelow tokens bound (f a) (g a)) :
    FollowsBelow tokens bound
      (do
        let a ← if ← accept literal then p else p'
        f a)
      (do
        let a ← if ← Unbounded.accept tokens literal then q else q'
        g a) := by
  refine (followsBelow_accept literal).bind fun accepted => ?_
  cases accepted with
  | true => exact h.bind hf
  | false => exact h'.bind hf

/-- A declaration: a name, an optional type and an optional first value. -/
theorem followsBelow_declaration (hle : bound ≤ budget) :
    FollowsBelow tokens bound (declaration budget) (Unbounded.declaration tokens) := by
  have hvalue := ((followsBelow_expression tokens budget).mono hle).map some
  refine (followsBelow_expectName _).bind fun name => ?_
  refine followsBelow_choice ((followsBelow_expectName _).map some) (.pure none) fun type => ?_
  exact followsBelow_choice hvalue (.pure none) fun value => .pure _

/-- A declaration as a statement. The parser has dropped its first word, and the
walk takes it itself. -/
theorem followsAt_declarationStatement (hle : bound ≤ budget) (token : Token) :
    FollowsAt tokens (bound + 1) token
      (do
        skip
        let declared ← declaration budget
        expect ";" "after declaration"
        pure (.declare token.offset declared))
      (Unbounded.declarationStatement tokens) := by
  refine followsAt_advance ((followsBelow_declaration hle).bind fun declared => ?_)
  exact (followsBelow_expect _ _).bind fun _ => .pure _

section Statements

variable {statement : Parser (Stmt Offset)} (htakes : Takes statement)
  (hstatement : ∀ token, FollowsAt tokens bound token statement (Unbounded.statement tokens))

include htakes hstatement

/-- The statements of a block: each of them takes a token. -/
theorem followsBelow_block (terminators : List String) (hle : bound ≤ budget) :
    FollowsBelow tokens bound (block terminators statement budget)
      (Unbounded.block tokens terminators) := by
  refine FollowsBelow.loop (p := fun budget (_ : Unit) => block terminators statement budget)
    (q := fun _ => Unbounded.block tokens terminators) (fun less budget _ hless _ ih => ?_) hle ()
  rw [Unbounded.block]
  refine (followsBelow_atAny terminators).bind fun _ => .ite (.pure []) ?_
  refine followsBelow_peek (.fail _) fun token => ?_
  refine ((hstatement token).mono hless).bind_takes (htakes.at token) fun first => ?_
  exact (ih ()).bind fun more => .pure _

/-- A conditional. The parser has dropped its first word, and the walk takes it
itself. -/
theorem followsAt_conditional (hle : bound ≤ budget) (token : Token) :
    FollowsAt tokens (bound + 1) token
      (skip >>= fun _ => conditional token.offset statement budget)
      (Unbounded.conditional tokens) := by
  have hblock (terminators : List String) :=
    followsBelow_block htakes hstatement terminators hle
  rw [Unbounded.conditional]
  refine followsAt_advance ?_
  refine ((followsBelow_expression tokens budget).mono hle).bind fun condition => ?_
  refine (followsBelow_expect _ _).bind fun _ => (hblock _).bind fun thenBody => ?_
  refine followsBelow_choice (hblock _) (.pure []) fun elseBody => ?_
  exact (followsBelow_expect _ _).bind fun _ => .pure _

/-- A loop over a sequence, with its first word. -/
theorem followsAt_forLoop (hle : bound ≤ budget) (token : Token) :
    FollowsAt tokens (bound + 1) token
      (skip >>= fun _ => forLoop token.offset statement budget)
      (Unbounded.forLoop tokens) := by
  rw [Unbounded.forLoop]
  refine followsAt_advance ((followsBelow_expectName _).bind fun name => ?_)
  refine (followsBelow_expect _ _).bind fun _ => ?_
  refine ((followsBelow_expression tokens budget).mono hle).bind fun value => ?_
  refine (followsBelow_expect _ _).bind fun _ => ?_
  refine (followsBelow_block htakes hstatement _ hle).bind fun body => ?_
  exact (followsBelow_expect _ _).bind fun _ => .pure _

/-- A loop on a condition, with its first word. -/
theorem followsAt_whileLoop (hle : bound ≤ budget) (token : Token) :
    FollowsAt tokens (bound + 1) token
      (skip >>= fun _ => whileLoop token.offset statement budget)
      (Unbounded.whileLoop tokens) := by
  rw [Unbounded.whileLoop]
  refine followsAt_advance ?_
  refine ((followsBelow_expression tokens budget).mono hle).bind fun condition => ?_
  refine (followsBelow_expect _ _).bind fun _ => ?_
  refine (followsBelow_block htakes hstatement _ hle).bind fun body => ?_
  exact (followsBelow_expect _ _).bind fun _ => .pure _

end Statements

/-- A statement is begun where a token is left. By induction on the budget, for the
statements in bodies. -/
theorem followsAt_statement (tokens : List Token) (budget : Nat) (token : Token) :
    FollowsAt tokens budget token (statement budget) (Unbounded.statement tokens) := by
  induction budget generalizing token with
  | zero => exact (FollowsBelow.zero _ _).at token
  | succ budget ih =>
      have htakes := takes_statement budget
      have hle := Nat.le_succ budget
      rw [Unbounded.statement]
      refine followsAt_peek (followsAt_current ?_)
      -- The parser is split by the first word, and the walk asks for one word after the other.
      dsimp only
      split
      · next h =>
          rw [if_pos h]
          exact followsAt_declarationStatement hle token
      · next h =>
          simp only [h, String.reduceEq, ↓reduceIte]
          exact followsAt_conditional htakes ih hle token
      · next h =>
          simp only [h, String.reduceEq, ↓reduceIte]
          exact followsAt_forLoop htakes ih hle token
      · next h =>
          simp only [h, String.reduceEq, ↓reduceIte]
          exact followsAt_whileLoop htakes ih hle token
      · next h =>
          simp only [h, String.reduceEq, ↓reduceIte]
          have hvalue := (followsBelow_expression tokens (budget + 1)).mono hle
          refine followsAt_advance (hvalue.bind fun value => ?_)
          exact (followsBelow_expect _ _).bind fun _ => .pure _
      · next hlet hif hfor hwhile hreturn =>
          rw [if_neg hlet, if_neg hif, if_neg hfor, if_neg hwhile, if_neg hreturn]
          have hexpression := followsBelow_expression tokens (budget + 1)
          refine FollowsBelow.at (hexpression.bind fun target => ?_) token
          refine (followsBelow_accept "=").bind fun _ => .ite ?_ ?_
          · exact hexpression.bind fun value => (followsBelow_expect _ _).bind fun _ => .pure _
          · exact (followsBelow_expect _ _).bind fun _ => .pure _

/-! ### Fields, methods and the whole -/

/-- A list of parameters that has begun: each time round takes a comma. -/
theorem followsBelow_moreParameters (tokens : List Token) (budget : Nat) :
    FollowsBelow tokens budget (moreParameters budget) (Unbounded.moreParameters tokens) := by
  refine FollowsBelow.loop (p := fun budget (_ : Unit) => moreParameters budget)
    (q := fun _ => Unbounded.moreParameters tokens) (fun less budget _ _ _ ih => ?_)
    (Nat.le_refl _) ()
  rw [Unbounded.moreParameters]
  refine FollowsBelow.bind_takes (takes_expectName _) (followsBelow_expectName _) fun name => ?_
  refine (followsBelow_expect _ _).bind fun _ => ?_
  refine (followsBelow_expectName _).bind fun type => ?_
  refine (followsBelow_accept ",").bind fun _ => .ite ((ih ()).bind fun _ => .pure _) ?_
  exact (followsBelow_expect _ _).bind fun _ => .pure _

/-- A method. The parser has dropped its first word, and the walk takes it itself. -/
theorem followsAt_method (hle : bound ≤ budget) (token : Token) :
    FollowsAt tokens (bound + 1) token (skip >>= fun _ => method token.offset budget)
      (Unbounded.method tokens) := by
  have hparameters := (followsBelow_moreParameters tokens budget).mono hle
  have hbody := followsBelow_block (takes_statement budget)
    (fun token => (followsAt_statement tokens budget token).mono hle) ["END"] hle
  refine followsAt_advance ((followsBelow_expectName _).bind fun name => ?_)
  refine (followsBelow_expect _ _).bind fun _ => ?_
  refine followsBelow_choice (.pure []) hparameters fun parameters => ?_
  refine followsBelow_choice ((followsBelow_expectName _).map some) (.pure none) fun type => ?_
  refine (followsBelow_expect _ _).bind fun _ => hbody.bind fun body => ?_
  exact (followsBelow_expect _ _).bind fun _ => .pure _

/-- A field. The parser has dropped its first word, and the walk takes it itself. -/
theorem followsAt_field (hle : bound ≤ budget) (token : Token) :
    FollowsAt tokens (bound + 1) token (skip >>= fun _ => field token.offset budget)
      (Unbounded.field tokens) := by
  refine followsAt_advance ((followsBelow_declaration hle).bind fun declared => ?_)
  exact (followsBelow_expect _ _).bind fun _ => .pure _

/-- All items that begin with one word. An item that takes its first word itself
finds the word that was looked for. -/
theorem followsBelow_many (literal : String) {item : Offset → Parser α} {item' : Walk α}
    (hlooks : ∀ mark, LooksAhead (item mark))
    (hitem : ∀ token, FollowsAt tokens bound token (skip >>= fun _ => item token.offset) item')
    (hle : bound ≤ budget) :
    FollowsBelow tokens bound (many literal item budget) (Unbounded.many tokens literal item') := by
  refine FollowsBelow.loop (p := fun budget (_ : Unit) => many literal item budget)
    (q := fun _ => Unbounded.many tokens literal item') (fun less budget _ hless _ ih => ?_) hle ()
  intro position hinside hleft
  unfold FollowsFrom
  rw [Unbounded.many]
  -- The walk looks for the word and leaves it to the item. The parser looks for it and takes
  -- it at once, so what comes after it is followed from the word on and not from behind it.
  cases h : tokens[position]? with
  | none =>
      have hnone : EndsAs tokens position (.ok ([], tokens.drop position))
          (some (.ok (([] : List α), position))) := .answer [] (Nat.le_refl _) hinside
      rw [walk_bind_of_answer (atAny_of_none [literal] h)]
      rwa [drop_eq_nil h] at hnone ⊢
  | some token =>
      rw [walk_bind_of_answer (atAny_of_some [literal] h)]
      by_cases hliteral : token.literal = literal
      · rw [if_pos (by simp [hliteral]), drop_eq_cons h, many_of_eq hliteral, ← drop_eq_cons h]
        have hmore (first : α) := (ih ()).bind fun more => .pure (first :: more)
        exact ((hitem token).mono hless).bind_takes (takesAt_skip (hlooks _)) hmore position h hleft
      · rw [if_neg (by simp [hliteral]), drop_eq_cons h, many_of_ne hliteral, ← drop_eq_cons h]
        exact .answer [] (Nat.le_refl _) hinside

/-- The fields of a program. -/
theorem followsBelow_fields (tokens : List Token) (budget : Nat) :
    FollowsBelow tokens budget (many "LET" (field · budget) budget)
      (Unbounded.many tokens "LET" (Unbounded.field tokens)) :=
  followsBelow_many "LET" (looksAhead_field · budget)
    (fun token => (followsAt_field (Nat.le_refl _) token).mono (Nat.le_succ _)) (Nat.le_refl _)

/-- The methods of a program. -/
theorem followsBelow_methods (tokens : List Token) (budget : Nat) :
    FollowsBelow tokens budget (many "DEF" (method · budget) budget)
      (Unbounded.many tokens "DEF" (Unbounded.method tokens)) :=
  followsBelow_many "DEF" (looksAhead_method · budget)
    (fun token => (followsAt_method (Nat.le_refl _) token).mono (Nat.le_succ _)) (Nat.le_refl _)

/-- A program of fewer tokens than the budget is found without one. Its fields, its
methods and the end of the tokens come one behind the other. -/
theorem followsBelow_program (tokens : List Token) (budget : Nat) :
    FollowsBelow tokens budget (Parser.program budget) (Unbounded.program tokens) := by
  refine (followsBelow_fields tokens budget).bind fun fields => ?_
  refine (followsBelow_methods tokens budget).bind fun methods => ?_
  exact followsBelow_peek (.pure _) fun token => (FollowsBelow.fail _).at token

/-- All budgets that are larger than the number of tokens give the same program,
or the same failure: that of the walk. -/
theorem program_eq_of_length_lt {tokens : List Token} {budget : Nat}
    (h : tokens.length < budget) :
    Parser.program budget tokens = Parser.program (tokens.length + 1) tokens := by
  have hends := followsBelow_program tokens budget 0 (Nat.zero_le _) (by omega)
  have hends' := followsBelow_program tokens (tokens.length + 1) 0 (Nat.zero_le _) (by omega)
  exact hends.unique hends'

end PlcLang.Proofs
