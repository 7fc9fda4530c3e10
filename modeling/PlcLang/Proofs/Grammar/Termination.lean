import PlcLang.Proofs.Grammar.Walks

/-!
# `PlcLang.Proofs.Grammar.Termination`: the parser goes forward and gets to an end

A walk of `Parser.Unbounded` may go on for ever. None does. From each position within
the tokens each function of the parser and each of its loops ends, and where it answers
it is still within the tokens and has gone forward (`Lands`). A block may be empty and
some loops need not go round, so these may stay where they are; nothing goes back. Where
a token is left, each ends as its counterpart in `Parser` does, with any budget beyond
the number of tokens (`Call.bounded`, `call_follows`).

So the parser as a whole ends, on any tokens: it has read all of them into a tree, or
an expectation is not met, or a token of a number kind is no number (`ParseEnds`). It
never takes a token that is not there. `parser_makes_progress` has all parts.

The tokens need not come from a text. Words and operators are known by their text and
literals by their kind, so where the two are at odds the same token may end an
expression or be one.
-/

set_option autoImplicit false

namespace PlcLang.Parser.Unbounded

open Proofs (tiers)

/-- The function of the parser that a call stands for, with a budget, where it is begun at
a token. -/
def Call.bounded (budget : Nat) (token : Token) : (call : Call) → Parser call.Answer
  | .field => skip >>= fun _ => Parser.field token.offset budget
  | .method => skip >>= fun _ => Parser.method token.offset budget
  | .declaration => Parser.declaration budget
  | .block terminators => Parser.block terminators (Parser.statement budget) budget
  | .statement => Parser.statement budget
  | .declarationStatement => do
    skip
    let declared ← Parser.declaration budget
    Parser.expect ";" "after declaration"
    pure (.declare token.offset declared)
  | .conditional => skip >>= fun _ =>
    Parser.conditional token.offset (Parser.statement budget) budget
  | .forLoop => skip >>= fun _ => Parser.forLoop token.offset (Parser.statement budget) budget
  | .whileLoop => skip >>= fun _ =>
    Parser.whileLoop token.offset (Parser.statement budget) budget
  | .expression => Parser.expression budget
  | .binary levels =>
    tiers budget (Parser.postfixChain (Parser.expression budget) budget) levels
  | .postfixChain => Parser.postfixChain (Parser.expression budget) budget
  | .arguments => Parser.arguments (Parser.expression budget) budget
  | .primary => Parser.primary (Parser.expression budget) budget
  | .word => Parser.word (Parser.expression budget) budget token
  | .fields => Parser.many "LET" (Parser.field · budget) budget
  | .methods => Parser.many "DEF" (Parser.method · budget) budget
  | .moreParameters => Parser.moreParameters budget
  | .chain precedence tighter left =>
    Parser.chain precedence
      (tiers budget (Parser.postfixChain (Parser.expression budget) budget) tighter) budget left
  | .members receiver => Parser.members (Parser.expression budget) budget receiver
  | .moreArguments => Parser.moreArguments (Parser.expression budget) budget

end PlcLang.Parser.Unbounded

namespace PlcLang.Proofs

open PlcLang.Parser
open Unbounded (Walk Impasse)

variable {α : Type} {tokens : List Token}

/-! ### Where a walk lands -/

/-- From each position the walk ends, and where it answers it is within the tokens and has
not gone back. It has gone forward unless it may stay. -/
def Lands (tokens : List Token) (mayStay : Bool) (q : Walk α) : Prop :=
  ∀ position, position ≤ tokens.length → ∃ ending, q position = some ending
    ∧ ∀ a after, ending = .ok (a, after) → after ≤ tokens.length ∧ position ≤ after
      ∧ (mayStay = false → position < after)

variable {position : Nat} {mayStay : Bool} {p : Parser α} {q : Walk α}

/-- One position of `Lands`: the walk ends as a parser does that takes a token unless the
walk may stay. -/
theorem FollowsFrom.lands (h : FollowsFrom tokens position p q)
    (htakes : mayStay = false → ∀ a left, p (tokens.drop position) = .ok (a, left) →
      left.length < (tokens.drop position).length) :
    ∃ ending, q position = some ending
      ∧ ∀ a after, ending = .ok (a, after) → after ≤ tokens.length ∧ position ≤ after
        ∧ (mayStay = false → position < after) := by
  unfold FollowsFrom at h
  generalize houtcome : p (tokens.drop position) = outcome at h
  generalize hending : q position = ending at h
  cases h with
  | answer a hle hinside =>
      refine ⟨_, rfl, fun b after heq => ?_⟩
      obtain ⟨rfl, rfl⟩ := Prod.mk.inj (Except.ok.inj heq)
      exact ⟨hinside, hle, fun hmust => lt_of_length_drop_lt (htakes hmust a _ houtcome)⟩
  | unmet what hinside => exact ⟨_, rfl, nofun⟩
  | malformedNumber hmem h => exact ⟨_, rfl, nofun⟩

/-- A walk that follows a parser wherever it is begun lands, and goes forward if the
parser takes a token. -/
theorem FollowsBelow.lands (h : FollowsBelow tokens (tokens.length + 1) p q)
    (htakes : mayStay = false → Takes p) : Lands tokens mayStay q :=
  fun position hinside =>
    (h position hinside (by omega)).lands fun hmust => htakes hmust (tokens.drop position)

/-- A walk that follows a parser lands. Nothing is asked of the parser, as the walk
may stay where it is. -/
theorem FollowsBelow.lands_staying (h : FollowsBelow tokens (tokens.length + 1) p q) :
    Lands tokens true q :=
  h.lands nofun

/-- A walk that begins with a look at a token, which may not be there. Where it is
not there, the walk breaks down, and that is an ending. -/
theorem lands_of_current {p : Token → Parser α} {g : Token → Walk α}
    (hq : q = Unbounded.current tokens >>= g)
    (h : ∀ token, FollowsAt tokens (tokens.length + 1) token (p token) q)
    (htakes : ∀ token, TakesAt token (p token)) : Lands tokens mayStay q := by
  intro position hinside
  cases htoken : tokens[position]? with
  | none =>
      rw [hq, walk_bind_of_impasse (current_of_none htoken)]
      exact ⟨_, rfl, nofun⟩
  | some token =>
      refine (h token position htoken (by omega)).lands fun _ => ?_
      rw [drop_eq_cons htoken]
      exact htakes token _

/-- A walk that begins by taking a token, which may not be there. So it has gone
forward whatever comes after it. -/
theorem lands_of_advance {p : Token → Parser α} {g : Token → Walk α}
    (hq : q = Unbounded.advance tokens >>= g)
    (h : ∀ token, FollowsAt tokens (tokens.length + 1) token (skip >>= fun _ => p token) q)
    (hlooks : ∀ token, LooksAhead (p token)) : Lands tokens mayStay q := by
  have hlook : q = Unbounded.current tokens >>= fun token =>
      modify (· + 1) >>= fun _ => g token := by
    rw [hq, Unbounded.advance]
    simp only [bind_assoc, pure_bind]
  exact lands_of_current hlook h fun token => takesAt_skip (hlooks token)

/-- All calls end, and those that answer have gone forward unless they may stay. One
case for each function of the parser and each of its loops. -/
theorem call_lands (tokens : List Token) (call : Unbounded.Call) :
    Lands tokens call.mayStay (call.run tokens) := by
  -- What a budget of as many units as tokens does for nested parts, and one unit more
  -- for all others.
  have hle := Nat.le_refl tokens.length
  have hle' := Nat.le_refl (tokens.length + 1)
  have hlooks := looksAhead_expression tokens.length
  have hnested := followsBelow_expression tokens tokens.length
  have hlooks' := looksAhead_expression (tokens.length + 1)
  have hexpression := followsBelow_expression tokens (tokens.length + 1)
  have hstatement := followsAt_statement tokens tokens.length
  have htakes := takes_statement tokens.length
  have hlooksStatement := looksAhead_statement tokens.length
  cases call with
  | field =>
      exact lands_of_advance (Unbounded.field.eq_def tokens) (followsAt_field hle) fun token =>
        looksAhead_field token.offset _
  | method =>
      exact lands_of_advance (Unbounded.method.eq_def tokens) (followsAt_method hle) fun token =>
        looksAhead_method token.offset _
  | declaration => exact (followsBelow_declaration hle').lands fun _ => takes_declaration _
  | block terminators =>
      exact (followsBelow_block (takes_statement _) (followsAt_statement tokens _) terminators
        hle').lands_staying
  | statement =>
      exact lands_of_current (Unbounded.statement.eq_def tokens) (followsAt_statement tokens _)
        fun token => (takes_statement _).at token
  | declarationStatement =>
      exact lands_of_advance (Unbounded.declarationStatement.eq_def tokens)
        (followsAt_declarationStatement hle) fun token =>
          (looksAhead_declaration _).bind fun _ => (looksAhead_expect _ _).bind fun _ => .pure _
  | conditional =>
      exact lands_of_advance (Unbounded.conditional.eq_def tokens)
        (followsAt_conditional htakes hstatement hle) fun token =>
          looksAhead_conditional hlooksStatement token.offset _
  | forLoop =>
      exact lands_of_advance (Unbounded.forLoop.eq_def tokens)
        (followsAt_forLoop htakes hstatement hle) fun token =>
          looksAhead_forLoop hlooksStatement token.offset _
  | whileLoop =>
      exact lands_of_advance (Unbounded.whileLoop.eq_def tokens)
        (followsAt_whileLoop htakes hstatement hle) fun token =>
          looksAhead_whileLoop hlooksStatement token.offset _
  | expression => exact hexpression.lands fun _ => takes_expression _
  | binary levels =>
      exact (followsBelow_tiers (followsBelow_postfixChain hnested hle') hle' levels).lands fun _ =>
        takes_tiers (looksAhead_postfixChain hlooks _) (takes_postfixChain hlooks _) _ levels
  | postfixChain =>
      exact (followsBelow_postfixChain hnested hle').lands fun _ => takes_postfixChain hlooks _
  | arguments =>
      exact (followsBelow_arguments hexpression hle').lands fun _ =>
        takes_arguments hlooks' (takes_expression _) _
  | primary => exact (followsBelow_primary hnested hle).lands fun _ => takes_primary hlooks _
  | word =>
      exact lands_of_current (Unbounded.word.eq_def tokens) (followsAt_word hnested hle)
        fun token => takesAt_word hlooks _ token
  | fields => exact (followsBelow_fields tokens _).lands_staying
  | methods => exact (followsBelow_methods tokens _).lands_staying
  | moreParameters =>
      exact (followsBelow_moreParameters tokens _).lands fun _ => takes_moreParameters _
  | chain precedence tighter left =>
      have hoperand := followsBelow_tiers (followsBelow_postfixChain hnested hle') hle' tighter
      exact (followsBelow_chain precedence hoperand hle' left).lands_staying
  | members receiver => exact (followsBelow_members hnested hle' hle' receiver).lands_staying
  | moreArguments =>
      exact (followsBelow_moreArguments hexpression hle').lands fun _ =>
        takes_moreArguments hlooks' (takes_expression _) _

/-- Where a token is left, a call ends as the function of the parser does that it stands for,
with any budget that is larger than the number of tokens. -/
theorem call_follows {budget : Nat} (hbudget : tokens.length < budget) (call : Unbounded.Call)
    (token : Token) :
    FollowsAt tokens (tokens.length + 1) token (call.bounded budget token) (call.run tokens) := by
  -- A part that is nested behind a token may have one unit less.
  have hle := Nat.le_of_lt hbudget
  have hexpression := (followsBelow_expression tokens budget).mono hbudget
  have hnested := (followsBelow_expression tokens budget).mono hle
  have hpostfix := followsBelow_postfixChain hnested hbudget
  have hstatement (token : Token) := followsAt_statement tokens budget token
  have hbody (token : Token) := (hstatement token).mono hle
  have htakes := takes_statement budget
  cases call with
  | field => exact followsAt_field hle token
  | method => exact followsAt_method hle token
  | declaration => exact (followsBelow_declaration hbudget).at token
  | block terminators =>
      exact (followsBelow_block htakes (fun token => (hstatement token).mono hbudget) terminators
        hbudget).at token
  | statement => exact (hstatement token).mono hbudget
  | declarationStatement => exact followsAt_declarationStatement hle token
  | conditional => exact followsAt_conditional htakes hbody hle token
  | forLoop => exact followsAt_forLoop htakes hbody hle token
  | whileLoop => exact followsAt_whileLoop htakes hbody hle token
  | expression => exact hexpression.at token
  | binary levels => exact (followsBelow_tiers hpostfix hbudget levels).at token
  | postfixChain => exact hpostfix.at token
  | arguments => exact (followsBelow_arguments hexpression hbudget).at token
  | primary => exact (followsBelow_primary hnested hle).at token
  | word => exact followsAt_word hnested hle token
  | fields => exact ((followsBelow_fields tokens budget).mono hbudget).at token
  | methods => exact ((followsBelow_methods tokens budget).mono hbudget).at token
  | moreParameters => exact ((followsBelow_moreParameters tokens budget).mono hbudget).at token
  | chain precedence tighter left =>
      exact (followsBelow_chain precedence (followsBelow_tiers hpostfix hbudget tighter) hbudget
        left).at token
  | members receiver =>
      exact (followsBelow_members hnested hbudget (Nat.le_refl _) receiver).at token
  | moreArguments => exact (followsBelow_moreArguments hexpression hbudget).at token

/-! ### How the parser ends -/

/-- How the parser ends on these tokens, as a walk and as `parse`: with a tree and
behind the last token; with an expectation that is not met, by a token or by the end of
the tokens; or with a token of theirs that is no number. -/
inductive ParseEnds (tokens : List Token) :
    Option (Except Impasse (Program Offset × Nat)) → Except ParseError (Program Offset) → Prop where
  | tree (program : Program Offset) :
      ParseEnds tokens (some (.ok (program, tokens.length))) (.ok program)
  | unexpected (what : Expectation) {position : Nat} {token : Token}
      (h : tokens[position]? = some token) :
      ParseEnds tokens (some (.error (.unmet what position))) (.error (.unexpected what token))
  | unfinished (what : Expectation) :
      ParseEnds tokens (some (.error (.unmet what tokens.length)))
        (.error (.unfinished what (endOffset tokens)))
  | malformedNumber {token : Token} (hmem : token ∈ tokens) (h : Malformed token) :
      ParseEnds tokens (some (.error (.malformedNumber token))) (.error (.malformedNumber token))

/-- A program is all of the tokens, wherever they come from: the parser succeeds at
their end only. -/
theorem eq_nil_of_program {budget : Nat} {left : List Token} {program : Program Offset}
    (h : Parser.program budget tokens = .ok (program, left)) : left = [] := by
  obtain ⟨fields, middle, -, hbehind⟩ := bind_eq_ok.mp h
  obtain ⟨methods, last, -, hlast⟩ := bind_eq_ok.mp hbehind
  cases last with
  | nil =>
      obtain ⟨-, rfl⟩ : Program.mk fields methods = program ∧ [] = left := by
        simpa using (Except.ok.inj hlast : (Program.mk fields methods, []) = (program, left))
      rfl
  | cons token more => cases hlast

/-- The walk through the whole ends in one of the three ways, and `parse` in the
same one. -/
theorem parse_ends (tokens : List Token) :
    ParseEnds tokens (Unbounded.program tokens 0) (parse tokens) := by
  have hends := followsBelow_program tokens (tokens.length + 1) 0 (Nat.zero_le _) (by omega)
  unfold FollowsFrom at hends
  rw [List.drop_zero] at hends
  unfold parse StateT.run
  generalize houtcome : Parser.program (tokens.length + 1) tokens = outcome at hends ⊢
  generalize Unbounded.program tokens 0 = ending at hends ⊢
  cases hends with
  | @answer program position _ hinside =>
      -- A tree leaves no token, so the walk has got behind the last one.
      have hbehind := List.drop_eq_nil_iff.mp (eq_nil_of_program houtcome)
      obtain rfl : position = tokens.length := Nat.le_antisymm hinside hbehind
      exact .tree program
  | @unmet what position hinside =>
      -- The failure names the token at the position, or the end if none is there.
      cases htoken : tokens[position]? with
      | some token =>
          rw [drop_eq_cons htoken]
          exact .unexpected what htoken
      | none =>
          have hbehind := List.getElem?_eq_none_iff.mp htoken
          obtain rfl : position = tokens.length := Nat.le_antisymm hinside hbehind
          rw [drop_eq_nil htoken]
          exact .unfinished what
  | malformedNumber hmem h => exact .malformedNumber hmem h

/-- On any tokens the parser goes forward and gets to an end. From each position each
function below the whole ends, whatever it is given, and so does each loop. Where it
answers it is within the tokens and behind the position where it was begun, or at that
position if it is a block or a loop that need not go round. The function with a budget
ends in the same way, so no budget beyond the number of tokens is ever used up. So the
whole ends, with a tree of all tokens, an expectation that is not met or a token that is
no number, and `parse` ends in the same way. -/
theorem parser_makes_progress (tokens : List Token) :
    (∀ call : Unbounded.Call, Lands tokens call.mayStay (call.run tokens)
      ∧ ∀ (position : Nat) (token : Token), tokens[position]? = some token →
        ∀ budget, tokens.length < budget →
          FollowsFrom tokens position (call.bounded budget token) (call.run tokens))
      ∧ ParseEnds tokens (Unbounded.program tokens 0) (parse tokens) := by
  refine ⟨fun call => ⟨call_lands tokens call, ?_⟩, parse_ends tokens⟩
  intro position token htoken budget hbudget
  exact call_follows hbudget call token position htoken (by omega)

/-- So it is where kinds and texts are at odds: an integer is the equals sign, of two
strings that are points one is a value and the other one a point, and a decimal is the
semicolon. -/
theorem parser_makes_progress_at_odds :
    let tokens : List Token := [⟨.operator, "LET", 0⟩, ⟨.identifier, "x", 4⟩, ⟨.integer, "=", 6⟩,
      ⟨.string, ".", 8⟩, ⟨.string, ".", 9⟩, ⟨.identifier, "y", 10⟩, ⟨.decimal, ";", 11⟩]
    let program : Program Offset := ⟨[⟨0, "x", none, some (.field 8 (.string 8 "") "y")⟩], []⟩
    parse tokens = .ok program ∧ Unbounded.program tokens 0 = some (.ok (program, 7))
      ∧ Lands tokens false (Unbounded.expression tokens)
      ∧ FollowsFrom tokens 3 (Parser.expression 8) (Unbounded.expression tokens) := by
  intro tokens program
  have hparse : parse tokens = .ok program := rfl
  obtain ⟨hcalls, hends⟩ := parser_makes_progress tokens
  rw [hparse] at hends
  generalize Unbounded.program tokens 0 = ending at hends ⊢
  cases hends with
  | tree =>
      have hfollows := (hcalls .expression).2 3 ⟨.string, ".", 8⟩ rfl 8 (by decide)
      exact ⟨hparse, rfl, (hcalls .expression).1, hfollows⟩

/-- A semicolon that is an integer begins an expression, and it is no number. -/
example : parse [⟨.identifier, "LET", 0⟩, ⟨.identifier, "x", 4⟩, ⟨.operator, "=", 6⟩,
    ⟨.integer, ";", 8⟩] = .error (.malformedNumber ⟨.integer, ";", 8⟩) := by
  rfl

end PlcLang.Proofs
