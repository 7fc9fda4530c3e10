import PlcLang.Proofs.Computations
import PlcLang.Proofs.Layout.Tokens
import PlcLang.Proofs.Syntax.Marks
import PlcLang.Syntax.Parser

/-!
# `PlcLang.Proofs.Layout.Parsing`: the parser never asks where a token stands

Offsets go through the parser from tokens into trees and errors, and no decision
looks at them. So a parser on tokens that have been moved does what it does on
the tokens themselves, and moves its answer: `Moves`. The lemmas follow the
parser function by function up to `program_map_moveTo`.
-/

set_option autoImplicit false

namespace PlcLang

/-- The obstacle with its tokens moved. -/
def Obstacle.moveTo (place : Nat → Nat) : Obstacle → Obstacle
  | expected what rest => .expected what (rest.map (Token.moveTo place))
  | malformedNumber token => .malformedNumber (token.moveTo place)

/-- The error with its token moved. An error at the end of the tokens has no token,
and is moved to `stop`. -/
def ParseError.moveTo (place : Nat → Nat) (stop : Offset) : ParseError → ParseError
  | .unexpected what token => .unexpected what (token.moveTo place)
  | .unfinished what _ => .unfinished what stop
  | .malformedNumber token => .malformedNumber (token.moveTo place)

namespace Proofs

open PlcLang.Parser

variable {α β α' β' : Type} {place : Nat → Nat}

/-- What is left of a parser, moved: `f` moves its answer, and the tokens that are
left are moved as well. -/
def moveResult (place : Nat → Nat) (f : α → α') :
    Except Obstacle (α × List Token) → Except Obstacle (α' × List Token)
  | .ok (a, rest) => .ok (f a, rest.map (Token.moveTo place))
  | .error obstacle => .error (obstacle.moveTo place)

/-- On moved tokens `q` does what `p` does on the tokens, and its answer is moved by
`f`. The two differ in the marks that they are given. -/
def Moves (place : Nat → Nat) (f : α → α') (p : Parser α) (q : Parser α') : Prop :=
  ∀ tokens, q (tokens.map (Token.moveTo place)) = moveResult place f (p tokens)

/-! ### Combinators -/

/-- An answer at once, moved. -/
theorem Moves.pure {f : α → α'} (a : α) : Moves place f (pure a) (pure (f a)) :=
  fun _ => rfl

/-- An answer that is known in another form. -/
theorem Moves.pure_of_eq {f : α → α'} {a : α} {a' : α'} (h : f a = a') :
    Moves place f (Pure.pure a) (Pure.pure a') := by
  subst h
  exact .pure a

/-- A sequence. The second parser is given the moved answer of the first one. -/
theorem Moves.bind {f : α → α'} {g : β → β'} {p : Parser α} {p' : Parser α'} {k : α → Parser β}
    {k' : α' → Parser β'} (hp : Moves place f p p') (hk : ∀ a, Moves place g (k a) (k' (f a))) :
    Moves place g (p >>= k) (p' >>= k') := by
  intro tokens
  show (p' (tokens.map (Token.moveTo place)) >>= fun answer => k' answer.1 answer.2)
    = moveResult place g (p tokens >>= fun answer => k answer.1 answer.2)
  rw [hp]
  cases p tokens with
  | error obstacle => rfl
  | ok answer => exact hk answer.1 answer.2

/-- A change of answers that goes together with moving them. -/
theorem Moves.map {f : α → α'} {g : β → β'} {p : Parser α} {p' : Parser α'} {h : α → β}
    {h' : α' → β'} (hp : Moves place f p p') (hh : ∀ a, g (h a) = h' (f a)) :
    Moves place g (h <$> p) (h' <$> p') := by
  have hleft : h <$> p = p >>= fun a => Pure.pure (h a) := rfl
  have hright : h' <$> p' = p' >>= fun a => Pure.pure (h' a) := rfl
  rw [hleft, hright]
  exact hp.bind fun a => .pure_of_eq (hh a)

/-- A choice that was made on something that has no place. -/
theorem Moves.ite {f : α → α'} {accepted : Bool} {p q : Parser α} {p' q' : Parser α'}
    (hp : Moves place f p p') (hq : Moves place f q q') :
    Moves place f (if accepted then p else q) (if accepted then p' else q') := by
  cases accepted with
  | true => exact hp
  | false => exact hq

/-! ### Single tokens -/

/-- Failing on an expectation, with the tokens that are left. -/
theorem moves_fail (what : Expectation) (f : α → α') :
    Moves place f (fail what) (fail what) :=
  fun _ => rfl

/-- Refusing a number, whose token is moved. -/
theorem moves_throw (token : Token) (f : α → α') :
    Moves place f (throw (.malformedNumber token))
      (throw (.malformedNumber (token.moveTo place))) :=
  fun _ => rfl

/-- The next token, moved. -/
theorem moves_peek : Moves place (Option.map (Token.moveTo place)) peek peek := by
  intro tokens
  cases tokens <;> rfl

/-- Dropping a token looks at nothing. -/
theorem moves_skip : Moves place id skip skip := by
  intro tokens
  cases tokens <;> rfl

/-- Whether one of some words is there depends on its text only. -/
theorem moves_atAny (literals : List String) :
    Moves place id (atAny literals) (atAny literals) := by
  intro tokens
  cases tokens <;> rfl

/-- Whether a word is accepted depends on its text only. -/
theorem moves_accept (literal : String) : Moves place id (accept literal) (accept literal) := by
  intro tokens
  cases tokens with
  | nil => rfl
  | cons token rest =>
      by_cases h : token.literal = literal
      · simp [accept_cons, moveResult, Token.moveTo, h]
      · simp [accept_cons, moveResult, Token.moveTo, h]

/-- So it is with a word that is expected. -/
theorem moves_expect (literal role : String) :
    Moves place id (expect literal role) (expect literal role) :=
  (moves_accept literal).bind fun _ => .ite (.pure ()) (moves_fail _ _)

/-- So it is with a name, which depends on the kind and the text, and its answer is
the text. -/
theorem moves_expectName (what : Expectation) :
    Moves place id (expectName what) (expectName what) := by
  intro tokens
  cases tokens with
  | nil => rfl
  | cons token rest =>
      have hname : (token.moveTo place).isName = token.isName := rfl
      by_cases h : token.isName = true
      · simp [expectName_cons, moveResult, hname, h]
        rfl
      · simp [expectName_cons, moveResult, Obstacle.moveTo, hname, h]

/-- So it is with an operator. -/
theorem moves_acceptOperator (precedence : Precedence) :
    Moves place id (acceptOperator precedence) (acceptOperator precedence) := by
  intro tokens
  cases tokens with
  | nil => rfl
  | cons token rest =>
      by_cases h : (BinaryOp.ofSymbol token.literal).precedence? = some precedence
      · simp [acceptOperator_cons, moveResult, Token.moveTo, h]
      · simp [acceptOperator_cons, moveResult, Token.moveTo, h]

/-! ### Expressions -/

/-- More operands behind a left one, which has been moved. -/
theorem moves_chain (precedence : Precedence) {operand : Parser (Expr Offset)}
    (hoperand : Moves place (Expr.map place) operand operand) (budget : Nat)
    (left : Expr Offset) :
    Moves place (Expr.map place) (chain precedence operand budget left)
      (chain precedence operand budget (left.map place)) := by
  induction budget generalizing left with
  | zero => exact .pure left
  | succ budget ih =>
      refine (moves_acceptOperator precedence).bind fun op? => ?_
      cases op? with
      | none => exact .pure left
      | some op =>
          refine hoperand.bind fun right => ?_
          have hmark := Expr.mark_map place left
          have hnext := ih (.binary left.mark op left right)
          rw [Expr.map, ← hmark] at hnext
          exact hnext

/-- Operands with operators of one precedence between them. -/
theorem moves_operands (precedence : Precedence) {operand : Parser (Expr Offset)}
    (hoperand : Moves place (Expr.map place) operand operand) (budget : Nat) :
    Moves place (Expr.map place) (operands precedence budget operand)
      (operands precedence budget operand) :=
  hoperand.bind fun left => moves_chain precedence hoperand budget left

section Expressions

variable {expression : Parser (Expr Offset)}
  (hexpression : Moves place (Expr.map place) expression expression)

include hexpression

/-- A list of arguments that has begun. -/
theorem moves_moreArguments (budget : Nat) :
    Moves place (Expr.mapAll place) (moreArguments expression budget)
      (moreArguments expression budget) := by
  induction budget with
  | zero => exact moves_fail _ _
  | succ budget ih =>
      refine hexpression.bind fun argument => (moves_accept ",").bind fun _ => .ite ?_ ?_
      · exact ih.bind fun more => .pure (argument :: more)
      · exact (moves_expect _ _).bind fun _ => .pure [argument]

/-- Arguments behind their opening parenthesis. -/
theorem moves_arguments (budget : Nat) :
    Moves place (Expr.mapAll place) (arguments expression budget) (arguments expression budget) :=
  (moves_accept ")").bind fun _ => .ite (.pure []) (moves_moreArguments hexpression budget)

/-- A word where an expression begins, which has been moved. -/
theorem moves_word (budget : Nat) (token : Token) :
    Moves place (Expr.map place) (word expression budget token)
      (word expression budget (token.moveTo place)) := by
  have hliteral : (token.moveTo place).literal = token.literal := rfl
  unfold word
  rw [present_bind, present_bind, hliteral]
  split
  · exact moves_skip.bind fun _ => .pure _
  · exact moves_skip.bind fun _ => .pure _
  · exact moves_skip.bind fun _ => .pure _
  · refine (moves_expectName _).bind fun name => (moves_accept "(").bind fun _ => .ite ?_ ?_
    · exact (moves_arguments hexpression budget).bind fun arguments => .pure _
    · exact .pure _

/-- An expression without operators and member accesses. Its mark is the offset of
its first token. -/
theorem moves_primary (budget : Nat) :
    Moves place (Expr.map place) (primary expression budget) (primary expression budget) := by
  refine moves_peek.bind fun front => ?_
  cases front with
  | none => exact moves_fail _ _
  | some token =>
      have hkind : (token.moveTo place).kind = token.kind := rfl
      have hliteral : (token.moveTo place).literal = token.literal := rfl
      dsimp only [Option.map_some]
      rw [hkind, hliteral]
      split
      · refine moves_skip.bind fun _ => ?_
        cases readInteger? token.literal with
        | some value => exact .pure _
        | none => exact moves_throw token _
      · refine moves_skip.bind fun _ => ?_
        cases Decimal.read? token.literal with
        | some value => exact .pure _
        | none => exact moves_throw token _
      · exact moves_skip.bind fun _ => .pure _
      · exact moves_skip.bind fun _ => .pure _
      · exact moves_word hexpression budget token
      · refine (moves_accept "(").bind fun _ => .ite ?_ (moves_fail _ _)
        exact hexpression.bind fun inner => (moves_expect _ _).bind fun _ => .pure _

/-- Member accesses behind a receiver, which has been moved. -/
theorem moves_members (budget : Nat) (receiver : Expr Offset) :
    Moves place (Expr.map place) (members expression budget receiver)
      (members expression budget (receiver.map place)) := by
  induction budget generalizing receiver with
  | zero => exact .pure receiver
  | succ budget ih =>
      have hmark := Expr.mark_map place receiver
      refine (moves_accept ".").bind fun _ => .ite ?_ (.pure receiver)
      refine (moves_expectName _).bind fun name => (moves_accept "(").bind fun _ => .ite ?_ ?_
      · refine (moves_arguments hexpression budget).bind fun arguments => ?_
        have hnext := ih (.methodCall receiver.mark receiver name arguments)
        rw [Expr.map, ← hmark] at hnext
        exact hnext
      · have hnext := ih (.field receiver.mark receiver name)
        rw [Expr.map, ← hmark] at hnext
        exact hnext

/-- An expression without operators: its first part and the member accesses behind
it. -/
theorem moves_postfixChain (budget : Nat) :
    Moves place (Expr.map place) (postfixChain expression budget)
      (postfixChain expression budget) :=
  (moves_primary hexpression budget).bind fun receiver => moves_members hexpression budget receiver

end Expressions

/-- The parser of expressions. By induction on the budget. -/
theorem moves_expression (budget : Nat) :
    Moves place (Expr.map place) (expression budget) (expression budget) := by
  induction budget with
  | zero => exact moves_fail _ _
  | succ budget ih =>
      have hmultiplicative :=
        moves_operands .multiplicative (moves_postfixChain ih (budget + 1)) (budget + 1)
      have hadditive := moves_operands .additive hmultiplicative (budget + 1)
      have hcomparison := moves_operands .comparison hadditive (budget + 1)
      exact moves_operands .logical hcomparison (budget + 1)

/-! ### Statements -/

/-- A part that is there if a word is, and what comes after it. -/
theorem moves_optional {f : α → α'} {g : β → β'} (literal : String) {p q : Parser α}
    {p' q' : Parser α'} {k : α → Parser β} {k' : α' → Parser β'} (hp : Moves place f p p')
    (hq : Moves place f q q') (hk : ∀ a, Moves place g (k a) (k' (f a))) :
    Moves place g
      (do
        let a ← if ← accept literal then p else q
        k a)
      (do
        let a ← if ← accept literal then p' else q'
        k' a) := by
  refine (moves_accept literal).bind fun accepted => ?_
  cases accepted with
  | true => exact hp.bind hk
  | false => exact hq.bind hk

/-- A declaration: a name, an optional type and an optional first value. -/
theorem moves_declaration (budget : Nat) :
    Moves place (Declaration.map place) (declaration budget) (declaration budget) := by
  have htype : Moves place id (some <$> expectName (.name .type))
      (some <$> expectName (.name .type)) :=
    (moves_expectName _).map fun _ => rfl
  have hvalue : Moves place (Option.map (Expr.map place)) (some <$> expression budget)
      (some <$> expression budget) :=
    (moves_expression budget).map fun _ => rfl
  refine (moves_expectName _).bind fun name => ?_
  refine moves_optional ":" htype (.pure none) fun typeName => ?_
  refine moves_optional "=" hvalue (.pure none) fun value => ?_
  exact .pure (Declaration.mk name typeName value)

section Statements

variable {statement : Parser (Stmt Offset)}
  (hstatement : Moves place (Stmt.map place) statement statement)

include hstatement

/-- Statements up to a terminator. -/
theorem moves_block (terminators : List String) (budget : Nat) :
    Moves place (Stmt.mapAll place) (block terminators statement budget)
      (block terminators statement budget) := by
  induction budget with
  | zero => exact moves_fail _ _
  | succ budget ih =>
      refine (moves_atAny terminators).bind fun _ => .ite (.pure []) ?_
      refine moves_peek.bind fun front => ?_
      cases front with
      | none => exact moves_fail _ _
      | some token => exact hstatement.bind fun first => ih.bind fun more => .pure (first :: more)

/-- A conditional behind its first word, whose offset is its mark. -/
theorem moves_conditional (mark : Offset) (budget : Nat) :
    Moves place (Stmt.map place) (conditional mark statement budget)
      (conditional (place mark) statement budget) := by
  refine (moves_expression budget).bind fun condition => (moves_expect _ _).bind fun _ => ?_
  refine (moves_block hstatement _ budget).bind fun thenBody => ?_
  refine moves_optional "ELSE" (moves_block hstatement _ budget) (.pure []) fun elseBody => ?_
  exact (moves_expect _ _).bind fun _ => .pure (Stmt.cond mark condition thenBody elseBody)

/-- A loop over a sequence behind its first word, whose offset is its mark. -/
theorem moves_forLoop (mark : Offset) (budget : Nat) :
    Moves place (Stmt.map place) (forLoop mark statement budget)
      (forLoop (place mark) statement budget) := by
  refine (moves_expectName _).bind fun name => (moves_expect _ _).bind fun _ => ?_
  refine (moves_expression budget).bind fun value => (moves_expect _ _).bind fun _ => ?_
  refine (moves_block hstatement _ budget).bind fun body => ?_
  exact (moves_expect _ _).bind fun _ => .pure (Stmt.forIn mark name value body)

/-- A loop on a condition behind its first word, whose offset is its mark. -/
theorem moves_whileLoop (mark : Offset) (budget : Nat) :
    Moves place (Stmt.map place) (whileLoop mark statement budget)
      (whileLoop (place mark) statement budget) := by
  refine (moves_expression budget).bind fun condition => (moves_expect _ _).bind fun _ => ?_
  refine (moves_block hstatement _ budget).bind fun body => ?_
  exact (moves_expect _ _).bind fun _ => .pure (Stmt.whileDo mark condition body)

end Statements

/-- A statement that begins with an expression, whose first token gives the mark. -/
theorem moves_expressionStatement (mark : Offset) (budget : Nat) :
    Moves place (Stmt.map place) (expressionStatement mark budget)
      (expressionStatement (place mark) budget) := by
  refine (moves_expression budget).bind fun target => (moves_accept "=").bind fun _ => .ite ?_ ?_
  · refine (moves_expression budget).bind fun value => (moves_expect _ _).bind fun _ => ?_
    exact .pure (Stmt.assign mark target value)
  · exact (moves_expect _ _).bind fun _ => .pure (Stmt.expression mark target)

/-- The parser of statements. By induction on the budget. -/
theorem moves_statement (budget : Nat) :
    Moves place (Stmt.map place) (statement budget) (statement budget) := by
  induction budget with
  | zero => exact moves_fail _ _
  | succ budget ih =>
      refine moves_peek.bind fun front => ?_
      cases front with
      | none => exact moves_fail _ _
      | some token =>
          have hliteral : (token.moveTo place).literal = token.literal := rfl
          dsimp only [Option.map_some]
          rw [hliteral]
          split
          · refine moves_skip.bind fun _ => (moves_declaration _).bind fun d => ?_
            exact (moves_expect _ _).bind fun _ => .pure (Stmt.declare token.offset d)
          · exact moves_skip.bind fun _ => moves_conditional ih _ _
          · exact moves_skip.bind fun _ => moves_forLoop ih _ _
          · exact moves_skip.bind fun _ => moves_whileLoop ih _ _
          · refine moves_skip.bind fun _ => (moves_expression _).bind fun value => ?_
            exact (moves_expect _ _).bind fun _ => .pure (Stmt.result token.offset value)
          · exact moves_expressionStatement _ _

/-! ### Fields, methods and programs -/

/-- Parameters have names and types and no places. -/
theorem moves_moreParameters (budget : Nat) :
    Moves place id (moreParameters budget) (moreParameters budget) := by
  induction budget with
  | zero => exact moves_fail _ _
  | succ budget ih =>
      refine (moves_expectName _).bind fun name => (moves_expect _ _).bind fun _ => ?_
      refine (moves_expectName _).bind fun type => (moves_accept ",").bind fun _ => .ite ?_ ?_
      · exact ih.bind fun more => .pure _
      · exact (moves_expect _ _).bind fun _ => .pure _

/-- A method behind its first word, whose offset is its mark. -/
theorem moves_method (mark : Offset) (budget : Nat) :
    Moves place (Method.map place) (method mark budget) (method (place mark) budget) := by
  have htype : Moves place id (some <$> expectName (.name .returnType))
      (some <$> expectName (.name .returnType)) :=
    (moves_expectName _).map fun _ => rfl
  refine (moves_expectName _).bind fun name => (moves_expect _ _).bind fun _ => ?_
  refine moves_optional ")" (.pure []) (moves_moreParameters budget) fun parameters => ?_
  refine moves_optional ":" htype (.pure none) fun returnType => ?_
  refine (moves_expect _ _).bind fun _ => ?_
  refine (moves_block (moves_statement budget) _ budget).bind fun body => ?_
  refine (moves_expect _ _).bind fun _ => ?_
  exact .pure (Method.mk mark name (parameters.map (·.1)) (parameters.map (·.2)) returnType body)

/-- A field behind its first word, whose offset is its mark. -/
theorem moves_field (mark : Offset) (budget : Nat) :
    Moves place (Field.map place) (field mark budget) (field (place mark) budget) :=
  (moves_declaration budget).bind fun d => (moves_expect _ _).bind fun _ => .pure (Field.mk mark d)

/-- All items that begin with one word, each with the offset of the word as its
mark. -/
theorem moves_many {f : α → α'} (literal : String) {p : Offset → Parser α}
    {q : Offset → Parser α'} (hitem : ∀ mark, Moves place f (p mark) (q (place mark)))
    (budget : Nat) :
    Moves place (List.map f) (many literal p budget) (many literal q budget) := by
  induction budget with
  | zero => exact .pure []
  | succ budget ih =>
      refine moves_peek.bind fun front => ?_
      cases front with
      | none => exact .pure []
      | some token =>
          have hliteral : (token.moveTo place).literal = token.literal := rfl
          dsimp only [Option.map_some]
          rw [hliteral]
          split
          · refine moves_skip.bind fun _ => (hitem token.offset).bind fun first => ?_
            exact ih.bind fun more => .pure (first :: more)
          · exact .pure []

/-- The parser of programs does the same on moved tokens, and its tree is moved. -/
theorem moves_program (budget : Nat) :
    Moves place (Program.map place) (Parser.program budget) (Parser.program budget) := by
  have hfields : Moves place (List.map (Field.map place))
      (many "LET" (field · budget) budget) (many "LET" (field · budget) budget) :=
    moves_many "LET" (q := (field · budget)) (moves_field · budget) budget
  have hmethods : Moves place (List.map (Method.map place))
      (many "DEF" (method · budget) budget) (many "DEF" (method · budget) budget) :=
    moves_many "DEF" (q := (method · budget)) (moves_method · budget) budget
  refine hfields.bind fun fields => hmethods.bind fun methods => ?_
  refine moves_peek.bind fun front => ?_
  cases front with
  | none => exact .pure (Program.mk fields methods)
  | some token => exact moves_fail _ _

/-! ### Whole lists of tokens -/

/-- An obstacle that is moved makes the error that is moved. Where no token is left,
the error is at the end of the tokens. -/
theorem toError_moveTo (place : Nat → Nat) (tokens others : List Token) (obstacle : Obstacle) :
    (obstacle.moveTo place).toError others
      = (obstacle.toError tokens).moveTo place (endOffset others) := by
  cases obstacle with
  | expected what rest => cases rest <;> rfl
  | malformedNumber token => rfl

/-- Tokens that have been moved make the tree that they made before, moved, or
the error that they made before, moved. -/
theorem parse_map_moveTo (place : Nat → Nat) (tokens : List Token) :
    EndsAlike (fun e e' => e' = e.moveTo place (endOffset (tokens.map (Token.moveTo place))))
      (fun program program' => program' = program.map place)
      (parse tokens) (parse (tokens.map (Token.moveTo place))) := by
  have hmoved : Parser.program (tokens.length + 1) (tokens.map (Token.moveTo place))
      = moveResult place (Program.map place) (Parser.program (tokens.length + 1) tokens) :=
    moves_program _ tokens
  have hlength : (tokens.map (Token.moveTo place)).length = tokens.length :=
    List.length_map _
  unfold parse StateT.run
  rw [hlength, hmoved]
  cases Parser.program (tokens.length + 1) tokens with
  | ok answer => exact .ok rfl
  | error obstacle => exact .error (toError_moveTo place tokens _ obstacle)

/-- Whether tokens make a program is a matter of their words. -/
theorem exists_parse_iff_of_sameWords {tokens others : List Token} (h : SameWords tokens others) :
    (∃ program, parse tokens = .ok program) ↔ ∃ program, parse others = .ok program := by
  have hnumbered (list : List Token) :
      (∃ program, parse list = .ok program) ↔ ∃ program, parse (numbered list) = .ok program := by
    have hmoved := parse_map_moveTo (placeOf list) (numbered list)
    rw [map_moveTo_numbered] at hmoved
    generalize parse (numbered list) = answer at hmoved ⊢
    generalize parse list = answer' at hmoved ⊢
    cases hmoved with
    | ok _ => exact ⟨fun _ => ⟨_, rfl⟩, fun _ => ⟨_, rfl⟩⟩
    | error _ => simp
  rw [hnumbered tokens, hnumbered others, numbered_congr h]

end Proofs

end PlcLang
