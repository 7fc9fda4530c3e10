import PlcLang.Decimal.Notation
import PlcLang.Syntax
import PlcLang.Text.Escape
import PlcLang.Text.Spelled
import PlcLang.Token

/-!
# `PlcLang.Syntax.Parser`: from tokens to a tree

`parse` reads a whole program by recursive descent and stops at the first
token that fits nowhere. Keywords and punctuation are known by their text
whatever kind the token has; names and literals by their kind.

Every function that repeats or nests takes a budget. One unit is spent for
each repetition and each level of nesting, and each of those reads at
least one token, so a budget of one more than there are tokens is never
used up: where the budget is zero no token is left, and the answer given
there is the one for the end of the input.
-/

set_option autoImplicit false

namespace PlcLang

/-- What a name is expected for. It only tells what to call the name in a message. -/
inductive NameRole where
  | declared
  | type
  | method
  | parameter
  | parameterType
  | returnType
  | loopVariable
  | member
deriving DecidableEq, Repr

/-- What would have let the parser go on. It names one thing, though others might
have done as well. -/
inductive Expectation where
  | methodOrEnd
  | literal (text role : String)
  | terminator (texts : List String)
  | name (role : NameRole)
  | expression
deriving DecidableEq, Repr

/-- The words for what a name is expected for. -/
def NameRole.text : NameRole → String
  | declared => "variable name"
  | type => "type name"
  | method => "method name"
  | parameter => "parameter name"
  | parameterType => "parameter type"
  | returnType => "return type"
  | loopVariable => "loop variable"
  | member => "member name"

/-- A text between single quotes, as it is. -/
def quoted (text : String) : String :=
  "'" ++ text ++ "'"

/-- The words for what is expected. -/
def Expectation.text : Expectation → String
  | methodOrEnd => "'DEF' or end of input"
  | literal text role => quoted text ++ " " ++ role
  | terminator texts => " or ".intercalate (texts.map quoted)
  | name role => role.text
  | expression => "expression"

/-- Why no tree can be made of a list of tokens. -/
inductive ParseError where
  /-- A token stands where only something else can. -/
  | unexpected (expected : Expectation) (token : Token)
  /-- The tokens end at `offset` where something must follow. -/
  | unfinished (expected : Expectation) (offset : Offset)
  /-- A token of a number kind that is no number. The lexer makes none. -/
  | malformedNumber (token : Token)
deriving DecidableEq, Repr

/-- What stops a parser: an expectation and the tokens it finds instead, or
a number that cannot be read. -/
inductive Obstacle where
  | expected (what : Expectation) (rest : List Token)
  | malformedNumber (token : Token)
deriving DecidableEq, Repr

/-- The error of an obstacle met in `tokens`. If no token is left, the place is the
end of the last one. -/
def Obstacle.toError (tokens : List Token) : Obstacle → ParseError
  | expected what (token :: _) => .unexpected what token
  | expected what [] => .unfinished what (endOffset tokens)
  | malformedNumber token => .malformedNumber token

/-- A parser takes tokens from the front of a list, or stops at an obstacle. -/
abbrev Parser := StateT (List Token) (Except Obstacle)

namespace Parser

/-! ### What is relied on -/

/-- What a parser does where it relies on something that others have seen to: that a token is
there which has been looked at, or that the text of a token is a number. It is told there whether
this holds, and what the answer is. If it holds, the answer is given. -/
class Reliance where
  rely {α : Type} (holds : Bool) (answer : Parser α) : Parser α
  rely_true {α : Type} (answer : Parser α) : rely true answer = answer

/-- The parser of the language gives its answer in any case. Another one may raise an alarm where
what it relies on does not hold. -/
instance Reliance.trusting : Reliance where
  rely _ answer := answer
  rely_true _ := rfl

export Reliance (rely rely_true)

/-! ### Single tokens -/

/-- Stops with the expectation and the tokens that are left. -/
def fail {α : Type} (expected : Expectation) : Parser α := fun tokens =>
  .error (.expected expected tokens)

/-- The next token, which is left where it is. -/
def peek : Parser (Option Token) := fun tokens =>
  .ok (tokens.head?, tokens)

/-- Whether the next token has one of these texts. At the end of the tokens there is
none. -/
def atAny (literals : List String) : Parser Bool := fun tokens =>
  match tokens with
  | token :: _ => .ok (literals.contains token.literal, tokens)
  | [] => .ok (false, tokens)

/-- The token in front is seen, and stays. -/
theorem peek_cons (token : Token) (rest : List Token) :
    peek (token :: rest) = .ok (some token, token :: rest) :=
  rfl

/-- A sequence of parsers whose first one has answered. -/
theorem bind_of_ok {α β : Type} {p : Parser α} {f : α → Parser β} {tokens middle : List Token}
    {a : α} (h : p tokens = .ok (a, middle)) : (p >>= f) tokens = f a middle := by
  show (p tokens >>= fun answer => f answer.1 answer.2) = _
  rw [h]
  rfl

variable [Reliance]

/-- Relies on there being a token, which is left where it is. -/
def present : Parser Unit := fun tokens =>
  rely (!tokens.isEmpty) (pure ()) tokens

/-- Drops the next token. It is called where there is one. -/
def skip : Parser Unit := do
  present
  fun tokens => .ok ((), tokens.drop 1)

/-- Takes the next token if it has this text. Its kind does not matter: a string
cannot have the text of a keyword, since its text has the quotes in it. -/
def accept (literal : String) : Parser Bool := do
  if ← atAny [literal] then
    skip
    pure true
  else pure false

/-- Takes the next token, which must have this text. -/
def expect (literal role : String) : Parser Unit := do
  if ← accept literal then pure () else fail (.literal literal role)

/-- Takes the next token, which must be a name: an identifier that is no keyword. -/
def expectName (expected : Expectation) : Parser String := do
  match ← peek with
  | none => fail expected
  | some token =>
    if token.isName then
      skip
      pure token.literal
    else fail expected

/-- Takes the next token if it is an operator that binds so tightly. An assignment's
equals sign is none. -/
def acceptOperator (precedence : Precedence) : Parser (Option BinaryOp) := do
  match ← peek with
  | none => pure none
  | some token =>
    let op := BinaryOp.ofSymbol token.literal
    if op.precedence? = some precedence then
      skip
      pure (some op)
    else pure none

section Tokens

variable (token : Token) (rest : List Token)

/-- The token in front is there, and stays. -/
theorem present_cons : present (token :: rest) = .ok ((), token :: rest) := by
  show rely true (pure ()) (token :: rest) = _
  rw [rely_true]
  rfl

/-- The token in front is dropped. -/
theorem skip_cons : skip (token :: rest) = .ok ((), rest) :=
  bind_of_ok (present_cons token rest)

/-- No word is accepted at the end. -/
@[simp] theorem accept_nil (literal : String) : accept literal [] = .ok (false, []) :=
  rfl

/-- The token in front is accepted for its text. -/
theorem accept_cons (literal : String) :
    accept literal (token :: rest)
      = if token.literal = literal then .ok (true, rest) else .ok (false, token :: rest) := by
  have hlook : atAny [literal] (token :: rest)
      = .ok (decide (token.literal = literal), token :: rest) := by
    simp [atAny]
  rw [accept, bind_of_ok hlook]
  by_cases h : token.literal = literal
  · rw [if_pos h, if_pos (decide_eq_true h), bind_of_ok (skip_cons token rest)]
    rfl
  · rw [if_neg h, if_neg (by simp [h])]
    rfl

/-- No word is there to be expected at the end. -/
@[simp] theorem expect_nil (literal role : String) :
    expect literal role [] = .error (.expected (.literal literal role) []) :=
  rfl

/-- The token in front is the one that is expected, by its text, or it stands in its place. -/
theorem expect_cons (literal role : String) :
    expect literal role (token :: rest)
      = if token.literal = literal then .ok ((), rest)
        else .error (.expected (.literal literal role) (token :: rest)) := by
  have haccept := accept_cons token rest literal
  by_cases h : token.literal = literal
  · rw [if_pos h] at haccept ⊢
    rw [expect, bind_of_ok haccept]
    rfl
  · rw [if_neg h] at haccept ⊢
    rw [expect, bind_of_ok haccept]
    rfl

/-- No name is there to be expected at the end. -/
@[simp] theorem expectName_nil (expected : Expectation) :
    expectName expected [] = .error (.expected expected []) :=
  rfl

/-- The token in front is a name, or stands in its place. -/
theorem expectName_cons (expected : Expectation) :
    expectName expected (token :: rest)
      = if token.isName then .ok (token.literal, rest)
        else .error (.expected expected (token :: rest)) := by
  rw [expectName, bind_of_ok (peek_cons token rest)]
  dsimp only
  split
  · rw [bind_of_ok (skip_cons token rest)]
    rfl
  · rfl

/-- No operator is accepted at the end. -/
@[simp] theorem acceptOperator_nil (precedence : Precedence) :
    acceptOperator precedence [] = .ok (none, []) :=
  rfl

/-- The token in front is accepted if it is an operator of the precedence. -/
theorem acceptOperator_cons (precedence : Precedence) :
    acceptOperator precedence (token :: rest)
      = if (BinaryOp.ofSymbol token.literal).precedence? = some precedence
        then .ok (some (BinaryOp.ofSymbol token.literal), rest)
        else .ok (none, token :: rest) := by
  rw [acceptOperator, bind_of_ok (peek_cons token rest)]
  dsimp only
  split
  · rw [bind_of_ok (skip_cons token rest)]
    rfl
  · rfl

end Tokens

/-! ### Expressions -/

/-- The body of a quoted literal: all but its first and last character, with the
escapes in it read. -/
def literalBody (literal : String) : String :=
  Text.unescape (String.ofList (literal.toList.drop 1).dropLast)

/-- More operands behind `left`, each behind an operator of one precedence.
They group to the left. -/
def chain (precedence : Precedence) (operand : Parser (Expr Offset)) :
    Nat → Expr Offset → Parser (Expr Offset)
  | 0, left => pure left
  | budget + 1, left => do
    match ← acceptOperator precedence with
    | none => pure left
    | some op =>
      let right ← operand
      -- A binary expression is where its left operand is, not where its operator is.
      chain precedence operand budget (.binary left.mark op left right)

/-- Operands with operators of one precedence between them. A single operand is one
without an operator. -/
def operands (precedence : Precedence) (budget : Nat) (operand : Parser (Expr Offset)) :
    Parser (Expr Offset) := do
  let left ← operand
  chain precedence operand budget left

/-- The rest of a list of arguments that has begun, and its closing parenthesis.
Behind a comma there has to be another argument. -/
def moreArguments (expression : Parser (Expr Offset)) : Nat → Parser (List (Expr Offset))
  | 0 => fail .expression
  | budget + 1 => do
    let argument ← expression
    if ← accept "," then
      let more ← moreArguments expression budget
      pure (argument :: more)
    else
      expect ")" "after arguments"
      pure [argument]

/-- Arguments of a call behind its opening parenthesis. -/
def arguments (expression : Parser (Expr Offset)) (budget : Nat) :
    Parser (List (Expr Offset)) := do
  if ← accept ")" then pure [] else moreArguments expression budget

/-- A word where an expression begins: a literal, a call or a variable. -/
def word (expression : Parser (Expr Offset)) (budget : Nat) (token : Token) :
    Parser (Expr Offset) := do
  present
  match token.literal with
  | "NIL" => do
    skip
    pure (.nil token.offset)
  | "TRUE" => do
    skip
    pure (.boolean token.offset true)
  | "FALSE" => do
    skip
    pure (.boolean token.offset false)
  | _ => do
    -- The other keywords are identifiers to the lexer, but no names: they stop here.
    let name ← expectName .expression
    if ← accept "(" then
      let arguments ← arguments expression budget
      pure (.call token.offset name arguments)
    else pure (.var token.offset name)

/-- An expression without operators and member accesses. -/
def primary (expression : Parser (Expr Offset)) (budget : Nat) : Parser (Expr Offset) := do
  match ← peek with
  | none => fail .expression
  | some token =>
    match token.kind with
    | .integer =>
      skip
      match readInteger? token.literal with
      | some value =>
        rely (digitCount token.literal.toList ≤ digitLimit) (pure (.integer token.offset value))
      | none => rely false (throw (.malformedNumber token))
    | .decimal =>
      skip
      match Decimal.read? token.literal with
      | some value => pure (.decimal token.offset value)
      | none => rely false (throw (.malformedNumber token))
    | .character =>
      skip
      pure (.character token.offset (literalBody token.literal))
    | .string =>
      skip
      pure (.string token.offset (literalBody token.literal))
    | .identifier => word expression budget token
    -- Of all operators only a parenthesis begins an expression. There are no signs: the lexer has
    -- put them into the numbers.
    | .operator =>
      if ← accept "(" then
        let inner ← expression
        expect ")" "to close group"
        pure (.group token.offset inner)
      else fail .expression

/-- Member accesses and method calls behind a receiver. Each is the receiver of the
next. -/
def members (expression : Parser (Expr Offset)) : Nat → Expr Offset → Parser (Expr Offset)
  | 0, receiver => pure receiver
  | budget + 1, receiver => do
    if ← accept "." then
      let name ← expectName (.name .member)
      if ← accept "(" then
        let arguments ← arguments expression budget
        members expression budget (.methodCall receiver.mark receiver name arguments)
      else members expression budget (.field receiver.mark receiver name)
    else pure receiver

/-- An expression without operators: a primary one and the members behind it. -/
def postfixChain (expression : Parser (Expr Offset)) (budget : Nat) : Parser (Expr Offset) := do
  let receiver ← primary expression budget
  members expression budget receiver

/-- An expression, one precedence inside the other, the tightest innermost. Nested
ones are behind at least one token each. -/
def expression : Nat → Parser (Expr Offset)
  | 0 => fail .expression
  | budget + 1 =>
    operands .logical (budget + 1) <|
    operands .comparison (budget + 1) <|
    operands .additive (budget + 1) <|
    operands .multiplicative (budget + 1) <|
    postfixChain (expression budget) (budget + 1)

/-! ### Statements -/

/-- The name of a declared variable, its type and its first value. Both may be
missing here, which the checker does not let pass. -/
def declaration (budget : Nat) : Parser (Declaration Offset) := do
  let name ← expectName (.name .declared)
  let typeName ←
    if ← accept ":" then some <$> expectName (.name .type) else pure none
  let value ← if ← accept "=" then some <$> expression budget else pure none
  pure ⟨name, typeName, value⟩

/-- Statements up to, but not including, one of the terminators. A block may be
empty here. -/
def block (terminators : List String) (statement : Parser (Stmt Offset)) :
    Nat → Parser (List (Stmt Offset))
  | 0 => fail (.terminator terminators)
  | budget + 1 => do
    if ← atAny terminators then pure []
    else
      match ← peek with
      | none => fail (.terminator terminators)
      | some _ =>
        let first ← statement
        let more ← block terminators statement budget
        pure (first :: more)

/-- A conditional behind its first word. -/
def conditional (mark : Offset) (statement : Parser (Stmt Offset)) (budget : Nat) :
    Parser (Stmt Offset) := do
  let condition ← expression budget
  expect "DO" "after condition"
  let thenBody ← block ["ELSE", "END"] statement budget
  -- `ELSE` and `END` both end the first body and are left where they are; whichever it is tells
  -- whether there is a second body.
  let elseBody ← if ← accept "ELSE" then block ["END"] statement budget else pure []
  expect "END" "after if statement"
  pure (.cond mark condition thenBody elseBody)

/-- A loop over a sequence behind its first word. -/
def forLoop (mark : Offset) (statement : Parser (Stmt Offset)) (budget : Nat) :
    Parser (Stmt Offset) := do
  let name ← expectName (.name .loopVariable)
  expect "IN" "after loop variable"
  let value ← expression budget
  expect "DO" "after loop value"
  let body ← block ["END"] statement budget
  expect "END" "after loop body"
  pure (.forIn mark name value body)

/-- A loop on a condition behind its first word. -/
def whileLoop (mark : Offset) (statement : Parser (Stmt Offset)) (budget : Nat) :
    Parser (Stmt Offset) := do
  let condition ← expression budget
  expect "DO" "after condition"
  let body ← block ["END"] statement budget
  expect "END" "after loop body"
  pure (.whileDo mark condition body)

/-- A statement that begins with an expression. -/
def expressionStatement (mark : Offset) (budget : Nat) : Parser (Stmt Offset) := do
  let target ← expression budget
  -- What stands on the left may be any expression here; that it can be assigned to is for the
  -- checker to say.
  if ← accept "=" then
    let value ← expression budget
    expect ";" "after assignment"
    pure (.assign mark target value)
  else
    expect ";" "after expression"
    pure (.expression mark target)

/-- A statement, known by its first word. Nested ones are behind at least one token
each. -/
def statement : Nat → Parser (Stmt Offset)
  | 0 => fail .expression
  | budget + 1 => do
    match ← peek with
    | none => rely false (fail .expression)
    | some token =>
      match token.literal with
      | "LET" =>
        skip
        let declared ← declaration (budget + 1)
        expect ";" "after declaration"
        pure (.declare token.offset declared)
      | "IF" =>
        skip
        conditional token.offset (statement budget) (budget + 1)
      | "FOR" =>
        skip
        forLoop token.offset (statement budget) (budget + 1)
      | "WHILE" =>
        skip
        whileLoop token.offset (statement budget) (budget + 1)
      | "RETURN" =>
        skip
        let value ← expression (budget + 1)
        expect ";" "after return value"
        pure (.result token.offset value)
      | _ => expressionStatement token.offset (budget + 1)

/-! ### Fields, methods and the whole -/

/-- The rest of a list of parameters that has begun, and its closing
parenthesis: each parameter with its type. -/
def moreParameters : Nat → Parser (List (String × String))
  | 0 => fail (.name .parameter)
  | budget + 1 => do
    let name ← expectName (.name .parameter)
    expect ":" "after parameter name"
    let typeName ← expectName (.name .parameterType)
    if ← accept "," then
      let more ← moreParameters budget
      pure ((name, typeName) :: more)
    else
      expect ")" "after parameters"
      pure [(name, typeName)]

/-- A method behind its first word. Parameters come in pairs of a name and a type,
which the tree keeps in two lists. -/
def method (mark : Offset) (budget : Nat) : Parser (Method Offset) := do
  let name ← expectName (.name .method)
  expect "(" "after method name"
  let parameters ← if ← accept ")" then pure [] else moreParameters budget
  let returnType ←
    if ← accept ":" then some <$> expectName (.name .returnType) else pure none
  expect "DO" "before method body"
  let body ← block ["END"] (statement budget) budget
  expect "END" "after method body"
  pure ⟨mark, name, parameters.map (·.1), parameters.map (·.2), returnType, body⟩

/-- A field behind its first word. -/
def field (mark : Offset) (budget : Nat) : Parser (Field Offset) := do
  let declared ← declaration budget
  expect ";" "after field declaration"
  pure ⟨mark, declared⟩

/-- All that begin with this word, one behind the other. None at all will do. -/
def many {α : Type} (literal : String) (item : Offset → Parser α) : Nat → Parser (List α)
  | 0 => pure []
  | budget + 1 => do
    -- A token of another text is no error yet: it may begin what comes next.
    match ← peek with
    | none => pure []
    | some token =>
      if token.literal = literal then
        skip
        let first ← item token.offset
        let more ← many literal item budget
        pure (first :: more)
      else pure []

/-- A whole program: fields, then methods, then nothing. A field behind a method is
where only another method could stand. -/
def program (budget : Nat) : Parser (Program Offset) := do
  let fields ← many "LET" (field · budget) budget
  let methods ← many "DEF" (method · budget) budget
  match ← peek with
  | none => pure ⟨fields, methods⟩
  | some _ => fail .methodOrEnd

end Parser

/-- The parser of the language goes on, whether a token is there or not. -/
@[simp] theorem Parser.present_bind {α : Type} (next : Unit → Parser α) :
    (present >>= next) = next () :=
  rfl

/-- The tree of a list of tokens. The budget is one more than there are tokens,
which no program uses up. -/
def parse [Parser.Reliance] (tokens : List Token) : Except ParseError (Program Offset) :=
  match (Parser.program (tokens.length + 1)).run tokens with
  | .ok (program, _) => .ok program
  | .error obstacle => .error (obstacle.toError tokens)

namespace ParseError

/-- The wording: what is expected and what is found. A malformed number
has no wording of its own. -/
def message : ParseError → String
  | unexpected expected token =>
    "expected " ++ expected.text ++ ", found " ++ Text.spelled token.literal
  | unfinished expected _ => "expected " ++ expected.text ++ ", found end of input"
  | malformedNumber token => "malformed number " ++ Text.spelled token.literal

/-- Where the error is: at the token that cannot stand there, or behind the last
one. -/
def offset : ParseError → Offset
  | unexpected _ token | malformedNumber token => token.offset
  | unfinished _ offset => offset

/-- How many characters the error covers: those of its token, and one where there is
none. -/
def length : ParseError → Nat
  | unexpected _ token | malformedNumber token => token.literal.length
  | unfinished .. => 1

end ParseError

end PlcLang
