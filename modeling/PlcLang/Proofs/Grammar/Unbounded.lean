import PlcLang.Syntax.Parser

/-!
# `PlcLang.Proofs.Grammar.Unbounded`: the parser without a budget

The parser takes a budget and takes its tokens off the front of a list.
`Parser.Unbounded` does neither. It moves a position along the tokens, its
functions call each other and its loops go round as often as they like, and each
run is a least fixed point: `none` is a run that never ends.

Nothing is taken for granted, either. A token that is taken where none is left and a
function that is begun without the token that it begins with are breakdowns
(`Impasse.breakdown`).
-/

set_option autoImplicit false

namespace PlcLang.Parser

/-- The tokens as a parser has them that takes none off: all of them, at all times.
Its functions are walks along them. -/
abbrev Unbounded := List Token

namespace Unbounded

variable {α : Type}

/-- What a run ends with that ends without an answer. -/
inductive Impasse where
  /-- An expectation that is not met, at a position. -/
  | unmet (what : Expectation) (position : Nat)
  /-- A token of a number kind that is no number. -/
  | malformedNumber (token : Token)
  /-- A token that must be there and is not. -/
  | breakdown
deriving DecidableEq, Repr

/-- A walk moves a position, and it is `none` if it never ends. The state is kept
behind the errors, so an impasse has the position that it names and no other. -/
abbrev Walk := StateT Nat (ExceptT Impasse Option)

/-- The precedences, from the one that binds least. `expression` goes through them
in this order. -/
def levels : List Precedence := [.logical, .comparison, .additive, .multiplicative]

/-! ### Single tokens -/

section

variable (tokens : Unbounded)

/-- Ends with the expectation and the position where it is not met. -/
def fail (what : Expectation) : Walk α := fun position =>
  throw (.unmet what position)

/-- The token at the position, if there is one. The walk stays where it is. -/
def peek : Walk (Option Token) := fun position =>
  pure (tokens[position]?, position)

/-- The token at the position, which must be there. Without one it is a breakdown,
where `Parser` would be given the token. -/
def current : Walk Token := do
  match ← peek tokens with
  | some token => pure token
  | none => throw .breakdown

/-- Takes the token at the position, which must be there. Without one it is a
breakdown. -/
def advance : Walk Token := do
  let token ← current tokens
  modify (· + 1)
  pure token

/-- Whether there is a token that has one of these texts. At the end of the tokens
there is none. -/
def atAny (literals : List String) : Walk Bool := do
  match ← peek tokens with
  | some token => pure (literals.contains token.literal)
  | none => pure false

/-- Takes the token if it has this text, and says whether it did. -/
def accept (literal : String) : Walk Bool := do
  if ← atAny tokens [literal] then
    let _ ← advance tokens
    pure true
  else pure false

/-- Takes the token, which must have this text. -/
def expect (literal role : String) : Walk Unit := do
  if ← accept tokens literal then pure () else fail (.literal literal role)

/-- Takes the token, which must be a name, and answers its text. -/
def expectName (what : Expectation) : Walk String := do
  match ← peek tokens with
  | none => fail what
  | some token =>
    if token.isName then
      let name ← advance tokens
      pure name.literal
    else fail what

/-- Takes the token if it is an operator that binds so tightly. -/
def acceptOperator (precedence : Precedence) : Walk (Option BinaryOp) := do
  match ← peek tokens with
  | none => pure none
  | some token =>
    let op := BinaryOp.ofSymbol token.literal
    if op.precedence? = some precedence then
      let _ ← advance tokens
      pure (some op)
    else pure none

/-- What the text of a token means as a number, which it must. `Parser` refuses such
tokens in the same way. -/
def number (read? : String → Option α) (token : Token) : Walk α :=
  match read? token.literal with
  | some value => pure value
  | none => throw (.malformedNumber token)

end

/-! ### Expressions -/

mutual

/-- `Parser.expression`: operands at all levels. -/
def expression (tokens : Unbounded) : Walk (Expr Offset) :=
  tokens |>.binary levels
partial_fixpoint

/-- `Parser.operands`, for the first of these levels, whose operands are those of the
levels behind it. -/
def binary (tokens : Unbounded) (levels : List Precedence) : Walk (Expr Offset) :=
  match levels with
  | [] => tokens |>.postfixChain
  | precedence :: tighter => do
    let left ← tokens |>.binary tighter
    tokens |>.chain precedence tighter left
partial_fixpoint

/-- `Parser.chain`: an operator and its right operand, as often as there is one. -/
def chain (tokens : Unbounded) (precedence : Precedence) (tighter : List Precedence)
    (left : Expr Offset) :
    Walk (Expr Offset) := do
  match ← acceptOperator tokens precedence with
  | none => pure left
  | some op =>
    let right ← tokens |>.binary tighter
    tokens |>.chain precedence tighter (.binary left.mark op left right)
partial_fixpoint

/-- `Parser.postfixChain`: a primary expression and the member accesses behind it. -/
def postfixChain (tokens : Unbounded) : Walk (Expr Offset) := do
  let receiver ← tokens |>.primary
  tokens |>.members receiver
partial_fixpoint

/-- `Parser.members`: a point and a name, and the arguments of a call, as often as
there is a point. -/
def members (tokens : Unbounded) (receiver : Expr Offset) : Walk (Expr Offset) := do
  if ← accept tokens "." then
    let name ← expectName tokens (.name .member)
    if ← accept tokens "(" then
      let arguments ← tokens |>.arguments
      tokens |>.members (.methodCall receiver.mark receiver name arguments)
    else tokens |>.members (.field receiver.mark receiver name)
  else pure receiver
partial_fixpoint

/-- `Parser.arguments`: the arguments behind an opening parenthesis, which may be
none. -/
def arguments (tokens : Unbounded) : Walk (List (Expr Offset)) := do
  if ← accept tokens ")" then pure [] else tokens |>.moreArguments
partial_fixpoint

/-- `Parser.moreArguments`: arguments with commas between them, up to the closing
parenthesis. -/
def moreArguments (tokens : Unbounded) : Walk (List (Expr Offset)) := do
  let argument ← tokens |>.expression
  if ← accept tokens "," then
    let more ← tokens |>.moreArguments
    pure (argument :: more)
  else
    expect tokens ")" "after arguments"
    pure [argument]
partial_fixpoint

/-- `Parser.primary`: a literal, a word, or an expression in parentheses. -/
def primary (tokens : Unbounded) : Walk (Expr Offset) := do
  match ← peek tokens with
  | none => fail .expression
  | some token =>
    match token.kind with
    | .integer => do
      let _ ← advance tokens
      let value ← number readInteger? token
      pure (.integer token.offset value)
    | .decimal => do
      let _ ← advance tokens
      let value ← number Decimal.read? token
      pure (.decimal token.offset value)
    | .character => do
      let _ ← advance tokens
      pure (.character token.offset (literalBody token.literal))
    | .string => do
      let _ ← advance tokens
      pure (.string token.offset (literalBody token.literal))
    | .identifier => tokens |>.word
    | .operator => do
      if ← accept tokens "(" then
        let inner ← tokens |>.expression
        expect tokens ")" "to close group"
        pure (.group token.offset inner)
      else fail .expression
partial_fixpoint

/-- `Parser.word`: a constant, a call or a name. It is begun at its token, which
must be there. -/
def word (tokens : Unbounded) : Walk (Expr Offset) := do
  let token ← current tokens
  if token.literal = "NIL" then
    let _ ← advance tokens
    pure (.nil token.offset)
  else if token.literal = "TRUE" then
    let _ ← advance tokens
    pure (.boolean token.offset true)
  else if token.literal = "FALSE" then
    let _ ← advance tokens
    pure (.boolean token.offset false)
  else
    let name ← expectName tokens .expression
    if ← accept tokens "(" then
      let arguments ← tokens |>.arguments
      pure (.call token.offset name arguments)
    else pure (.var token.offset name)
partial_fixpoint

end

/-! ### Statements -/

/-- `Parser.declaration`: a name, an optional type and an optional first value. -/
def declaration (tokens : Unbounded) : Walk (Declaration Offset) := do
  let name ← expectName tokens (.name .declared)
  let typeName ←
    if ← accept tokens ":" then some <$> expectName tokens (.name .type) else pure none
  let value ← if ← accept tokens "=" then some <$> expression tokens else pure none
  pure ⟨name, typeName, value⟩

/-- A declaration as a statement, with its first word. -/
def declarationStatement (tokens : Unbounded) : Walk (Stmt Offset) := do
  let start ← advance tokens
  let declared ← declaration tokens
  expect tokens ";" "after declaration"
  pure (.declare start.offset declared)

mutual

/-- `Parser.block`: statements up to one of the terminators, which is not taken. -/
def block (tokens : Unbounded) (terminators : List String) : Walk (List (Stmt Offset)) := do
  if ← atAny tokens terminators then pure []
  else
    match ← peek tokens with
    | none => fail (.terminator terminators)
    | some _ =>
      let first ← tokens |>.statement
      let more ← tokens |>.block terminators
      pure (first :: more)
partial_fixpoint

/-- `Parser.statement`: the first word decides which one it is. It is begun at its
token, which must be there. -/
def statement (tokens : Unbounded) : Walk (Stmt Offset) := do
  let token ← current tokens
  if token.literal = "LET" then declarationStatement tokens
  else if token.literal = "IF" then tokens |>.conditional
  else if token.literal = "FOR" then tokens |>.forLoop
  else if token.literal = "WHILE" then tokens |>.whileLoop
  else if token.literal = "RETURN" then
    let _ ← advance tokens
    let value ← expression tokens
    expect tokens ";" "after return value"
    pure (.result token.offset value)
  else
    let target ← expression tokens
    if ← accept tokens "=" then
      let value ← expression tokens
      expect tokens ";" "after assignment"
      pure (.assign token.offset target value)
    else
      expect tokens ";" "after expression"
      pure (.expression token.offset target)
partial_fixpoint

/-- `Parser.conditional`, with its first word. -/
def conditional (tokens : Unbounded) : Walk (Stmt Offset) := do
  let start ← advance tokens
  let condition ← expression tokens
  expect tokens "DO" "after condition"
  let thenBody ← tokens |>.block ["ELSE", "END"]
  let elseBody ← if ← accept tokens "ELSE" then tokens |>.block ["END"] else pure []
  expect tokens "END" "after if statement"
  pure (.cond start.offset condition thenBody elseBody)
partial_fixpoint

/-- `Parser.forLoop`, with its first word. -/
def forLoop (tokens : Unbounded) : Walk (Stmt Offset) := do
  let start ← advance tokens
  let name ← expectName tokens (.name .loopVariable)
  expect tokens "IN" "after loop variable"
  let value ← expression tokens
  expect tokens "DO" "after loop value"
  let body ← tokens |>.block ["END"]
  expect tokens "END" "after loop body"
  pure (.forIn start.offset name value body)
partial_fixpoint

/-- `Parser.whileLoop`, with its first word. -/
def whileLoop (tokens : Unbounded) : Walk (Stmt Offset) := do
  let start ← advance tokens
  let condition ← expression tokens
  expect tokens "DO" "after condition"
  let body ← tokens |>.block ["END"]
  expect tokens "END" "after loop body"
  pure (.whileDo start.offset condition body)
partial_fixpoint

end

/-! ### Fields, methods and the whole -/

/-- `Parser.moreParameters`: parameters with commas between them, up to the closing
parenthesis. -/
def moreParameters (tokens : Unbounded) : Walk (List (String × String)) := do
  let name ← expectName tokens (.name .parameter)
  expect tokens ":" "after parameter name"
  let typeName ← expectName tokens (.name .parameterType)
  if ← accept tokens "," then
    let more ← tokens |>.moreParameters
    pure ((name, typeName) :: more)
  else
    expect tokens ")" "after parameters"
    pure [(name, typeName)]
partial_fixpoint

/-- `Parser.method`, with its first word. -/
def method (tokens : Unbounded) : Walk (Method Offset) := do
  let start ← advance tokens
  let name ← expectName tokens (.name .method)
  expect tokens "(" "after method name"
  let parameters ← if ← accept tokens ")" then pure [] else moreParameters tokens
  let returnType ←
    if ← accept tokens ":" then some <$> expectName tokens (.name .returnType) else pure none
  expect tokens "DO" "before method body"
  let body ← block tokens ["END"]
  expect tokens "END" "after method body"
  pure ⟨start.offset, name, parameters.map (·.1), parameters.map (·.2), returnType, body⟩

/-- `Parser.field`, with its first word. -/
def field (tokens : Unbounded) : Walk (Field Offset) := do
  let start ← advance tokens
  let declared ← declaration tokens
  expect tokens ";" "after field declaration"
  pure ⟨start.offset, declared⟩

/-- `Parser.many`, where each item takes its first word itself. -/
def many (tokens : Unbounded) (literal : String) (item : Walk α) : Walk (List α) := do
  if ← atAny tokens [literal] then
    let first ← item
    let more ← tokens |>.many literal item
    pure (first :: more)
  else pure []
partial_fixpoint

/-- `Parser.program`: the fields, the methods and nothing behind them. -/
def program (tokens : Unbounded) : Walk (Program Offset) := do
  let fields ← many tokens "LET" (field tokens)
  let methods ← many tokens "DEF" (method tokens)
  match ← peek tokens with
  | none => pure ⟨fields, methods⟩
  | some _ => fail .methodOrEnd

/-! ### Calls -/

/-- The functions of the parser below the whole, and its loops, each with what it is
given. What is stated of all of them is stated of a call. -/
inductive Call where
  | field
  | method
  | declaration
  | block (terminators : List String)
  | statement
  | declarationStatement
  | conditional
  | forLoop
  | whileLoop
  | expression
  | binary (levels : List Precedence)
  | postfixChain
  | arguments
  | primary
  | word
  | fields
  | methods
  | moreParameters
  | chain (precedence : Precedence) (tighter : List Precedence) (left : Expr Offset)
  | members (receiver : Expr Offset)
  | moreArguments

namespace Call

/-- What a call answers with: the tree that the function builds. -/
def Answer : Call → Type
  | field => Field Offset
  | method => Method Offset
  | declaration => Declaration Offset
  | statement | declarationStatement | conditional | forLoop | whileLoop => Stmt Offset
  | block _ => List (Stmt Offset)
  | arguments | moreArguments => List (Expr Offset)
  | expression | binary _ | postfixChain | primary | word | chain .. | members _ => Expr Offset
  | fields => List (Field Offset)
  | methods => List (Method Offset)
  | moreParameters => List (String × String)

/-- The walk that a call makes: the function of `Parser.Unbounded` that it names. -/
def run (tokens : List Token) : (call : Call) → Walk call.Answer
  | field => Unbounded.field tokens
  | method => Unbounded.method tokens
  | declaration => Unbounded.declaration tokens
  | block terminators => Unbounded.block tokens terminators
  | statement => Unbounded.statement tokens
  | declarationStatement => Unbounded.declarationStatement tokens
  | conditional => Unbounded.conditional tokens
  | forLoop => Unbounded.forLoop tokens
  | whileLoop => Unbounded.whileLoop tokens
  | expression => Unbounded.expression tokens
  | binary levels => Unbounded.binary tokens levels
  | postfixChain => Unbounded.postfixChain tokens
  | arguments => Unbounded.arguments tokens
  | primary => Unbounded.primary tokens
  | word => Unbounded.word tokens
  | fields => many tokens "LET" (Unbounded.field tokens)
  | methods => many tokens "DEF" (Unbounded.method tokens)
  | moreParameters => Unbounded.moreParameters tokens
  | chain precedence tighter left => Unbounded.chain tokens precedence tighter left
  | members receiver => Unbounded.members tokens receiver
  | moreArguments => Unbounded.moreArguments tokens

/-- Whether a call may answer without having taken a token: a block, and a loop that
may not go round once. -/
def mayStay : Call → Bool
  | block _ | fields | methods | chain .. | members _ => true
  | _ => false

end Call

end Unbounded

end PlcLang.Parser
