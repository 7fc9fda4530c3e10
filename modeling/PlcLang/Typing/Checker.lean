import PlcLang.Typing.CheckError

/-!
# `PlcLang.Typing.Checker`: names resolved and types assigned

`Checker.program` goes over a program once, from top to bottom: fields in
order, then the headers of all methods, then their bodies. It gives every
expression a type and every name the symbol it stands for, and stops at
the first broken rule. Scopes live in an arena that the checker threads
through; what the program's own scope holds stays in it, after an error,
too.

How a program is checked is written once, for every `Checker`: a record of
how nodes are marked, and of what is done besides around parts of the tree
and before the symbols are used. `Checker.plain` does nothing besides; it is
the one that checks programs. The others are for statements about checks:
they keep the symbols that are seen at a node, or raise an alarm where
something must not happen.
-/

set_option autoImplicit false

namespace PlcLang

/-- The symbols in scope. -/
abbrev Symbols := Arena VariableSymbol FunctionSymbol

/-- The symbol that a node stands for. -/
inductive Symbol where
  | variable (symbol : VariableSymbol)
  | function (symbol : FunctionSymbol)
deriving DecidableEq, Repr

/-- The mark of a checked node: where it is, its type if it is an
expression, and its symbol if it names something. -/
structure Note where
  offset : Offset
  type : Option Ty := none
  symbol : Option Symbol := none
deriving DecidableEq, Repr

/-- The mark of a node about which nothing is found out. -/
def Note.plain (offset : Offset) : Note :=
  ⟨offset, none, none⟩

/-- The checker changes the symbols in scope, or fails. A failure leaves
them as they are at that moment. -/
abbrev Check := EStateM CheckError Symbols

/-- What is about to be done in a check. -/
inductive Checker.Moment where
  /-- A name is defined in a scope. -/
  | define (scope : ScopeId)
  /-- A scope is released. -/
  | release (scope : ScopeId)
  /-- A variable is looked up from a scope. -/
  | access (name : String) (scope : ScopeId)
  /-- A function is looked up from a scope. -/
  | find (key : FunctionKey) (scope : ScopeId)
  /-- An expression is rejected for what it is, and the message shows it. -/
  | complain (cause : CheckCause)
  /-- A variable is defined for which no type has been found. -/
  | untyped
  /-- So many methods meet so many symbols, one for each. -/
  | pair (methods symbols : Nat)

/-- What is done in a check besides what every check does. Nodes get marks
`μ`, and `κ` says where in the tree the check is. -/
structure Checker (μ κ : Type) where
  /-- The scope that is the current one. -/
  scope : κ → ScopeId
  /-- Where a check begins: in the program's scope. -/
  root : κ
  /-- Where the parts of an expression or a statement are. -/
  deeper : κ → κ
  /-- Where a block is that has this scope of its own. -/
  inside : ScopeId → κ → κ
  /-- How nodes are marked with what is found out about them. -/
  look : κ → Check (Note → μ)
  /-- What the check of a part becomes: of an expression, of a statement, and
  of what has a scope of its own, seen from outside and from inside. -/
  part : {α : Type} → κ → Check α → Check α := fun _ x => x
  /-- What is done first. -/
  before : Checker.Moment → Check Unit := fun _ => pure ()

namespace Checker

/-! ### Rules on literals -/

/-- Integer literals fit in 32 bits. What is computed need not. -/
def fitsInteger (value : Int) : Bool :=
  -2147483648 ≤ value && value ≤ 2147483647

/-- The largest magnitude of a decimal literal: `1.7976931348623157e308`. -/
def decimalLimit : Decimal :=
  ⟨false, 17976931348623157, 292⟩

/-- Decimal literals are no larger than the limit. There is no smallest one. -/
def fitsDecimal (value : Decimal) : Bool :=
  value.abs.compare decimalLimit != .gt

/-! ### Rules on types -/

/-- Fails with a cause at a place. The symbols stay as they are. -/
def reject {α : Type} (cause : CheckCause) (offset : Option Offset) : Check α :=
  throw ⟨cause, offset⟩

section

variable (types : TypeTable)

/-- The type of that name, which must exist. -/
def resolveType (name : String) (offset : Offset) : Check Ty :=
  match types.resolve? name with
  | some type => pure type
  | none => reject (.unknownType name) offset

/-- A value of type `found` must be good where `expected` is wanted. This is the one
way in which types are compared. -/
def require (expected found : Ty) (offset : Offset) : Check Unit :=
  if types.assignable expected found then pure () else reject (.mismatch expected found) offset

/-- The type of a binary expression, given the types of its operands. -/
def binaryType (op : BinaryOp) (left right : Ty) (offset leftOffset rightOffset : Offset) :
    Check Ty :=
  match op.precedence? with
  | some .logical => do
    require types .boolean left leftOffset
    require types .boolean right rightOffset
    pure .boolean
  | some .comparison => do
    require types .comparable left leftOffset
    require types .comparable right rightOffset
    pure .boolean
  | _ =>
    -- One string operand is enough for a `+`, whatever the other one is: it is written out and
    -- joined on.
    if op = .add ∧ (left = .string ∨ right = .string) then pure .string
    else if left.isNumeric ∧ left = right then pure left
    else reject (.wrongOperands op left right) offset

end

variable {μ κ : Type} (c : Checker μ κ)

/-! ### Scopes -/

/-- Releases a scope and those pushed after it. The program's scope is never
released. -/
def leave (index : ScopeId) : Check Unit := do
  c.before (.release index)
  modify fun symbols => (symbols.release index).toOption.getD symbols

/-- Checks `body` in a fresh scope below the current one, which is gone
afterwards, whether `body` fails or not. -/
def withScope {α : Type} (here : κ) (body : κ → Check α) : Check α :=
  c.part here do
    let index := (← get).size
    modify (·.push (c.scope here))
    let there := c.inside index here
    always (c.part there (body there)) (c.leave index)

/-- Defines a variable in the current scope, which must not have it. A variable of
that name further up is hidden. -/
def defineVariable (here : κ) (symbol : VariableSymbol) (cause : CheckCause) (offset : Offset) :
    Check Unit := do
  c.before (.define (c.scope here))
  fun symbols =>
    match symbols.defineVariable (c.scope here) symbol.name symbol with
    | .ok (none, symbols) => .ok () symbols
    | .ok (some _, symbols) => .error ⟨cause, some offset⟩ symbols
    | .error _ => .error ⟨cause, some offset⟩ symbols

/-- Defines a function in the program's scope, which must not have it. No function
is defined anywhere else. -/
def defineFunction (symbol : FunctionSymbol) (offset : Offset) : Check Unit := do
  c.before (.define Arena.root)
  fun symbols =>
    match symbols.defineFunction Arena.root symbol.key symbol with
    | .ok (none, symbols) => .ok () symbols
    | .ok (some _, symbols) => .error ⟨.methodAlreadyDefined symbol.key, some offset⟩ symbols
    | .error _ => .error ⟨.methodAlreadyDefined symbol.key, some offset⟩ symbols

/-- The variable of that name, seen from the current scope. -/
def findVariable (here : κ) (name : String) (offset : Offset) : Check VariableSymbol := do
  c.before (.access name (c.scope here))
  match (← get).boundVariable? (c.scope here) name with
  | some symbol => pure symbol
  | none => reject (.undefinedVariable name) offset

/-- The function of that name and arity, seen from the current scope. -/
def findFunction (here : κ) (key : FunctionKey) (offset : Offset) : Check FunctionSymbol := do
  c.before (.find key (c.scope here))
  match (← get).boundFunction? (c.scope here) key with
  | some symbol => pure symbol
  | none => reject (.undefinedFunction key) offset

/-- Rejects an expression for what it is, and not for its type. -/
def complain {α : Type} (cause : CheckCause) (offset : Option Offset) : Check α := do
  c.before (.complain cause)
  reject cause offset

variable (types : TypeTable)

/-! ### Expressions -/

mutual

/-- The type of an expression, and the expression with its marks. Nothing but the
expression and the symbols in scope decides about it. -/
def infer (here : κ) (e : Expr Offset) : Check (Ty × Expr μ) :=
  c.part here do
    let note ← c.look here
    match e with
    | .nil m => pure (.nil, .nil (note ⟨m, some .nil, none⟩))
    | .boolean m value => pure (.boolean, .boolean (note ⟨m, some .boolean, none⟩) value)
    | .integer m value =>
      if fitsInteger value then pure (.integer, .integer (note ⟨m, some .integer, none⟩) value)
      else c.complain (.wideInteger value) m
    | .decimal m value =>
      if fitsDecimal value then pure (.decimal, .decimal (note ⟨m, some .decimal, none⟩) value)
      else reject (.largeDecimal value) m
    | .character m text => pure (.character, .character (note ⟨m, some .character, none⟩) text)
    | .string m text => pure (.string, .string (note ⟨m, some .string, none⟩) text)
    | .group m inner =>
      -- Parentheses are there for operators only; around anything else they are refused before
      -- the inside is looked at.
      if inner.kind = .binary then do
        let (type, inner) ← infer (c.deeper here) inner
        pure (type, .group (note ⟨m, some type, none⟩) inner)
      else reject .needlessGroup m
    | .binary m op left right => do
      let (leftType, left') ← infer (c.deeper here) left
      let (rightType, right') ← infer (c.deeper here) right
      let type ← binaryType types op leftType rightType m left.mark right.mark
      pure (type, .binary (note ⟨m, some type, none⟩) op left' right')
    | .var m name => do
      let symbol ← c.findVariable (c.deeper here) name m
      pure (symbol.type, .var (note ⟨m, some symbol.type, some (.variable symbol)⟩) name)
    | .field m receiver name => do
      let (receiverType, receiver') ← infer (c.deeper here) receiver
      match types.field? receiverType name with
      | some symbol =>
        pure (symbol.type,
          .field (note ⟨m, some symbol.type, some (.variable symbol)⟩) receiver' name)
      | none => reject (.noField receiverType name) m
    | .call m name arguments => do
      -- The function is looked up before its arguments are checked, so of two problems that of
      -- the name is reported.
      let symbol ← c.findFunction (c.deeper here) (name, arguments.length) m
      let arguments' ← inferArguments (c.deeper here) symbol.parameters arguments
      pure (symbol.result,
        .call (note ⟨m, some symbol.result, some (.function symbol)⟩) name arguments')
    | .methodCall m receiver name arguments => do
      let (receiverType, receiver') ← infer (c.deeper here) receiver
      let key : FunctionKey := (name, arguments.length)
      match types.method? receiverType key with
      | some symbol =>
        let arguments' ← inferArguments (c.deeper here) symbol.parameters arguments
        pure (symbol.result,
          .methodCall (note ⟨m, some symbol.result, some (.function symbol)⟩) receiver' name
            arguments')
      | none => reject (.noMethod receiverType key) m
    | .foreign m kind written =>
      c.complain (.unsupported kind) (Expr.foreign m kind written).place?

/-- Arguments with their marks, each good for its parameter. What goes
beyond the parameters is left as it is. -/
def inferArguments (here : κ) : List Ty → List (Expr Offset) → Check (List (Expr μ))
  | _, [] => pure []
  -- Functions are found by the number of their parameters, so neither list runs out before the
  -- other.
  | [], rest => do
    let note ← c.look here
    pure (Expr.mapAll (fun m => note (.plain m)) rest)
  | parameter :: parameters, argument :: rest => do
    let (type, argument') ← infer here argument
    require types parameter type argument.mark
    let rest' ← inferArguments here parameters rest
    pure (argument' :: rest')

end

/-- An expression that must have a type good for `expected`. What is wanted has no
influence on the type that it has. -/
def inferAs (here : κ) (expected : Ty) (value : Expr Offset) : Check (Expr μ) := do
  let (type, value') ← c.infer types here value
  require types expected type value.mark
  pure value'

/-! ### Statements -/

/-- The type that is declared by its name, if one is. -/
def declaredType (typeName : Option String) (offset : Offset) : Check (Option Ty) :=
  match typeName with
  | some name => some <$> resolveType types name offset
  | none => pure none

/-- The first value of a variable, and the type that the variable has then,
which is that of the value if no type is declared. -/
def initialValue (here : κ) (declared? : Option Ty) (value : Option (Expr Offset)) :
    Check (Option Ty × Option (Expr μ)) :=
  match value with
  | none => pure (declared?, none)
  | some value => do
    let (type, value') ← c.infer types here value
    match declared? with
    | some declared => do
      require types declared type value.mark
      pure (some declared, some value')
    | none => pure (some type, some value')

/-- Defines the variable of a declaration once its type is known. -/
def defineDeclared (here : κ) (offset : Offset) (d : Declaration Offset) (type : Ty)
    (value' : Option (Expr μ)) : Check (VariableSymbol × Declaration μ) := do
  let symbol : VariableSymbol := ⟨d.name, type, some offset⟩
  c.defineVariable here symbol (.alreadyDefined d.name) offset
  pure (symbol, ⟨d.name, d.typeName, value'⟩)

/-- Checks a declaration and defines its variable. The order in which its parts are
looked at decides which of two problems is reported: the type, then the value, then
the name. -/
def declare (here : κ) (offset : Offset) (d : Declaration Offset) :
    Check (VariableSymbol × Declaration μ) :=
  if d.typeName.isNone ∧ d.value.isNone then reject (.needsTypeOrValue d.name) offset
  else do
    let declared? ← declaredType types d.typeName offset
    let (type?, value') ← c.initialValue types here declared? d.value
    match type? with
    -- The value has been checked by now: it cannot speak of the variable.
    | some type => c.defineDeclared here offset d type value'
    -- One of the two is there, and gives a type.
    | none => do
      c.before .untyped
      reject (.needsTypeOrValue d.name) offset

mutual

/-- Checks a statement of a method with the given return type. That every way
through the method returns is not asked. -/
def checkStmt (here : κ) (returnType : Ty) (s : Stmt Offset) : Check (Stmt μ) :=
  c.part here do
    let note ← c.look here
    match s with
    | .expression m value =>
      if value.kind = .call then do
        let (_, value') ← c.infer types (c.deeper here) value
        pure (.expression (note (.plain m)) value')
      else reject .notACall value.place?
    | .declare m d => do
      let (symbol, d') ← c.declare types (c.deeper here) m d
      pure (.declare (note ⟨m, none, some (.variable symbol)⟩) d')
    | .assign m target value =>
      if target.kind = .access then do
        let (targetType, target') ← c.infer types (c.deeper here) target
        let value' ← c.inferAs types (c.deeper here) targetType value
        pure (.assign (note (.plain m)) target' value')
      else reject .notAssignable target.place?
    | .cond m condition thenBody elseBody => do
      let condition' ← c.inferAs types (c.deeper here) .boolean condition
      if thenBody.isEmpty then reject .emptyConditional m
      else
        let thenBody' ← c.withScope (c.deeper here) fun there =>
          checkAll there returnType thenBody
        let elseBody' ←
          if elseBody.isEmpty then pure []
          else c.withScope (c.deeper here) fun there => checkAll there returnType elseBody
        pure (.cond (note (.plain m)) condition' thenBody' elseBody')
    | .forIn m name value body =>
      if body.isEmpty then reject .emptyForLoop m
      else do
        let value' ← c.inferAs types (c.deeper here) .integerIterable value
        let body' ← c.withScope (c.deeper here) fun there => do
          c.defineVariable there ⟨name, .integer, none⟩ (.alreadyDefined name) m
          checkAll there returnType body
        pure (.forIn (note (.plain m)) name value' body')
    | .whileDo m condition body => do
      let condition' ← c.inferAs types (c.deeper here) .boolean condition
      let body' ← c.withScope (c.deeper here) fun there => checkAll there returnType body
      pure (.whileDo (note (.plain m)) condition' body')
    | .result m value => do
      let value' ← c.inferAs types (c.deeper here) returnType value
      pure (.result (note (.plain m)) value')
    | .foreign m kind written => pure (.foreign (note (.plain m)) kind written)

/-- Checks statements in order, in one scope. Each sees the variables of those
before it. -/
def checkAll (here : κ) (returnType : Ty) : List (Stmt Offset) → Check (List (Stmt μ))
  | [] => pure []
  | s :: rest => do
    let s' ← checkStmt here returnType s
    let rest' ← checkAll here returnType rest
    pure (s' :: rest')

end

/-! ### Fields, methods and the whole -/

/-- Checks a field and defines its variable in the program's scope, for the fields
behind it and for all methods. -/
def checkField (field : Field Offset) : Check (Field μ) := do
  let note ← c.look c.root
  let (symbol, d') ← c.declare types c.root field.mark field.declaration
  pure ⟨note ⟨field.mark, none, some (.variable symbol)⟩, d'⟩

/-- Defines a method by its header in the program's scope. A method without a return
type returns nil. -/
def declareMethod (method : Method Offset) : Check FunctionSymbol := do
  let parameters ← method.parameterTypes.mapM fun name => resolveType types name method.mark
  let result ←
    match method.returnType with
    | some name => resolveType types name method.mark
    | none => pure .nil
  let symbol : FunctionSymbol := ⟨method.name, parameters, result, some method.mark⟩
  c.defineFunction symbol method.mark
  pure symbol

/-- Defines the parameters of a method in the scope of its body, so no local
variable right there may have the name of one. -/
def defineParameters (here : κ) (offset : Offset) : List (String × Ty) → Check Unit
  | [] => pure ()
  | (name, type) :: rest => do
    c.defineVariable here ⟨name, type, none⟩ (.duplicateParameter name) offset
    defineParameters here offset rest

/-- Checks the body of a method whose header is defined. The scope of the body has
the program's as its parent. -/
def checkMethod (method : Method Offset) (symbol : FunctionSymbol) : Check (Method μ) := do
  let note ← c.look c.root
  let body ← c.withScope c.root fun there => do
    c.defineParameters there method.mark (method.parameters.zip symbol.parameters)
    c.checkAll types there symbol.result method.body
  pure { method with mark := note ⟨method.mark, none, some (.function symbol)⟩, body := body }

/-- Whether a method is where the program starts. -/
def isMain {α : Type} (method : Method α) : Bool :=
  method.name == "main" && method.parameters.isEmpty

/-- There must be a method to start with, and it must return an integer. -/
def checkMain (methods : List (Method Offset × FunctionSymbol)) : Check Unit :=
  match methods.find? fun (method, _) => isMain method with
  | none => reject .missingMain none
  | some (method, symbol) =>
    if symbol.result = .integer then pure ()
    else reject (.wrongMainType symbol.result) method.mark

/-- Checks a whole program: all fields, then all headers, then all bodies. -/
def program (program : Program Offset) : Check (Program μ) := do
  let fields ← program.fields.mapM (c.checkField types)
  let symbols ← program.methods.mapM (c.declareMethod types)
  -- All headers are known before the first body is checked, so methods may call each other in any
  -- order. The fields have been checked before, and know no method of the program.
  c.before (.pair program.methods.length symbols.length)
  let methods := program.methods.zip symbols
  let checked ← methods.mapM fun (method, symbol) => c.checkMethod types method symbol
  checkMain methods
  pure ⟨fields, checked⟩

/-- The symbols before any program: the built-in function, which takes any value and
returns nil. -/
def initialSymbols : Symbols :=
  let print : FunctionSymbol := ⟨"print", [.any], .nil, none⟩
  Arena.initial.bindFunction Arena.root print.key print

/-! ### The checker that checks programs -/

/-- The checker that marks nodes in this way and does nothing besides. Where it
is in the tree, is the current scope and nothing more. -/
def marking (look : ScopeId → Check (Note → μ)) : Checker μ ScopeId where
  scope := id
  root := Arena.root
  deeper := id
  inside index _ := index
  look := look

/-- The checker that checks programs: it marks nodes with what it finds out
about them. -/
abbrev plain : Checker Note ScopeId :=
  marking fun _ => pure id

end Checker

/-- What a check of a program that stands alone comes to. Its symbols are not kept. -/
def Checker.alone {β : Type} (x : Check β) : Except CheckError β :=
  match x Checker.initialSymbols with
  | .ok checked _ => .ok checked
  | .error e _ => .error e

/-- Checks a program that stands alone. -/
def check (program : Program Offset) : Except CheckError (Program Note) :=
  Checker.alone (Checker.plain.program .builtin program)

end PlcLang
