import PlcLang.Decimal

/-!
# `PlcLang.Syntax`: programs as trees

A program is a list of fields and a list of methods. Every node carries a
*mark* of a type of the reader's choosing: the parser marks a node with the
offset of its first token, the type checker with an offset and what it
found out about the node, and who compares programs looks at no marks at
all.

Trees may also be put together by hand. Two constructors named `foreign`
hold what such a tree can have in the wrong place: a node that is no
expression where an expression belongs, and one that is no statement among
statements. Only the kind of such a node matters; its contents are kept as
written.
-/

set_option autoImplicit false

namespace PlcLang

/-- A place in a text, counted in characters from its beginning. -/
abbrev Offset := Nat

/-- The operators between two operands. A tree put together by hand may
have others. -/
inductive BinaryOp where
  | and
  | or
  | equal
  | notEqual
  | less
  | lessEqual
  | greater
  | greaterEqual
  | add
  | sub
  | mul
  | div
  | other (symbol : String)
deriving DecidableEq, Repr

/-- How tightly an operator binds, the loosest first. `AND` and `OR` bind alike, and
so do all comparisons: operators of one precedence group to the left. -/
inductive Precedence where
  | logical
  | comparison
  | additive
  | multiplicative
deriving DecidableEq, Repr

namespace BinaryOp

/-- How the operator is written. The words among them are keywords, so they are no
names. -/
def symbol : BinaryOp → String
  | and => "AND"
  | or => "OR"
  | equal => "=="
  | notEqual => "!="
  | less => "<"
  | lessEqual => "<="
  | greater => ">"
  | greaterEqual => ">="
  | add => "+"
  | sub => "-"
  | mul => "*"
  | div => "/"
  | other symbol => symbol

/-- The operator that is written so. Every text is one: what is none of the language
is an operator of its own. -/
def ofSymbol : String → BinaryOp
  | "AND" => and
  | "OR" => or
  | "==" => equal
  | "!=" => notEqual
  | "<" => less
  | "<=" => lessEqual
  | ">" => greater
  | ">=" => greaterEqual
  | "+" => add
  | "-" => sub
  | "*" => mul
  | "/" => div
  | symbol => other symbol

/-- How tightly the operator binds. An operator that is none of the language has no
precedence, which is how the parser tells it apart. -/
def precedence? : BinaryOp → Option Precedence
  | and | or => some .logical
  | equal | notEqual | less | lessEqual | greater | greaterEqual => some .comparison
  | add | sub => some .additive
  | mul | div => some .multiplicative
  | other _ => none

end BinaryOp

/-- The kinds of node, as messages and listings name them. Variables and fields of
objects are one kind here, and so are the two calls. -/
inductive NodeKind where
  | nilLiteral
  | booleanLiteral
  | integerLiteral
  | decimalLiteral
  | characterLiteral
  | stringLiteral
  | group
  | binary
  | access
  | call
  | expressionStatement
  | declaration
  | assignment
  | conditional
  | forLoop
  | whileLoop
  | result
  | field
  | method
  | program
deriving DecidableEq, Repr

namespace NodeKind

/-- The kind's name. -/
def name : NodeKind → String
  | nilLiteral => "NilLit"
  | booleanLiteral => "BooleanLit"
  | integerLiteral => "IntegerLit"
  | decimalLiteral => "DecimalLit"
  | characterLiteral => "CharLit"
  | stringLiteral => "StringLit"
  | group => "Group"
  | binary => "BinaryExpr"
  | access => "AccessExpr"
  | call => "CallExpr"
  | expressionStatement => "ExprStmt"
  | declaration => "Declaration"
  | assignment => "Assignment"
  | conditional => "IfStmt"
  | forLoop => "ForStmt"
  | whileLoop => "WhileStmt"
  | result => "ReturnStmt"
  | field => "Field"
  | method => "Method"
  | program => "Source"

/-- All kinds. -/
def all : List NodeKind :=
  [nilLiteral, booleanLiteral, integerLiteral, decimalLiteral, characterLiteral, stringLiteral,
    group, binary, access, call, expressionStatement, declaration, assignment, conditional,
    forLoop, whileLoop, result, field, method, program]

/-- The kind of that name. -/
def ofName? (text : String) : Option NodeKind :=
  all.find? (·.name == text)

end NodeKind

/-- An expression. A variable and a field access are written alike but for
the receiver, and so are the two kinds of call. -/
inductive Expr (α : Type) where
  | nil (mark : α)
  | boolean (mark : α) (value : Bool)
  | integer (mark : α) (value : Int)
  | decimal (mark : α) (value : Decimal)
  | character (mark : α) (text : String)
  | string (mark : α) (text : String)
  | group (mark : α) (inner : Expr α)
  | binary (mark : α) (op : BinaryOp) (left right : Expr α)
  | var (mark : α) (name : String)
  | field (mark : α) (receiver : Expr α) (name : String)
  | call (mark : α) (name : String) (arguments : List (Expr α))
  | methodCall (mark : α) (receiver : Expr α) (name : String) (arguments : List (Expr α))
  | foreign (mark : α) (kind : NodeKind) (written : String)

/-- What a declaration, of a field or of a local variable, says: a name,
and a type or a first value or both. -/
structure Declaration (α : Type) where
  name : String
  typeName : Option String
  value : Option (Expr α)

/-- A statement. A conditional without `ELSE` has an empty second body: the tree
does not tell the two apart. -/
inductive Stmt (α : Type) where
  | expression (mark : α) (value : Expr α)
  | declare (mark : α) (declaration : Declaration α)
  | assign (mark : α) (target value : Expr α)
  | cond (mark : α) (condition : Expr α) (thenBody elseBody : List (Stmt α))
  | forIn (mark : α) (name : String) (value : Expr α) (body : List (Stmt α))
  | whileDo (mark : α) (condition : Expr α) (body : List (Stmt α))
  | result (mark : α) (value : Expr α)
  | foreign (mark : α) (kind : NodeKind) (written : String)

/-- A field of the program: a variable that all methods share. -/
structure Field (α : Type) where
  mark : α
  declaration : Declaration α

/-- A method. A parsed one has as many parameter types as parameters. -/
structure Method (α : Type) where
  mark : α
  name : String
  parameters : List String
  parameterTypes : List String
  returnType : Option String
  body : List (Stmt α)

/-- A whole program. Fields come before methods, as they are written. -/
structure Program (α : Type) where
  fields : List (Field α)
  methods : List (Method α)

/-! ### Marks -/

namespace Expr

variable {α β : Type}

/-- The mark of the expression's root. A binary expression and a member have marks
of their own, which the parser takes from their left end. -/
def mark : Expr α → α
  | nil mark | boolean mark _ | integer mark _ | decimal mark _ | character mark _
  | string mark _ | group mark _ | binary mark _ _ _ | var mark _ | field mark _ _
  | call mark _ _ | methodCall mark _ _ _ | foreign mark _ _ => mark

/-- The kind of the expression's root. -/
def kind : Expr α → NodeKind
  | nil _ => .nilLiteral
  | boolean .. => .booleanLiteral
  | integer .. => .integerLiteral
  | decimal .. => .decimalLiteral
  | character .. => .characterLiteral
  | string .. => .stringLiteral
  | group .. => .group
  | binary .. => .binary
  | var .. | field .. => .access
  | call .. | methodCall .. => .call
  | foreign _ kind _ => kind

mutual

/-- The expression with every mark changed by `f`. Nothing else of it is looked at. -/
def map (f : α → β) : Expr α → Expr β
  | nil m => nil (f m)
  | boolean m value => boolean (f m) value
  | integer m value => integer (f m) value
  | decimal m value => decimal (f m) value
  | character m text => character (f m) text
  | string m text => string (f m) text
  | group m inner => group (f m) (inner.map f)
  | binary m op left right => binary (f m) op (left.map f) (right.map f)
  | var m name => var (f m) name
  | field m receiver name => field (f m) (receiver.map f) name
  | call m name arguments => call (f m) name (mapAll f arguments)
  | methodCall m receiver name arguments =>
    methodCall (f m) (receiver.map f) name (mapAll f arguments)
  | foreign m kind written => foreign (f m) kind written

/-- `map` on each expression of a list. -/
def mapAll (f : α → β) : List (Expr α) → List (Expr β)
  | [] => []
  | e :: rest => e.map f :: mapAll f rest

end

end Expr

/-- The mark that says where an expression is. A whole program where an
expression belongs has no place of its own. -/
def Expr.place? {α : Type} : Expr α → Option α
  | .foreign _ .program _ => none
  | e => some e.mark

/-- The declaration with every mark changed by `f`. It has no mark itself; the field
or statement that it stands in has. -/
def Declaration.map {α β : Type} (f : α → β) (d : Declaration α) : Declaration β :=
  ⟨d.name, d.typeName, d.value.map (·.map f)⟩

namespace Stmt

variable {α β : Type}

/-- The mark of the statement's root. -/
def mark : Stmt α → α
  | expression mark _ | declare mark _ | assign mark _ _ | cond mark _ _ _ | forIn mark _ _ _
  | whileDo mark _ _ | result mark _ | foreign mark _ _ => mark

mutual

/-- The statement with every mark changed by `f`, through all bodies. -/
def map (f : α → β) : Stmt α → Stmt β
  | expression m value => expression (f m) (value.map f)
  | declare m d => declare (f m) (d.map f)
  | assign m target value => assign (f m) (target.map f) (value.map f)
  | cond m condition thenBody elseBody =>
    cond (f m) (condition.map f) (mapAll f thenBody) (mapAll f elseBody)
  | forIn m name value body => forIn (f m) name (value.map f) (mapAll f body)
  | whileDo m condition body => whileDo (f m) (condition.map f) (mapAll f body)
  | result m value => result (f m) (value.map f)
  | foreign m kind written => foreign (f m) kind written

/-- `map` on each statement of a list. -/
def mapAll (f : α → β) : List (Stmt α) → List (Stmt β)
  | [] => []
  | s :: rest => s.map f :: mapAll f rest

end

end Stmt

/-- The field with every mark changed by `f`. -/
def Field.map {α β : Type} (f : α → β) (field : Field α) : Field β :=
  ⟨f field.mark, field.declaration.map f⟩

/-- The method with every mark changed by `f`. Its header has no marks but the
method's. -/
def Method.map {α β : Type} (f : α → β) (method : Method α) : Method β :=
  { method with mark := f method.mark, body := Stmt.mapAll f method.body }

/-- The program with every mark changed by `f`. A program has no mark of its own. -/
def Program.map {α β : Type} (f : α → β) (program : Program α) : Program β :=
  ⟨program.fields.map (·.map f), program.methods.map (·.map f)⟩

end PlcLang
