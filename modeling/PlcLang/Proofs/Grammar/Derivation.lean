import PlcLang.Proofs.Lexical.Classes
import PlcLang.Proofs.Syntax.Marks

/-!
# `PlcLang.Proofs.Grammar.Derivation`: the grammar of programs

The grammar, one inductive relation for each of its symbols. A relation holds
of a list of tokens and a tree if the tokens, all of them and in this order,
are a text of the tree: `Derives tokens tree`. Where a rule of the grammar
puts symbols one behind the other, the token lists of its parts are appended;
where it has a word or a sign, there is one token with that text. Nothing
looks at the tokens in front of a part or behind it, and nothing is a
recursive descent: operators of one precedence group to the left because the
rule is recursive on its left side.

```
source      := field* method*
field       := 'LET' declaration ';'
method      := 'DEF' IDENT '(' parameters? ')' (':' IDENT)? 'DO' statement* 'END'
parameters  := IDENT ':' IDENT (',' IDENT ':' IDENT)*
statement   := 'LET' declaration ';'
             | 'IF' expression 'DO' statement* ('ELSE' statement*)? 'END'
             | 'FOR' IDENT 'IN' expression 'DO' statement* 'END'
             | 'WHILE' expression 'DO' statement* 'END'
             | 'RETURN' expression ';'
             | expression ('=' expression)? ';'
declaration := IDENT (':' IDENT)? ('=' expression)?
```

Trees carry no marks here, so offsets play no part: `bare` takes the marks
off the trees that the parser makes. An identifier is a token with
`Token.isName`, which no keyword is.
-/

set_option autoImplicit false

namespace PlcLang

/-! ### Trees without marks -/

/-- The expression without its marks. What is left is what the grammar speaks of. -/
def Expr.bare {α : Type} (e : Expr α) : Expr Unit :=
  e.map fun _ => ()

/-- The declaration without its marks. -/
def Declaration.bare {α : Type} (d : Declaration α) : Declaration Unit :=
  d.map fun _ => ()

/-- The statement without its marks. -/
def Stmt.bare {α : Type} (s : Stmt α) : Stmt Unit :=
  s.map fun _ => ()

/-- The field without its marks. -/
def Field.bare {α : Type} (field : Field α) : Field Unit :=
  field.map fun _ => ()

/-- The method without its marks. -/
def Method.bare {α : Type} (method : Method α) : Method Unit :=
  method.map fun _ => ()

/-- The program without its marks. -/
def Program.bare {α : Type} (program : Program α) : Program Unit :=
  program.map fun _ => ()

namespace Expr

variable {α : Type} {m : α} {e left right : Expr α} {arguments : List (Expr α)}

/-- The marks of a list of expressions are taken off one by one. -/
theorem mapAll_unit (list : List (Expr α)) : mapAll (fun _ => ()) list = list.map bare :=
  mapAll_eq_map _ list

/-- The marks of a group are its own and those inside. -/
@[simp] theorem bare_group : (group m e).bare = group () e.bare := rfl

/-- Those of an operation are its own and those of its operands. -/
@[simp] theorem bare_binary {op : BinaryOp} :
    (binary m op left right).bare = binary () op left.bare right.bare := rfl

/-- Those of a member access are its own and those of its receiver. -/
@[simp] theorem bare_field {name : String} : (field m e name).bare = field () e.bare name := rfl

/-- Those of a call are its own and those of its arguments. -/
@[simp] theorem bare_call {name : String} :
    (call m name arguments).bare = call () name (arguments.map bare) := by
  rw [bare, map, mapAll_unit]

/-- Those of a call of a member are its own, its receiver's and those of its
arguments. -/
@[simp] theorem bare_methodCall {name : String} :
    (methodCall m e name arguments).bare = methodCall () e.bare name (arguments.map bare) := by
  rw [bare, map, mapAll_unit, ← bare]

end Expr

/-- Those of a declaration are in its value. -/
@[simp] theorem Declaration.bare_mk {α : Type} {name : String} {typeName : Option String}
    {value : Option (Expr α)} :
    (Declaration.mk name typeName value).bare = ⟨name, typeName, value.map Expr.bare⟩ := rfl

namespace Stmt

variable {α : Type} {m : α} {d : Declaration α} {e target : Expr α} {body other : List (Stmt α)}

/-- The marks of a list of statements are taken off one by one. -/
theorem mapAll_unit (list : List (Stmt α)) : mapAll (fun _ => ()) list = list.map bare :=
  mapAll_eq_map _ list

/-- An expression as a statement has a mark besides the expression's. -/
@[simp] theorem bare_expression : (expression m e).bare = expression () e.bare := rfl

/-- So has a declaration. -/
@[simp] theorem bare_declare : (declare m d).bare = declare () d.bare := rfl

/-- So has an assignment. -/
@[simp] theorem bare_assign : (assign m target e).bare = assign () target.bare e.bare := rfl

/-- A conditional has its own mark, and those of its condition and of its branches. -/
@[simp] theorem bare_cond :
    (cond m e body other).bare = cond () e.bare (body.map bare) (other.map bare) := by
  rw [bare, map, mapAll_unit, mapAll_unit, ← Expr.bare]

/-- So has a loop over a sequence, with those of its body. -/
@[simp] theorem bare_forIn {name : String} :
    (forIn m name e body).bare = forIn () name e.bare (body.map bare) := by
  rw [bare, map, mapAll_unit, ← Expr.bare]

/-- So has a loop on a condition. -/
@[simp] theorem bare_whileDo :
    (whileDo m e body).bare = whileDo () e.bare (body.map bare) := by
  rw [bare, map, mapAll_unit, ← Expr.bare]

/-- So has a `RETURN`, with those of its value. -/
@[simp] theorem bare_result : (result m e).bare = result () e.bare := rfl

end Stmt

/-- A field has its own mark and those of its declaration. -/
@[simp] theorem Field.bare_mk {α : Type} {m : α} {d : Declaration α} :
    (Field.mk m d).bare = ⟨(), d.bare⟩ := rfl

/-- A method has its own mark and those of its body. -/
@[simp] theorem Method.bare_mk {α : Type} {m : α} {name : String} {parameters types : List String}
    {returnType : Option String} {body : List (Stmt α)} :
    (Method.mk m name parameters types returnType body).bare
      = ⟨(), name, parameters, types, returnType, body.map Stmt.bare⟩ := by
  rw [bare, map, Stmt.mapAll_unit]

/-- A program has the marks of its fields and of its methods. -/
@[simp] theorem Program.bare_mk {α : Type} {fields : List (Field α)} {methods : List (Method α)} :
    (Program.mk fields methods).bare = ⟨fields.map Field.bare, methods.map Method.bare⟩ := rfl

namespace Proofs

/-! ### Expressions -/

/-- How tightly an expression holds together, the loosest first: chains of
operators of each precedence, chains of member accesses, and the rest. -/
inductive Level where
  | operators (precedence : Precedence)
  | members
  | primary

/-- The level of the operands of an operator: the next tighter one. -/
def operandLevel : Precedence → Level
  | .logical => .operators .comparison
  | .comparison => .operators .additive
  | .additive => .operators .multiplicative
  | .multiplicative => .members

/-- The level of any expression: the loosest one. -/
def anyLevel : Level :=
  .operators .logical

/-- The token is an operator of that precedence. It is told by its text alone,
whatever its kind. -/
structure IsOperator (precedence : Precedence) (token : Token) (op : BinaryOp) : Prop where
  symbol : token.literal = op.symbol
  precedence : op.precedence? = some precedence

mutual

/-- The tokens are an expression of that level. Chains of operators and of member
accesses are recursive on their left, so that they group to the left. -/
inductive DerivesExpr : Level → List Token → Expr Unit → Prop where
  | operand {precedence : Precedence} {tokens : List Token} {e : Expr Unit}
      (h : DerivesExpr (operandLevel precedence) tokens e) :
      DerivesExpr (.operators precedence) tokens e
  | binary {precedence : Precedence} {leftTokens rightTokens : List Token} {token : Token}
      {op : BinaryOp} {left right : Expr Unit}
      (hleft : DerivesExpr (.operators precedence) leftTokens left)
      (hop : IsOperator precedence token op)
      (hright : DerivesExpr (operandLevel precedence) rightTokens right) :
      DerivesExpr (.operators precedence) (leftTokens ++ token :: rightTokens)
        (.binary () op left right)
  | simple {tokens : List Token} {e : Expr Unit} (h : DerivesExpr .primary tokens e) :
      DerivesExpr .members tokens e
  | field {tokens : List Token} {point name : Token} {receiver : Expr Unit}
      (hreceiver : DerivesExpr .members tokens receiver) (hpoint : point.literal = ".")
      (hname : name.isName = true) :
      DerivesExpr .members (tokens ++ [point, name]) (.field () receiver name.literal)
  | methodCall {tokens argumentTokens : List Token} {point name paren : Token}
      {receiver : Expr Unit} {arguments : List (Expr Unit)}
      (hreceiver : DerivesExpr .members tokens receiver) (hpoint : point.literal = ".")
      (hname : name.isName = true) (hparen : paren.literal = "(")
      (harguments : DerivesArguments argumentTokens arguments) :
      DerivesExpr .members (tokens ++ point :: name :: paren :: argumentTokens)
        (.methodCall () receiver name.literal arguments)
  | nil {token : Token} (h : token.literal = "NIL") : DerivesExpr .primary [token] (.nil ())
  | boolean {token : Token} {value : Bool}
      (h : token.literal = if value then "TRUE" else "FALSE") :
      DerivesExpr .primary [token] (.boolean () value)
  | integer {token : Token} {value : Int} (hkind : token.kind = .integer)
      (hvalue : IntegerText token.literal.toList value) :
      DerivesExpr .primary [token] (.integer () value)
  | decimal {token : Token} {value : Decimal} (hkind : token.kind = .decimal)
      (hvalue : DecimalText token.literal.toList value) :
      DerivesExpr .primary [token] (.decimal () value)
  | character {token : Token} {text : List Char} (hkind : token.kind = .character)
      (htext : QuotedText '\'' token.literal.toList text) :
      DerivesExpr .primary [token] (.character () (String.ofList text))
  | string {token : Token} {text : List Char} (hkind : token.kind = .string)
      (htext : QuotedText '"' token.literal.toList text) :
      DerivesExpr .primary [token] (.string () (String.ofList text))
  | var {name : Token} (hname : name.isName = true) :
      DerivesExpr .primary [name] (.var () name.literal)
  | call {name paren : Token} {argumentTokens : List Token} {arguments : List (Expr Unit)}
      (hname : name.isName = true) (hparen : paren.literal = "(")
      (harguments : DerivesArguments argumentTokens arguments) :
      DerivesExpr .primary (name :: paren :: argumentTokens) (.call () name.literal arguments)
  | group {left right : Token} {tokens : List Token} {inner : Expr Unit}
      (hleft : left.literal = "(") (hinner : DerivesExpr anyLevel tokens inner)
      (hright : right.literal = ")") :
      DerivesExpr .primary (left :: (tokens ++ [right])) (.group () inner)

/-- The tokens are the arguments of a call behind its opening parenthesis, the
closing one included. -/
inductive DerivesArguments : List Token → List (Expr Unit) → Prop where
  | none {paren : Token} (hparen : paren.literal = ")") : DerivesArguments [paren] []
  | some {tokens : List Token} {paren : Token} {arguments : List (Expr Unit)}
      (harguments : DerivesSeries tokens arguments) (hparen : paren.literal = ")") :
      DerivesArguments (tokens ++ [paren]) arguments

/-- The tokens are one expression or more, with commas between them. -/
inductive DerivesSeries : List Token → List (Expr Unit) → Prop where
  | one {tokens : List Token} {e : Expr Unit} (h : DerivesExpr anyLevel tokens e) :
      DerivesSeries tokens [e]
  | more {tokens restTokens : List Token} {comma : Token} {e : Expr Unit}
      {rest : List (Expr Unit)} (h : DerivesExpr anyLevel tokens e)
      (hcomma : comma.literal = ",") (hrest : DerivesSeries restTokens rest) :
      DerivesSeries (tokens ++ comma :: restTokens) (e :: rest)

end

/-! ### Declarations -/

/-- The tokens are a type behind a colon, or nothing. -/
inductive DerivesTypeName : List Token → Option String → Prop where
  | absent : DerivesTypeName [] none
  | present {colon name : Token} (hcolon : colon.literal = ":") (hname : name.isName = true) :
      DerivesTypeName [colon, name] (some name.literal)

/-- The tokens are a first value behind an equals sign, or nothing. -/
inductive DerivesValue : List Token → Option (Expr Unit) → Prop where
  | absent : DerivesValue [] none
  | present {equals : Token} {tokens : List Token} {e : Expr Unit}
      (hequals : equals.literal = "=") (h : DerivesExpr anyLevel tokens e) :
      DerivesValue (equals :: tokens) (some e)

/-- The tokens are a declaration, without the word in front of it. -/
inductive DerivesDeclaration : List Token → Declaration Unit → Prop where
  | mk {name : Token} {typeTokens valueTokens : List Token} {typeName : Option String}
      {value : Option (Expr Unit)} (hname : name.isName = true)
      (htype : DerivesTypeName typeTokens typeName) (hvalue : DerivesValue valueTokens value) :
      DerivesDeclaration (name :: (typeTokens ++ valueTokens)) ⟨name.literal, typeName, value⟩

/-! ### Statements -/

mutual

/-- The tokens are a statement, with the word in front and the sign or word behind
it. -/
inductive DerivesStmt : List Token → Stmt Unit → Prop where
  | declare {first last : Token} {tokens : List Token} {d : Declaration Unit}
      (hfirst : first.literal = "LET") (hd : DerivesDeclaration tokens d)
      (hlast : last.literal = ";") :
      DerivesStmt (first :: (tokens ++ [last])) (.declare () d)
  | cond {first opening last : Token} {tokens thenTokens elseTokens : List Token}
      {condition : Expr Unit} {thenBody elseBody : List (Stmt Unit)}
      (hfirst : first.literal = "IF") (hcondition : DerivesExpr anyLevel tokens condition)
      (hopening : opening.literal = "DO") (hthen : DerivesBlock thenTokens thenBody)
      (helse : DerivesElse elseTokens elseBody) (hlast : last.literal = "END") :
      DerivesStmt (first :: (tokens ++ opening :: (thenTokens ++ (elseTokens ++ [last]))))
        (.cond () condition thenBody elseBody)
  | forIn {first name between opening last : Token} {tokens bodyTokens : List Token}
      {value : Expr Unit} {body : List (Stmt Unit)}
      (hfirst : first.literal = "FOR") (hname : name.isName = true)
      (hbetween : between.literal = "IN") (hvalue : DerivesExpr anyLevel tokens value)
      (hopening : opening.literal = "DO") (hbody : DerivesBlock bodyTokens body)
      (hlast : last.literal = "END") :
      DerivesStmt (first :: name :: between :: (tokens ++ opening :: (bodyTokens ++ [last])))
        (.forIn () name.literal value body)
  | whileDo {first opening last : Token} {tokens bodyTokens : List Token}
      {condition : Expr Unit} {body : List (Stmt Unit)}
      (hfirst : first.literal = "WHILE") (hcondition : DerivesExpr anyLevel tokens condition)
      (hopening : opening.literal = "DO") (hbody : DerivesBlock bodyTokens body)
      (hlast : last.literal = "END") :
      DerivesStmt (first :: (tokens ++ opening :: (bodyTokens ++ [last])))
        (.whileDo () condition body)
  | result {first last : Token} {tokens : List Token} {value : Expr Unit}
      (hfirst : first.literal = "RETURN") (hvalue : DerivesExpr anyLevel tokens value)
      (hlast : last.literal = ";") :
      DerivesStmt (first :: (tokens ++ [last])) (.result () value)
  | expression {last : Token} {tokens : List Token} {e : Expr Unit}
      (h : DerivesExpr anyLevel tokens e) (hlast : last.literal = ";") :
      DerivesStmt (tokens ++ [last]) (.expression () e)
  | assign {equals last : Token} {targetTokens valueTokens : List Token}
      {target value : Expr Unit}
      (htarget : DerivesExpr anyLevel targetTokens target) (hequals : equals.literal = "=")
      (hvalue : DerivesExpr anyLevel valueTokens value) (hlast : last.literal = ";") :
      DerivesStmt (targetTokens ++ equals :: (valueTokens ++ [last])) (.assign () target value)

/-- The tokens are statements, one behind the other. What ends a block is no part of
it. -/
inductive DerivesBlock : List Token → List (Stmt Unit) → Prop where
  | nil : DerivesBlock [] []
  | cons {tokens restTokens : List Token} {s : Stmt Unit} {rest : List (Stmt Unit)}
      (hs : DerivesStmt tokens s) (hrest : DerivesBlock restTokens rest) :
      DerivesBlock (tokens ++ restTokens) (s :: rest)

/-- The tokens are the second branch of a conditional, or nothing. -/
inductive DerivesElse : List Token → List (Stmt Unit) → Prop where
  | absent : DerivesElse [] []
  | present {first : Token} {tokens : List Token} {body : List (Stmt Unit)}
      (hfirst : first.literal = "ELSE") (hbody : DerivesBlock tokens body) :
      DerivesElse (first :: tokens) body

end

/-! ### Fields, methods and programs -/

/-- The tokens are a field. It looks like a declaration among the statements. -/
inductive DerivesField : List Token → Field Unit → Prop where
  | mk {first last : Token} {tokens : List Token} {d : Declaration Unit}
      (hfirst : first.literal = "LET") (hd : DerivesDeclaration tokens d)
      (hlast : last.literal = ";") :
      DerivesField (first :: (tokens ++ [last])) ⟨(), d⟩

/-- The tokens are one parameter or more, each with its type and commas
between them. -/
inductive DerivesParameterSeries : List Token → List (String × String) → Prop where
  | one {name colon type : Token} (hname : name.isName = true) (hcolon : colon.literal = ":")
      (htype : type.isName = true) :
      DerivesParameterSeries [name, colon, type] [(name.literal, type.literal)]
  | more {name colon type comma : Token} {tokens : List Token} {rest : List (String × String)}
      (hname : name.isName = true) (hcolon : colon.literal = ":") (htype : type.isName = true)
      (hcomma : comma.literal = ",") (hrest : DerivesParameterSeries tokens rest) :
      DerivesParameterSeries (name :: colon :: type :: comma :: tokens)
        ((name.literal, type.literal) :: rest)

/-- The tokens are the parameters of a method behind the opening parenthesis,
the closing one included. -/
inductive DerivesParameters : List Token → List (String × String) → Prop where
  | none {paren : Token} (hparen : paren.literal = ")") : DerivesParameters [paren] []
  | some {tokens : List Token} {paren : Token} {parameters : List (String × String)}
      (hparameters : DerivesParameterSeries tokens parameters) (hparen : paren.literal = ")") :
      DerivesParameters (tokens ++ [paren]) parameters

/-- The tokens are a method, from its first word to its last. -/
inductive DerivesMethod : List Token → Method Unit → Prop where
  | mk {first name paren opening last : Token} {parameterTokens typeTokens bodyTokens : List Token}
      {parameters : List (String × String)} {returnType : Option String}
      {body : List (Stmt Unit)}
      (hfirst : first.literal = "DEF") (hname : name.isName = true) (hparen : paren.literal = "(")
      (hparameters : DerivesParameters parameterTokens parameters)
      (htype : DerivesTypeName typeTokens returnType) (hopening : opening.literal = "DO")
      (hbody : DerivesBlock bodyTokens body) (hlast : last.literal = "END") :
      DerivesMethod
        (first :: name :: paren ::
          (parameterTokens ++ (typeTokens ++ opening :: (bodyTokens ++ [last]))))
        ⟨(), name.literal, parameters.map (·.1), parameters.map (·.2), returnType, body⟩

/-- The tokens are items, one behind the other. -/
inductive DerivesAll {α : Type} (item : List Token → α → Prop) : List Token → List α → Prop where
  | nil : DerivesAll item [] []
  | cons {tokens restTokens : List Token} {a : α} {rest : List α} (ha : item tokens a)
      (hrest : DerivesAll item restTokens rest) :
      DerivesAll item (tokens ++ restTokens) (a :: rest)

/-- The tokens are a whole program: fields, then methods, and nothing behind them. -/
inductive Derives : List Token → Program Unit → Prop where
  | mk {fieldTokens methodTokens : List Token} {fields : List (Field Unit)}
      {methods : List (Method Unit)} (hfields : DerivesAll DerivesField fieldTokens fields)
      (hmethods : DerivesAll DerivesMethod methodTokens methods) :
      Derives (fieldTokens ++ methodTokens) ⟨fields, methods⟩

end Proofs

end PlcLang
