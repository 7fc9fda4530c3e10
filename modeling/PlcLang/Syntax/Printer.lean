import PlcLang.Decimal.Notation
import PlcLang.Syntax
import PlcLang.Text.Escape
import PlcLang.Text.Lines

/-!
# `PlcLang.Syntax.Printer`: canonical program text

`Program.format` writes a tree as program text in one fixed layout. No
parentheses are added: the tree has a node for each pair that the program
has, so the text parses back into the tree. Marks play no part.
-/

set_option autoImplicit false

namespace PlcLang

variable {α : Type}

namespace Expr

mutual

/-- The text of an expression. Operators have a space on either side, arguments one
behind each comma, and nothing else has any. -/
def format : Expr α → String
  | nil _ => "NIL"
  | boolean _ value => if value then "TRUE" else "FALSE"
  | integer _ value => toString value
  | decimal _ value => value.plain
  | character _ text => Text.quote '\'' text
  | string _ text => Text.quote '"' text
  | group _ inner => "(" ++ inner.format ++ ")"
  | binary _ op left right => left.format ++ " " ++ op.symbol ++ " " ++ right.format
  | var _ name => name
  | field _ receiver name => receiver.format ++ "." ++ name
  | call _ name arguments => name ++ "(" ++ ", ".intercalate (formatAll arguments) ++ ")"
  | methodCall _ receiver name arguments =>
    receiver.format ++ "." ++ name ++ "(" ++ ", ".intercalate (formatAll arguments) ++ ")"
  | foreign .. => "???"

/-- The texts of a list of expressions. -/
def formatAll : List (Expr α) → List String
  | [] => []
  | e :: rest => e.format :: formatAll rest

end

end Expr

/-- The text of a declaration without its keyword. A declaration with neither a type
nor a value is its name. -/
def Declaration.format (d : Declaration α) : String :=
  let typed :=
    match d.typeName with
    | some typeName => d.name ++ ": " ++ typeName
    | none => d.name
  match d.value with
  | some value => typed ++ " = " ++ value.format
  | none => typed

namespace Stmt

mutual

/-- The text of a statement, its first line not indented. An `ELSE` with nothing
behind it is left out. -/
def format : Stmt α → String
  | expression _ value => value.format ++ ";"
  | declare _ d => "LET " ++ d.format ++ ";"
  | assign _ target value => target.format ++ " = " ++ value.format ++ ";"
  | cond _ condition thenBody elseBody =>
    let elseLines := if elseBody.isEmpty then [] else "ELSE" :: formatBody elseBody
    "\n".intercalate
      (("IF " ++ condition.format ++ " DO") :: formatBody thenBody ++ elseLines ++ ["END"])
  | forIn _ name value body =>
    "\n".intercalate
      (("FOR " ++ name ++ " IN " ++ value.format ++ " DO") :: formatBody body ++ ["END"])
  | whileDo _ condition body =>
    "\n".intercalate (("WHILE " ++ condition.format ++ " DO") :: formatBody body ++ ["END"])
  | result _ value => "RETURN " ++ value.format ++ ";"
  | foreign .. => ""

/-- The texts of the statements of a block, one level deeper. The statements of
blocks inside are indented once for each block around them, text by text. -/
def formatBody : List (Stmt α) → List String
  | [] => []
  | s :: rest => Text.indent s.format 1 :: formatBody rest

end

end Stmt

/-- The line of a field, which is that of a local variable. -/
def Field.format (field : Field α) : String :=
  "LET " ++ field.declaration.format ++ ";"

/-- The parameters of a method with their types, as they are written. -/
def Method.parameterText (method : Method α) : String :=
  ", ".intercalate ((method.parameters.zip method.parameterTypes).map fun (name, typeName) =>
    name ++ ": " ++ typeName)

/-- The text of a method. Its body is a block, and its header the line in front. -/
def Method.format (method : Method α) : String :=
  let signature := "DEF " ++ method.name ++ "(" ++ method.parameterText ++ ")"
  let typed :=
    match method.returnType with
    | some returnType => signature ++ ": " ++ returnType
    | none => signature
  "\n".intercalate ((typed ++ " DO") :: Stmt.formatBody method.body ++ ["END"])

namespace Program

/-- The parts of a program, which empty lines separate: all fields
together, and each method. -/
def parts (program : Program α) : List String :=
  let fields :=
    if program.fields.isEmpty then []
    else ["\n".intercalate (program.fields.map Field.format)]
  fields ++ program.methods.map Method.format

/-- The text of a program. It ends with a newline. -/
def format (program : Program α) : String :=
  let text := "\n\n".intercalate program.parts
  if text.toList.getLast? = some '\n' then text else text ++ "\n"

end Program

end PlcLang
