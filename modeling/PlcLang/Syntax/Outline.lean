import PlcLang.Decimal.Notation
import PlcLang.Syntax
import PlcLang.Text.Spelled

/-!
# `PlcLang.Syntax.Outline`: a tree as indented lines

A node takes a line with its kind, and below it, one level in, a line for
each of its attributes. The nodes inside an attribute stand a level below
it. What a node does not have takes no line.

The reader chooses what is shown of the marks: a word for the type of an
expression, or nothing.
-/

set_option autoImplicit false

namespace PlcLang

namespace Outline

/-- Lines one level further in. -/
def nested (lines : List String) : List String :=
  lines.map ("  " ++ ·)

/-- An attribute that is written on its line. -/
def entry (label text : String) : List String :=
  [label ++ ": " ++ text]

/-- An attribute that is a name, if it is there. It takes no line otherwise. -/
def optionalName (label : String) (name : Option String) : List String :=
  name.elim [] fun name => entry label (Text.spelled name)

/-- An attribute that is a node. The node begins on a line below. -/
def child (label : String) (lines : List String) : List String :=
  (label ++ ":") :: nested lines

/-- An attribute that is a list of nodes. An empty list is written on its line. -/
def children (label : String) (items : List (List String)) : List String :=
  if items.isEmpty then entry label "[]" else child label items.flatten

/-- A node with its attributes, in the order given. -/
def node (kind : NodeKind) (attributes : List (List String)) : List String :=
  kind.name :: nested attributes.flatten

/-- How a truth value is written, which is not how a program writes it. -/
def booleanText (value : Bool) : String :=
  if value then "True" else "False"

/-- How a decimal is written, with its scale. -/
def decimalText (value : Decimal) : String :=
  "Decimal(" ++ Text.spelled value.scientific ++ ")"

end Outline

open Outline

section

variable {α : Type} (typeOf : α → Option String)

namespace Expr

mutual

/-- The lines of an expression. Its type comes last, if the reader shows types and
the mark has one. -/
def outline (e : Expr α) : List String :=
  let typed (attributes : List (List String)) :=
    node e.kind (attributes ++ ((typeOf e.mark).map (entry "type")).toList)
  match e with
  | .nil _ => typed []
  | .boolean _ value => typed [entry "value" (booleanText value)]
  | .integer _ value => typed [entry "value" (toString value)]
  | .decimal _ value => typed [entry "value" (decimalText value)]
  | .character _ text | .string _ text => typed [entry "value" (Text.spelled text)]
  | .group _ inner => typed [child "expr" inner.outline]
  | .binary _ op left right =>
    typed [entry "op" (Text.spelled op.symbol), child "left" left.outline,
      child "right" right.outline]
  | .var _ name => typed [entry "name" (Text.spelled name)]
  | .field _ receiver name =>
    typed [child "receiver" receiver.outline, entry "name" (Text.spelled name)]
  | .call _ name arguments =>
    typed [entry "name" (Text.spelled name), children "arguments" (outlineAll arguments)]
  | .methodCall _ receiver name arguments =>
    typed [child "receiver" receiver.outline, entry "name" (Text.spelled name),
      children "arguments" (outlineAll arguments)]
  | .foreign _ _ _ => typed []

/-- The lines of each expression of a list. -/
def outlineAll : List (Expr α) → List (List String)
  | [] => []
  | e :: rest => e.outline :: outlineAll rest

end

end Expr

/-- The attributes of a declaration. -/
def Declaration.outline (d : Declaration α) : List (List String) :=
  [entry "name" (Text.spelled d.name), optionalName "type_name" d.typeName,
    d.value.elim [] fun value => child "value" (value.outline typeOf)]

namespace Stmt

mutual

/-- The lines of a statement. A foreign node has a line and no attributes. -/
def outline : Stmt α → List String
  | .expression _ value => node .expressionStatement [child "expr" (value.outline typeOf)]
  | .declare _ d => node .declaration (d.outline typeOf)
  | .assign _ target value =>
    node .assignment
      [child "receiver" (target.outline typeOf), child "value" (value.outline typeOf)]
  | .cond _ condition thenBody elseBody =>
    node .conditional
      [child "condition" (condition.outline typeOf),
        children "then_statements" (outlineAll thenBody),
        children "else_statements" (outlineAll elseBody)]
  | .forIn _ name value body =>
    node .forLoop
      [entry "name" (Text.spelled name), child "value" (value.outline typeOf),
        children "statements" (outlineAll body)]
  | .whileDo _ condition body =>
    node .whileLoop
      [child "condition" (condition.outline typeOf), children "statements" (outlineAll body)]
  | .result _ value => node .result [child "value" (value.outline typeOf)]
  | .foreign _ kind _ => node kind []

/-- The lines of each statement of a list. -/
def outlineAll : List (Stmt α) → List (List String)
  | [] => []
  | s :: rest => s.outline :: outlineAll rest

end

end Stmt

/-- The lines of a field, which has the attributes of a local variable. -/
def Field.outline (field : Field α) : List String :=
  node .field (field.declaration.outline typeOf)

/-- The lines of a method. Its parameters are written on their line, as lists of
names. -/
def Method.outline (method : Method α) : List String :=
  node .method
    [entry "name" (Text.spelled method.name),
      entry "parameters" (Text.spelledList method.parameters),
      entry "parameter_type_names" (Text.spelledList method.parameterTypes),
      optionalName "return_type_name" method.returnType,
      children "statements" (Stmt.outlineAll typeOf method.body)]

/-- The lines of a program. -/
def Program.outline (program : Program α) : List String :=
  node .program
    [children "fields" (program.fields.map (·.outline typeOf)),
      children "methods" (program.methods.map (·.outline typeOf))]

end

end PlcLang
