import PlcLang.Proofs.Grammar.Derivation
import PlcLang.Proofs.Syntax.Marks
import PlcLang.Syntax.Printer

/-!
# `PlcLang.Proofs.Syntax.Subexpressions`: all the expressions of a tree

`subs` lists an expression with every expression inside it, and `exprs` lists
the expressions of a statement, a method or a program. What is said of all
expressions of a tree is said of the members of these lists: that they are of the
language, for one (`Native`). `declarations`
lists the declarations of a tree, of its fields and of its local variables, and
`statements` lists the statements of a program at every depth.

Marks say nothing about the text of a tree: `Program.format_bare`.
-/

set_option autoImplicit false

namespace PlcLang

variable {α β : Type}

/-! ### Expressions of a tree -/

namespace Expr

mutual

/-- The expression and all expressions inside it. -/
def subs : Expr α → List (Expr α)
  | group m inner => group m inner :: inner.subs
  | binary m op left right => binary m op left right :: (left.subs ++ right.subs)
  | field m receiver name => field m receiver name :: receiver.subs
  | call m name arguments => call m name arguments :: subsAll arguments
  | methodCall m receiver name arguments =>
    methodCall m receiver name arguments :: (receiver.subs ++ subsAll arguments)
  | nil m => [nil m]
  | boolean m value => [boolean m value]
  | integer m value => [integer m value]
  | decimal m value => [decimal m value]
  | character m text => [character m text]
  | string m text => [string m text]
  | var m name => [var m name]
  | foreign m kind written => [foreign m kind written]

/-- All expressions of a list of expressions. -/
def subsAll : List (Expr α) → List (Expr α)
  | [] => []
  | e :: rest => e.subs ++ subsAll rest

end

end Expr

/-- All expressions of a declaration. -/
def Declaration.exprs (d : Declaration α) : List (Expr α) :=
  match d.value with
  | some value => value.subs
  | none => []

namespace Stmt

mutual

/-- All expressions of a statement. -/
def exprs : Stmt α → List (Expr α)
  | expression _ value => value.subs
  | declare _ d => d.exprs
  | assign _ target value => target.subs ++ value.subs
  | cond _ condition thenBody elseBody =>
    condition.subs ++ (exprsAll thenBody ++ exprsAll elseBody)
  | forIn _ _ value body => value.subs ++ exprsAll body
  | whileDo _ condition body => condition.subs ++ exprsAll body
  | result _ value => value.subs
  | foreign .. => []

/-- All expressions of a list of statements. -/
def exprsAll : List (Stmt α) → List (Expr α)
  | [] => []
  | s :: rest => s.exprs ++ exprsAll rest

end

end Stmt

/-- All expressions of a field. -/
def Field.exprs (field : Field α) : List (Expr α) :=
  field.declaration.exprs

/-- All expressions of a method. -/
def Method.exprs (method : Method α) : List (Expr α) :=
  Stmt.exprsAll method.body

/-- All expressions of a program. -/
def Program.exprs (program : Program α) : List (Expr α) :=
  program.fields.flatMap Field.exprs ++ program.methods.flatMap Method.exprs

/-- The expressions of a list have their expressions among those of the list. -/
theorem Expr.mem_subsAll {list : List (Expr α)} {e sub : Expr α} (he : e ∈ list)
    (hsub : sub ∈ e.subs) : sub ∈ Expr.subsAll list := by
  induction list with
  | nil => cases he
  | cons first rest ih =>
      rcases List.mem_cons.mp he with rfl | he
      · exact List.mem_append_left _ hsub
      · exact List.mem_append_right _ (ih he)

/-- So do the statements of a list. -/
theorem Stmt.mem_exprsAll {list : List (Stmt α)} {s : Stmt α} {e : Expr α} (hs : s ∈ list)
    (he : e ∈ s.exprs) : e ∈ Stmt.exprsAll list := by
  induction list with
  | nil => cases hs
  | cons first rest ih =>
      rcases List.mem_cons.mp hs with rfl | hs
      · exact List.mem_append_left _ he
      · exact List.mem_append_right _ (ih hs)

/-! ### Expressions of the language -/

/-- An expression that a text can hold: of no kind that is no expression of the language,
and if it is an integer, one with no more digits than may be read. -/
def Expr.IsNative : Expr α → Prop
  | .foreign .. => False
  | .integer _ value => Showable value
  | _ => True

/-- All the expressions are of the language. -/
def Native (exprs : List (Expr α)) : Prop :=
  ∀ e ∈ exprs, e.IsNative

/-- No expressions, nothing to be said of them. -/
theorem native_nil : Native ([] : List (Expr α)) :=
  fun _ h => absurd h List.not_mem_nil

/-- Two lists of expressions are of the language if both are. -/
theorem native_append {exprs others : List (Expr α)} :
    Native (exprs ++ others) ↔ Native exprs ∧ Native others :=
  List.forall_mem_append

/-- A list of expressions is of the language if its first one and all the others
are. -/
theorem native_cons {e : Expr α} {rest : List (Expr α)} :
    Native (e :: rest) ↔ e.IsNative ∧ Native rest :=
  List.forall_mem_cons

/-! ### Declarations of a tree -/

namespace Stmt

mutual

/-- All declarations of a statement. -/
def declarations : Stmt α → List (Declaration α)
  | declare _ d => [d]
  | cond _ _ thenBody elseBody => declarationsAll thenBody ++ declarationsAll elseBody
  | forIn _ _ _ body | whileDo _ _ body => declarationsAll body
  | expression .. | assign .. | result .. | foreign .. => []

/-- All declarations of a list of statements. -/
def declarationsAll : List (Stmt α) → List (Declaration α)
  | [] => []
  | s :: rest => s.declarations ++ declarationsAll rest

end

end Stmt

/-- All declarations of a method. -/
def Method.declarations (method : Method α) : List (Declaration α) :=
  Stmt.declarationsAll method.body

/-- All declarations of a program. -/
def Program.declarations (program : Program α) : List (Declaration α) :=
  program.fields.map Field.declaration ++ program.methods.flatMap Method.declarations

/-! ### Statements of a tree -/

namespace Stmt

mutual

/-- The statement and all statements inside it. -/
def subs : Stmt α → List (Stmt α)
  | cond m condition thenBody elseBody =>
    cond m condition thenBody elseBody :: (subsAll thenBody ++ subsAll elseBody)
  | forIn m name value body => forIn m name value body :: subsAll body
  | whileDo m condition body => whileDo m condition body :: subsAll body
  | expression m value => [expression m value]
  | declare m d => [declare m d]
  | assign m target value => [assign m target value]
  | result m value => [result m value]
  | foreign m kind written => [foreign m kind written]

/-- All statements of a list of statements. -/
def subsAll : List (Stmt α) → List (Stmt α)
  | [] => []
  | s :: rest => s.subs ++ subsAll rest

end

end Stmt

/-- All statements of a program, those inside others included. -/
def Program.statements (program : Program α) : List (Stmt α) :=
  program.methods.flatMap fun method => Stmt.subsAll method.body

/-! ### Expressions of a tree with other marks -/

namespace Expr

variable (f : α → β)

mutual

/-- Changing marks changes those of all expressions inside. -/
theorem subs_map : ∀ e : Expr α, (e.map f).subs = e.subs.map (map f)
  | nil _ | boolean .. | integer .. | decimal .. | character .. | string .. | var ..
  | foreign .. => rfl
  | group _ inner => by rw [map, subs, subs_map inner, subs, List.map_cons, map]
  | binary _ _ left right => by
      rw [map, subs, subs_map left, subs_map right, subs, List.map_cons, List.map_append, map]
  | field _ receiver _ => by rw [map, subs, subs_map receiver, subs, List.map_cons, map]
  | call _ _ arguments => by rw [map, subs, subsAll_mapAll arguments, subs, List.map_cons, map]
  | methodCall _ receiver _ arguments => by
      rw [map, subs, subs_map receiver, subsAll_mapAll arguments, subs, List.map_cons,
        List.map_append, map]

/-- The expressions in a list, with other marks, are the expressions in the changed
list. -/
theorem subsAll_mapAll :
    ∀ list : List (Expr α), subsAll (mapAll f list) = (subsAll list).map (map f)
  | [] => rfl
  | e :: rest => by
      rw [mapAll, subsAll, subs_map e, subsAll_mapAll rest, subsAll, List.map_append]

end

end Expr

/-- The expressions of a declaration with other marks are those of the changed
declaration. -/
theorem Declaration.exprs_map (f : α → β) (d : Declaration α) :
    (d.map f).exprs = d.exprs.map (Expr.map f) := by
  obtain ⟨name, typeName, value⟩ := d
  cases value with
  | none => rfl
  | some value => exact Expr.subs_map f value

namespace Stmt

variable (f : α → β)

mutual

/-- The expressions of a statement with other marks are those of the changed
statement, in conditions and bodies alike. -/
theorem exprs_map : ∀ s : Stmt α, (s.map f).exprs = s.exprs.map (Expr.map f)
  | expression _ value => by rw [map, exprs, Expr.subs_map, exprs]
  | declare _ d => by rw [map, exprs, Declaration.exprs_map, exprs]
  | assign _ target value => by
      rw [map, exprs, Expr.subs_map, Expr.subs_map, exprs, List.map_append]
  | cond _ condition thenBody elseBody => by
      rw [map, exprs, Expr.subs_map, exprsAll_mapAll thenBody, exprsAll_mapAll elseBody, exprs,
        List.map_append, List.map_append]
  | forIn _ _ value body => by
      rw [map, exprs, Expr.subs_map, exprsAll_mapAll body, exprs, List.map_append]
  | whileDo _ condition body => by
      rw [map, exprs, Expr.subs_map, exprsAll_mapAll body, exprs, List.map_append]
  | result _ value => by rw [map, exprs, Expr.subs_map, exprs]
  | foreign .. => rfl

/-- The same of a body. -/
theorem exprsAll_mapAll :
    ∀ list : List (Stmt α), exprsAll (mapAll f list) = (exprsAll list).map (Expr.map f)
  | [] => rfl
  | s :: rest => by
      rw [mapAll, exprsAll, exprs_map s, exprsAll_mapAll rest, exprsAll, List.map_append]

end

end Stmt

/-- The same of a program. So what is said of all expressions of a program without a
look at the marks is the same before and after the checker has annotated it. -/
theorem Program.exprs_map (f : α → β) (program : Program α) :
    (program.map f).exprs = program.exprs.map (Expr.map f) := by
  simp only [Program.exprs, Program.map, List.flatMap_map, List.map_append, List.map_flatMap,
    Field.exprs, Field.map, Method.exprs, Method.map, Declaration.exprs_map,
    Stmt.exprsAll_mapAll]

/-! ### Declarations of a tree with other marks -/

namespace Stmt

variable (f : α → β)

mutual

/-- The declarations of a statement, those in its bodies among them, can be listed
before or after the marks are changed. -/
theorem declarations_map :
    ∀ s : Stmt α, (s.map f).declarations = s.declarations.map (Declaration.map f)
  | expression .. | declare .. | assign .. | result .. | foreign .. => rfl
  | cond _ _ thenBody elseBody => by
      rw [map, declarations, declarationsAll_mapAll thenBody, declarationsAll_mapAll elseBody,
        declarations, List.map_append]
  | forIn _ _ _ body => by rw [map, declarations, declarationsAll_mapAll body, declarations]
  | whileDo _ _ body => by rw [map, declarations, declarationsAll_mapAll body, declarations]

/-- The same of a body. -/
theorem declarationsAll_mapAll : ∀ list : List (Stmt α),
    declarationsAll (mapAll f list) = (declarationsAll list).map (Declaration.map f)
  | [] => rfl
  | s :: rest => by
      rw [mapAll, declarationsAll, declarations_map s, declarationsAll_mapAll rest,
        declarationsAll, List.map_append]

end

end Stmt

/-- The same of a program, with its fields first. -/
theorem Program.declarations_map (f : α → β) (program : Program α) :
    (program.map f).declarations = program.declarations.map (Declaration.map f) := by
  simp only [Program.declarations, Program.map, List.map_append, List.map_map, List.flatMap_map,
    List.map_flatMap, Method.declarations, Method.map, Stmt.declarationsAll_mapAll]
  rfl

/-! ### Statements of a tree with other marks -/

namespace Stmt

variable (f : α → β)

mutual

/-- The statements in a statement, itself among them, can be listed before or after
the marks are changed. -/
theorem subs_map : ∀ s : Stmt α, (s.map f).subs = s.subs.map (map f)
  | expression .. | declare .. | assign .. | result .. | foreign .. => rfl
  | cond _ _ thenBody elseBody => by
      rw [map, subs, subsAll_mapAll thenBody, subsAll_mapAll elseBody, subs, List.map_cons,
        List.map_append, map]
  | forIn _ _ _ body => by rw [map, subs, subsAll_mapAll body, subs, List.map_cons, map]
  | whileDo _ _ body => by rw [map, subs, subsAll_mapAll body, subs, List.map_cons, map]

/-- The same of a body. -/
theorem subsAll_mapAll :
    ∀ list : List (Stmt α), subsAll (mapAll f list) = (subsAll list).map (map f)
  | [] => rfl
  | s :: rest => by
      rw [mapAll, subsAll, subs_map s, subsAll_mapAll rest, subsAll, List.map_append]

end

end Stmt

/-- The same of a program: the statements of all its methods. -/
theorem Program.statements_map (f : α → β) (program : Program α) :
    (program.map f).statements = program.statements.map (Stmt.map f) := by
  simp only [Program.statements, Program.map, List.flatMap_map, List.map_flatMap, Method.map,
    Stmt.subsAll_mapAll]

/-! ### Printing without marks -/

namespace Expr

variable (f : α → β)

mutual

/-- The text of an expression does not depend on its marks. -/
theorem format_map : ∀ e : Expr α, (e.map f).format = e.format
  | nil _ | boolean .. | integer .. | decimal .. | character .. | string .. | var ..
  | foreign .. => rfl
  | group _ inner => by rw [map, format, format_map inner, format]
  | binary _ _ left right => by rw [map, format, format_map left, format_map right, format]
  | field _ receiver _ => by rw [map, format, format_map receiver, format]
  | call _ _ arguments => by rw [map, format, formatAll_mapAll arguments, format]
  | methodCall _ receiver _ arguments => by
      rw [map, format, format_map receiver, formatAll_mapAll arguments, format]

/-- Arguments are printed alike, whatever the marks. -/
theorem formatAll_mapAll : ∀ list : List (Expr α), formatAll (mapAll f list) = formatAll list
  | [] => rfl
  | e :: rest => by rw [mapAll, formatAll, format_map e, formatAll_mapAll rest, formatAll]

end

end Expr

/-- Nor does the text of a declaration. -/
theorem Declaration.format_map (f : α → β) (d : Declaration α) : (d.map f).format = d.format := by
  obtain ⟨name, typeName, value⟩ := d
  cases value with
  | none => rfl
  | some value =>
      simp only [Declaration.map, Declaration.format, Option.map_some, Expr.format_map]

namespace Stmt

variable (f : α → β)

mutual

/-- Nor does the text of a statement. -/
theorem format_map : ∀ s : Stmt α, (s.map f).format = s.format
  | expression _ value => by rw [map, format, Expr.format_map, format]
  | declare _ d => by rw [map, format, Declaration.format_map, format]
  | assign _ target value => by
      rw [map, format, Expr.format_map, Expr.format_map, format]
  | cond _ condition thenBody elseBody => by
      have hempty : (mapAll f elseBody).isEmpty = elseBody.isEmpty := by cases elseBody <;> rfl
      rw [map, format, Expr.format_map, formatBody_mapAll thenBody, formatBody_mapAll elseBody,
        hempty, format]
  | forIn _ _ value body => by
      rw [map, format, Expr.format_map, formatBody_mapAll body, format]
  | whileDo _ condition body => by
      rw [map, format, Expr.format_map, formatBody_mapAll body, format]
  | result _ value => by rw [map, format, Expr.format_map, format]
  | foreign .. => rfl

/-- Bodies are printed alike, whatever the marks. -/
theorem formatBody_mapAll : ∀ list : List (Stmt α), formatBody (mapAll f list) = formatBody list
  | [] => rfl
  | s :: rest => by rw [mapAll, formatBody, format_map s, formatBody_mapAll rest, formatBody]

end

end Stmt

/-- The text of a program does not depend on its marks. -/
theorem Program.format_bare (program : Program α) : program.bare.format = program.format := by
  have hfield : Field.format ∘ (·.map fun _ : α => ()) = (Field.format : Field α → String) := by
    funext field
    show "LET " ++ (field.declaration.map _).format ++ ";" = _
    rw [Declaration.format_map]
    rfl
  have hmethod : Method.format ∘ (·.map fun _ : α => ())
      = (Method.format : Method α → String) := by
    funext method
    simp only [Function.comp, Method.map, Method.format, Method.parameterText,
      Stmt.formatBody_mapAll]
  have hparts : program.bare.parts = program.parts := by
    simp only [Program.parts, Program.bare, Program.map, List.map_map, hfield, hmethod,
      List.isEmpty_map]
  rw [Program.format, Program.format, hparts]

end PlcLang
