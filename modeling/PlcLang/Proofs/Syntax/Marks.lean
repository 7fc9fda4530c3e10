import PlcLang.Syntax

/-!
# `PlcLang.Proofs.Syntax.Marks`: the marks of a tree

Changing every mark of a tree by `f` and then by `g` changes every mark by
`g ∘ f`, and changing every mark to itself changes nothing.

`marks` lists the marks of a tree, from the root on and from left to right.
-/

set_option autoImplicit false

namespace PlcLang

variable {α β γ : Type} (f : α → β) (g : β → γ)

namespace Expr

mutual

/-- Two changes of the marks of an expression are one. The induction is on the
expression together with the lists of arguments in it, as `Expr.map` itself goes
down. -/
theorem map_map : ∀ e : Expr α, (e.map f).map g = e.map (g ∘ f)
  | nil _ | boolean .. | integer .. | decimal .. | character .. | string .. | var ..
  | foreign .. => rfl
  | group _ inner => by rw [map, map, map_map inner, map, Function.comp]
  | binary _ _ left right => by
      rw [map, map, map_map left, map_map right, map, Function.comp]
  | field _ receiver _ => by rw [map, map, map_map receiver, map, Function.comp]
  | call _ _ arguments => by rw [map, map, mapAll_mapAll arguments, map, Function.comp]
  | methodCall _ receiver _ arguments => by
      rw [map, map, map_map receiver, mapAll_mapAll arguments, map, Function.comp]

/-- Two changes of the marks of a list of expressions are one. -/
theorem mapAll_mapAll : ∀ list : List (Expr α), mapAll g (mapAll f list) = mapAll (g ∘ f) list
  | [] => rfl
  | e :: rest => by rw [mapAll, mapAll, map_map e, mapAll_mapAll rest, mapAll]

end

mutual

/-- An expression whose marks are changed to themselves is the same expression. -/
theorem map_id : ∀ e : Expr α, e.map id = e
  | nil _ | boolean .. | integer .. | decimal .. | character .. | string .. | var ..
  | foreign .. => rfl
  | group _ inner => by rw [map, map_id inner, id]
  | binary _ _ left right => by rw [map, map_id left, map_id right, id]
  | field _ receiver _ => by rw [map, map_id receiver, id]
  | call _ _ arguments => by rw [map, mapAll_id arguments, id]
  | methodCall _ receiver _ arguments => by
      rw [map, map_id receiver, mapAll_id arguments, id]

/-- A list of expressions whose marks are changed to themselves is the same list. -/
theorem mapAll_id : ∀ list : List (Expr α), mapAll id list = list
  | [] => rfl
  | e :: rest => by rw [mapAll, map_id e, mapAll_id rest]

end

/-- The marks of a list are changed expression by expression. `mapAll` is there only
because `map` has to go down into arguments by a recursion of its own. -/
theorem mapAll_eq_map (list : List (Expr α)) : mapAll f list = list.map (map f) := by
  induction list with
  | nil => rfl
  | cons e rest ih => rw [mapAll, ih, List.map_cons]

/-- No argument is added or taken away. -/
@[simp] theorem length_mapAll (list : List (Expr α)) : (mapAll f list).length = list.length := by
  rw [mapAll_eq_map, List.length_map]

/-- The root's mark is changed, too. -/
theorem mark_map (e : Expr α) : (e.map f).mark = f e.mark := by
  cases e <;> rfl

/-- Marks say nothing about the kind of a node. -/
theorem kind_map (e : Expr α) : (e.map f).kind = e.kind := by
  cases e <;> rfl

end Expr

/-- Two changes of the marks of a declaration are one. -/
theorem Declaration.map_map (d : Declaration α) : (d.map f).map g = d.map (g ∘ f) := by
  obtain ⟨name, typeName, value⟩ := d
  cases value with
  | none => rfl
  | some value => simp only [Declaration.map, Option.map_some, Expr.map_map]

/-- A declaration whose marks are changed to themselves is the same declaration. -/
theorem Declaration.map_id (d : Declaration α) : d.map id = d := by
  obtain ⟨name, typeName, value⟩ := d
  cases value with
  | none => rfl
  | some value => simp only [Declaration.map, Option.map_some, Expr.map_id]

namespace Stmt

mutual

/-- Two changes of the marks of a statement are one, together with the bodies in it. -/
theorem map_map : ∀ s : Stmt α, (s.map f).map g = s.map (g ∘ f)
  | expression _ value => by rw [map, map, Expr.map_map, map, Function.comp]
  | declare _ d => by rw [map, map, Declaration.map_map, map, Function.comp]
  | assign _ target value => by
      rw [map, map, Expr.map_map, Expr.map_map, map, Function.comp]
  | cond _ condition thenBody elseBody => by
      rw [map, map, Expr.map_map, mapAll_mapAll thenBody, mapAll_mapAll elseBody, map,
        Function.comp]
  | forIn _ _ value body => by
      rw [map, map, Expr.map_map, mapAll_mapAll body, map, Function.comp]
  | whileDo _ condition body => by
      rw [map, map, Expr.map_map, mapAll_mapAll body, map, Function.comp]
  | result _ value => by rw [map, map, Expr.map_map, map, Function.comp]
  | foreign .. => rfl

/-- Two changes of the marks of a body are one. -/
theorem mapAll_mapAll : ∀ list : List (Stmt α), mapAll g (mapAll f list) = mapAll (g ∘ f) list
  | [] => rfl
  | s :: rest => by rw [mapAll, mapAll, map_map s, mapAll_mapAll rest, mapAll]

end

mutual

/-- A statement whose marks are changed to themselves is the same statement. -/
theorem map_id : ∀ s : Stmt α, s.map id = s
  | expression _ value => by rw [map, Expr.map_id, id]
  | declare _ d => by rw [map, Declaration.map_id, id]
  | assign _ target value => by rw [map, Expr.map_id, Expr.map_id, id]
  | cond _ condition thenBody elseBody => by
      rw [map, Expr.map_id, mapAll_id thenBody, mapAll_id elseBody, id]
  | forIn _ _ value body => by rw [map, Expr.map_id, mapAll_id body, id]
  | whileDo _ condition body => by rw [map, Expr.map_id, mapAll_id body, id]
  | result _ value => by rw [map, Expr.map_id, id]
  | foreign .. => rfl

/-- A body whose marks are changed to themselves is the same body. -/
theorem mapAll_id : ∀ list : List (Stmt α), mapAll id list = list
  | [] => rfl
  | s :: rest => by rw [mapAll, map_id s, mapAll_id rest]

end

/-- The marks of a body are changed statement by statement. -/
theorem mapAll_eq_map (list : List (Stmt α)) : mapAll f list = list.map (map f) := by
  induction list with
  | nil => rfl
  | cons s rest ih => rw [mapAll, ih, List.map_cons]

end Stmt

/-- Two changes of the marks of a method are one. -/
theorem Method.map_map (method : Method α) : (method.map f).map g = method.map (g ∘ f) := by
  simp only [Method.map, Stmt.mapAll_mapAll, Function.comp]

/-- A method whose marks are changed to themselves is the same method. -/
theorem Method.map_id (method : Method α) : method.map id = method := by
  rw [Method.map, Stmt.mapAll_id, id]

/-! ### All the marks -/

namespace Expr

mutual

/-- The marks of an expression. -/
def marks : Expr α → List α
  | nil m | boolean m _ | integer m _ | decimal m _ | character m _ | string m _ | var m _
  | foreign m _ _ => [m]
  | group m inner => m :: inner.marks
  | binary m _ left right => m :: (left.marks ++ right.marks)
  | field m receiver _ => m :: receiver.marks
  | call m _ arguments => m :: marksAll arguments
  | methodCall m receiver _ arguments => m :: (receiver.marks ++ marksAll arguments)

/-- The marks of a list of expressions. -/
def marksAll : List (Expr α) → List α
  | [] => []
  | e :: rest => e.marks ++ marksAll rest

end

mutual

/-- The marks of a changed expression are the changed marks, in the same order. This
is what brings a statement about a parsed tree over to the tree that the checker has
annotated. -/
theorem marks_map : ∀ e : Expr α, (e.map f).marks = e.marks.map f
  | nil _ | boolean .. | integer .. | decimal .. | character .. | string .. | var ..
  | foreign .. => rfl
  | group _ inner => by rw [map, marks, marks_map inner, marks, List.map_cons]
  | binary _ _ left right => by
      rw [map, marks, marks_map left, marks_map right, marks, List.map_cons, List.map_append]
  | field _ receiver _ => by rw [map, marks, marks_map receiver, marks, List.map_cons]
  | call _ _ arguments => by rw [map, marks, marksAll_mapAll arguments, marks, List.map_cons]
  | methodCall _ receiver _ arguments => by
      rw [map, marks, marks_map receiver, marksAll_mapAll arguments, marks, List.map_cons,
        List.map_append]

/-- The same of a list of expressions. -/
theorem marksAll_mapAll : ∀ list : List (Expr α), marksAll (mapAll f list) = (marksAll list).map f
  | [] => rfl
  | e :: rest => by
      rw [mapAll, marksAll, marks_map e, marksAll_mapAll rest, marksAll, List.map_append]

end

end Expr

/-- The marks of a declaration. -/
def Declaration.marks (d : Declaration α) : List α :=
  (d.value.map Expr.marks).getD []

/-- The same of a declaration, whose marks are its own and those of the value in it. -/
theorem Declaration.marks_map (d : Declaration α) : (d.map f).marks = d.marks.map f := by
  obtain ⟨name, typeName, value⟩ := d
  cases value with
  | none => rfl
  | some value => exact Expr.marks_map f value

namespace Stmt

mutual

/-- The marks of a statement. -/
def marks : Stmt α → List α
  | expression m value => m :: value.marks
  | declare m d => m :: d.marks
  | assign m target value => m :: (target.marks ++ value.marks)
  | cond m condition thenBody elseBody =>
    m :: (condition.marks ++ (marksAll thenBody ++ marksAll elseBody))
  | forIn m _ value body => m :: (value.marks ++ marksAll body)
  | whileDo m condition body => m :: (condition.marks ++ marksAll body)
  | result m value => m :: value.marks
  | foreign m _ _ => [m]

/-- The marks of a list of statements. -/
def marksAll : List (Stmt α) → List α
  | [] => []
  | s :: rest => s.marks ++ marksAll rest

end

mutual

/-- The same of a statement and the bodies in it. -/
theorem marks_map : ∀ s : Stmt α, (s.map f).marks = s.marks.map f
  | expression _ value => by rw [map, marks, Expr.marks_map, marks, List.map_cons]
  | declare _ d => by rw [map, marks, Declaration.marks_map, marks, List.map_cons]
  | assign _ target value => by
      rw [map, marks, Expr.marks_map, Expr.marks_map, marks, List.map_cons, List.map_append]
  | cond _ condition thenBody elseBody => by
      rw [map, marks, Expr.marks_map, marksAll_mapAll thenBody, marksAll_mapAll elseBody, marks,
        List.map_cons, List.map_append, List.map_append]
  | forIn _ _ value body => by
      rw [map, marks, Expr.marks_map, marksAll_mapAll body, marks, List.map_cons,
        List.map_append]
  | whileDo _ condition body => by
      rw [map, marks, Expr.marks_map, marksAll_mapAll body, marks, List.map_cons,
        List.map_append]
  | result _ value => by rw [map, marks, Expr.marks_map, marks, List.map_cons]
  | foreign .. => rfl

/-- The same of a body. -/
theorem marksAll_mapAll : ∀ list : List (Stmt α), marksAll (mapAll f list) = (marksAll list).map f
  | [] => rfl
  | s :: rest => by
      rw [mapAll, marksAll, marks_map s, marksAll_mapAll rest, marksAll, List.map_append]

end

end Stmt

/-- The marks of a field. -/
def Field.marks (field : Field α) : List α :=
  field.mark :: field.declaration.marks

/-- The marks of a method. -/
def Method.marks (method : Method α) : List α :=
  method.mark :: Stmt.marksAll method.body

/-- The marks of a program. -/
def Program.marks (program : Program α) : List α :=
  program.fields.flatMap Field.marks ++ program.methods.flatMap Method.marks

/-- The same of a program: its fields and its methods. -/
theorem Program.marks_map (program : Program α) : (program.map f).marks = program.marks.map f := by
  have hfield (field : Field α) : (field.map f).marks = field.marks.map f :=
    congrArg (f field.mark :: ·) (Declaration.marks_map f field.declaration)
  have hmethod (method : Method α) : (method.map f).marks = method.marks.map f :=
    congrArg (f method.mark :: ·) (Stmt.marksAll_mapAll f method.body)
  show (program.fields.map _).flatMap _ ++ (program.methods.map _).flatMap _ = List.map f (_ ++ _)
  rw [List.map_append, List.map_flatMap, List.map_flatMap, List.flatMap_map, List.flatMap_map,
    funext hfield, funext hmethod]

/-- Two changes of the marks of a program are one. -/
theorem Program.map_map (program : Program α) : (program.map f).map g = program.map (g ∘ f) := by
  have hfield (field : Field α) : (field.map f).map g = field.map (g ∘ f) :=
    congrArg (Field.mk _) (Declaration.map_map f g field.declaration)
  show Program.mk ((program.fields.map _).map _) ((program.methods.map _).map _) = _
  rw [List.map_map, List.map_map]
  unfold Function.comp
  rw [funext hfield, funext (Method.map_map f g)]
  rfl

end PlcLang
