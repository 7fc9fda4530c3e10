import PlcLang.Proofs.Syntax.Marks
import PlcLang.Session

/-!
# `PlcLang.Proofs.Relabelling.Trees`: the same program with other labels

Two things in a program are only labels: the places of its nodes, and the names of
its variables and methods. A relabelling changes them throughout, and this module
says what it makes of trees, of what the checker notes on them, and of errors.

Names of types and of members are no labels, since the host knows them, and
`main` and `print` are not to be changed (`Naming.Faithful`).

A relabelling that leaves all names alone changes marks and nothing else
(`Program.relabel_same`).
-/

set_option autoImplicit false

namespace PlcLang

/-- Other names for variables and for methods. -/
structure Naming where
  ofVariable : String → String
  ofMethod : String → String

/-- All names as they are. -/
def Naming.same : Naming :=
  ⟨id, id⟩

/-- Different names stay different, and the names that have a meaning stay as they
are. -/
structure Naming.Faithful (names : Naming) : Prop where
  variable_inj : ∀ name other, names.ofVariable name = names.ofVariable other → name = other
  method_inj : ∀ name other, names.ofMethod name = names.ofMethod other → name = other
  print : names.ofMethod "print" = "print"
  main : names.ofMethod "main" = "main"

/-- Names that stay as they are stay different. -/
theorem Naming.faithful_same : Naming.same.Faithful :=
  ⟨fun _ _ h => h, fun _ _ h => h, rfl, rfl⟩

/-- A method's name with its arity, renamed. -/
def Naming.key (names : Naming) (key : FunctionKey) : FunctionKey :=
  (names.ofMethod key.1, key.2)

/-- Different methods stay different, whatever their arities. -/
theorem Naming.Faithful.key_inj {names : Naming} (h : names.Faithful) {key other : FunctionKey}
    (hkey : names.key key = names.key other) : key = other := by
  obtain ⟨hname, harity⟩ := Prod.mk.inj hkey
  exact Prod.ext (h.method_inj _ _ hname) harity

/-! ### Trees -/

section

variable {α β : Type} (mark : α → β) (names : Naming)

mutual

/-- The expression with other marks and names. The names of members and of types
stay. -/
def Expr.relabel : Expr α → Expr β
  | .nil m => .nil (mark m)
  | .boolean m value => .boolean (mark m) value
  | .integer m value => .integer (mark m) value
  | .decimal m value => .decimal (mark m) value
  | .character m text => .character (mark m) text
  | .string m text => .string (mark m) text
  | .group m inner => .group (mark m) (Expr.relabel inner)
  | .binary m op left right => .binary (mark m) op (Expr.relabel left) (Expr.relabel right)
  | .var m name => .var (mark m) (names.ofVariable name)
  | .field m receiver name => .field (mark m) (Expr.relabel receiver) name
  | .call m name arguments => .call (mark m) (names.ofMethod name) (Expr.relabelAll arguments)
  | .methodCall m receiver name arguments =>
    .methodCall (mark m) (Expr.relabel receiver) name (Expr.relabelAll arguments)
  | .foreign m kind written => .foreign (mark m) kind written

/-- `Expr.relabel` on each expression of a list. -/
def Expr.relabelAll : List (Expr α) → List (Expr β)
  | [] => []
  | e :: rest => Expr.relabel e :: Expr.relabelAll rest

end

/-- The declaration with other marks and names. -/
def Declaration.relabel (d : Declaration α) : Declaration β :=
  ⟨names.ofVariable d.name, d.typeName, d.value.map (Expr.relabel mark names)⟩

mutual

/-- The statement with other marks and names. -/
def Stmt.relabel : Stmt α → Stmt β
  | .expression m value => .expression (mark m) (value.relabel mark names)
  | .declare m d => .declare (mark m) (d.relabel mark names)
  | .assign m target value =>
    .assign (mark m) (target.relabel mark names) (value.relabel mark names)
  | .cond m condition thenBody elseBody =>
    .cond (mark m) (condition.relabel mark names) (Stmt.relabelAll thenBody)
      (Stmt.relabelAll elseBody)
  | .forIn m name value body =>
    .forIn (mark m) (names.ofVariable name) (value.relabel mark names) (Stmt.relabelAll body)
  | .whileDo m condition body =>
    .whileDo (mark m) (condition.relabel mark names) (Stmt.relabelAll body)
  | .result m value => .result (mark m) (value.relabel mark names)
  | .foreign m kind written => .foreign (mark m) kind written

/-- `Stmt.relabel` on each statement of a list. -/
def Stmt.relabelAll : List (Stmt α) → List (Stmt β)
  | [] => []
  | s :: rest => Stmt.relabel s :: Stmt.relabelAll rest

end

/-- The field with other marks and names. -/
def Field.relabel (field : Field α) : Field β :=
  ⟨mark field.mark, field.declaration.relabel mark names⟩

/-- The method with other marks and names. Its parameters are variables. -/
def Method.relabel (method : Method α) : Method β where
  mark := mark method.mark
  name := names.ofMethod method.name
  parameters := method.parameters.map names.ofVariable
  parameterTypes := method.parameterTypes
  returnType := method.returnType
  body := Stmt.relabelAll mark names method.body

/-- The program with other marks and names. -/
def Program.relabel (program : Program α) : Program β :=
  ⟨program.fields.map (Field.relabel mark names), program.methods.map (Method.relabel mark names)⟩

/-- What a function's name is bound to, with other marks and names. Only methods have
any. -/
def Callee.relabel : Callee α → Callee β
  | method m => .method (m.relabel mark names)
  | print => .print
  | host run => .host run

/-! ### What does not change -/

/-- The mark of a relabelled expression is its mark, changed. -/
theorem Expr.mark_relabel (e : Expr α) : (e.relabel mark names).mark = mark e.mark := by
  cases e <;> rfl

/-- An expression is of the same kind as before. -/
theorem Expr.kind_relabel (e : Expr α) : (e.relabel mark names).kind = e.kind := by
  cases e <;> rfl

/-- There are as many expressions as before. -/
theorem Expr.length_relabelAll (list : List (Expr α)) :
    (Expr.relabelAll mark names list).length = list.length := by
  induction list with
  | nil => rfl
  | cons e rest ih => rw [Expr.relabelAll, List.length_cons, List.length_cons, ih]

/-- A list of expressions is relabelled one by one. -/
theorem Expr.relabelAll_eq_map (list : List (Expr α)) :
    Expr.relabelAll mark names list = list.map (Expr.relabel mark names) := by
  induction list with
  | nil => rfl
  | cons e rest ih => rw [Expr.relabelAll, List.map_cons, ih]

/-- A block is empty if it was. -/
theorem Stmt.isEmpty_relabelAll (list : List (Stmt α)) :
    (Stmt.relabelAll mark names list).isEmpty = list.isEmpty := by
  cases list <;> rfl

/-- A whole program where an expression belongs has no place, whatever its labels are. -/
theorem Expr.place?_relabel (e : Expr α) :
    (e.relabel mark names).place? = e.place?.map mark := by
  cases e with
  | foreign m kind written => cases kind <;> rfl
  | _ => rfl

/-- The mark of a relabelled statement is its mark, changed. -/
theorem Stmt.mark_relabel (s : Stmt α) : (s.relabel mark names).mark = mark s.mark := by
  cases s <;> rfl

/-- A list of statements is relabelled one by one. -/
theorem Stmt.relabelAll_eq_map (list : List (Stmt α)) :
    Stmt.relabelAll mark names list = list.map (Stmt.relabel mark names) := by
  induction list with
  | nil => rfl
  | cons s rest ih => rw [Stmt.relabelAll, List.map_cons, ih]

/-- Where a program starts does not change. -/
theorem isMain_relabel {names : Naming} (h : names.Faithful) (method : Method α) :
    Checker.isMain (method.relabel mark names) = Checker.isMain method := by
  have hname : (names.ofMethod method.name == "main") = (method.name == "main") := by
    rw [Bool.eq_iff_iff, beq_iff_eq, beq_iff_eq]
    constructor
    · intro heq
      exact h.method_inj _ _ (heq.trans h.main.symm)
    · intro heq
      rw [heq, h.main]
  have hempty : (method.parameters.map names.ofVariable).isEmpty = method.parameters.isEmpty := by
    cases method.parameters <;> rfl
  show (names.ofMethod method.name == "main" && (method.parameters.map names.ofVariable).isEmpty)
    = (method.name == "main" && method.parameters.isEmpty)
  rw [hname, hempty]

/-! ### Marks changed twice -/

section

variable {γ : Type} (f : γ → α) (k : β → γ)

mutual

/-- Marks that are changed before are changed twice. -/
theorem Expr.relabel_map : ∀ e : Expr γ, (e.map f).relabel mark names = e.relabel (mark ∘ f) names
  | .nil _ | .boolean .. | .integer .. | .decimal .. | .character .. | .string .. | .var ..
  | .foreign .. => rfl
  | .group m inner => by rw [Expr.map, Expr.relabel, Expr.relabel_map inner, Expr.relabel]; rfl
  | .binary m op left right => by
      rw [Expr.map, Expr.relabel, Expr.relabel_map left, Expr.relabel_map right, Expr.relabel]
      rfl
  | .field m receiver name => by
      rw [Expr.map, Expr.relabel, Expr.relabel_map receiver, Expr.relabel]
      rfl
  | .call m name arguments => by
      rw [Expr.map, Expr.relabel, Expr.relabelAll_mapAll arguments, Expr.relabel]
      rfl
  | .methodCall m receiver name arguments => by
      rw [Expr.map, Expr.relabel, Expr.relabel_map receiver, Expr.relabelAll_mapAll arguments,
        Expr.relabel]
      rfl

/-- So are those in a list of expressions. -/
theorem Expr.relabelAll_mapAll : ∀ list : List (Expr γ),
    Expr.relabelAll mark names (Expr.mapAll f list) = Expr.relabelAll (mark ∘ f) names list
  | [] => rfl
  | e :: rest => by
      rw [Expr.mapAll, Expr.relabelAll, Expr.relabel_map e, Expr.relabelAll_mapAll rest,
        Expr.relabelAll]

end

mutual

/-- Marks that are changed afterwards are changed twice. -/
theorem Expr.map_relabel : ∀ e : Expr α, (e.relabel mark names).map k = e.relabel (k ∘ mark) names
  | .nil _ | .boolean .. | .integer .. | .decimal .. | .character .. | .string .. | .var ..
  | .foreign .. => rfl
  | .group m inner => by rw [Expr.relabel, Expr.map, Expr.map_relabel inner, Expr.relabel]; rfl
  | .binary m op left right => by
      rw [Expr.relabel, Expr.map, Expr.map_relabel left, Expr.map_relabel right, Expr.relabel]
      rfl
  | .field m receiver name => by
      rw [Expr.relabel, Expr.map, Expr.map_relabel receiver, Expr.relabel]
      rfl
  | .call m name arguments => by
      rw [Expr.relabel, Expr.map, Expr.mapAll_relabelAll arguments, Expr.relabel]
      rfl
  | .methodCall m receiver name arguments => by
      rw [Expr.relabel, Expr.map, Expr.map_relabel receiver, Expr.mapAll_relabelAll arguments,
        Expr.relabel]
      rfl

/-- So are those in a list of expressions. -/
theorem Expr.mapAll_relabelAll : ∀ list : List (Expr α),
    Expr.mapAll k (Expr.relabelAll mark names list) = Expr.relabelAll (k ∘ mark) names list
  | [] => rfl
  | e :: rest => by
      rw [Expr.relabelAll, Expr.mapAll, Expr.map_relabel e, Expr.mapAll_relabelAll rest,
        Expr.relabelAll]

end

end

/-! ### All names as they are -/

mutual

/-- With all names as they are only the marks of an expression change. -/
theorem Expr.relabel_same : ∀ e : Expr α, e.relabel mark .same = e.map mark
  | .nil _ | .boolean .. | .integer .. | .decimal .. | .character .. | .string .. | .var ..
  | .foreign .. => rfl
  | .group m inner => by rw [Expr.relabel, Expr.relabel_same inner, Expr.map]
  | .binary m op left right => by
      rw [Expr.relabel, Expr.relabel_same left, Expr.relabel_same right, Expr.map]
  | .field m receiver name => by rw [Expr.relabel, Expr.relabel_same receiver, Expr.map]
  | .call m name arguments => by
      rw [Expr.relabel, Expr.relabelAll_same arguments, Expr.map]
      rfl
  | .methodCall m receiver name arguments => by
      rw [Expr.relabel, Expr.relabel_same receiver, Expr.relabelAll_same arguments, Expr.map]

/-- So it is with a list of expressions. -/
theorem Expr.relabelAll_same :
    ∀ list : List (Expr α), Expr.relabelAll mark .same list = Expr.mapAll mark list
  | [] => rfl
  | e :: rest => by
      rw [Expr.relabelAll, Expr.relabel_same e, Expr.relabelAll_same rest, Expr.mapAll]

end

/-- So it is with a declaration. -/
theorem Declaration.relabel_same (d : Declaration α) : d.relabel mark .same = d.map mark := by
  obtain ⟨name, typeName, value⟩ := d
  cases value with
  | none => rfl
  | some value =>
      show Declaration.mk _ _ (some (value.relabel mark .same)) = _
      rw [Expr.relabel_same]
      rfl

mutual

/-- So it is with a statement. -/
theorem Stmt.relabel_same : ∀ s : Stmt α, s.relabel mark .same = s.map mark
  | .expression m value => by rw [Stmt.relabel, Expr.relabel_same, Stmt.map]
  | .declare m d => by rw [Stmt.relabel, Declaration.relabel_same, Stmt.map]
  | .assign m target value => by
      rw [Stmt.relabel, Expr.relabel_same, Expr.relabel_same, Stmt.map]
  | .cond m condition thenBody elseBody => by
      rw [Stmt.relabel, Expr.relabel_same, Stmt.relabelAll_same thenBody,
        Stmt.relabelAll_same elseBody, Stmt.map]
  | .forIn m name value body => by
      rw [Stmt.relabel, Expr.relabel_same, Stmt.relabelAll_same body, Stmt.map]
      rfl
  | .whileDo m condition body => by
      rw [Stmt.relabel, Expr.relabel_same, Stmt.relabelAll_same body, Stmt.map]
  | .result m value => by rw [Stmt.relabel, Expr.relabel_same, Stmt.map]
  | .foreign .. => rfl

/-- So it is with a list of statements. -/
theorem Stmt.relabelAll_same :
    ∀ list : List (Stmt α), Stmt.relabelAll mark .same list = Stmt.mapAll mark list
  | [] => rfl
  | s :: rest => by
      rw [Stmt.relabelAll, Stmt.relabel_same s, Stmt.relabelAll_same rest, Stmt.mapAll]

end

/-- So it is with a method. -/
theorem Method.relabel_same (method : Method α) : method.relabel mark .same = method.map mark := by
  have hparameters : method.parameters.map Naming.same.ofVariable = method.parameters :=
    List.map_id _
  show Method.mk _ _ _ _ _ _ = _
  rw [hparameters, Stmt.relabelAll_same]
  rfl

/-- With all names as they are only the marks of a program change. -/
theorem Program.relabel_same (program : Program α) :
    program.relabel mark .same = program.map mark := by
  have hfield (field : Field α) : field.relabel mark .same = field.map mark :=
    congrArg (Field.mk (mark field.mark)) (Declaration.relabel_same mark field.declaration)
  have hmethod (method : Method α) := Method.relabel_same mark method
  show Program.mk (program.fields.map _) (program.methods.map _) = _
  rw [funext hfield, funext hmethod]
  rfl

/-- Marks that are changed and changed back are the marks. So what is called is again what
was to be called. -/
theorem Callee.relabel_relabel {back : β → α} (h : ∀ m, back (mark m) = m) (callee : Callee α) :
    (callee.relabel mark .same).relabel back .same = callee := by
  cases callee with
  | method method =>
      have hid : back ∘ mark = id := funext h
      show Callee.method _ = .method method
      rw [Method.relabel_same, Method.relabel_same, Method.map_map, hid, Method.map_id]
  | print => rfl
  | host run => rfl

end

/-! ### All labels as they are -/

section

variable {α : Type}

/-- A variable has the name that it had. -/
@[simp] theorem Naming.ofVariable_same (name : String) : Naming.same.ofVariable name = name := rfl

/-- A method has the name and arity that it had. -/
@[simp] theorem Naming.key_same (key : FunctionKey) : Naming.same.key key = key := rfl

/-- With all labels as they are an expression is the expression. -/
@[simp] theorem Expr.relabel_id (e : Expr α) : e.relabel id .same = e := by
  rw [Expr.relabel_same, Expr.map_id]

/-- So is a statement. -/
@[simp] theorem Stmt.relabel_id (s : Stmt α) : s.relabel id .same = s := by
  rw [Stmt.relabel_same, Stmt.map_id]

/-- So is a method. -/
@[simp] theorem Method.relabel_id (method : Method α) : method.relabel id .same = method := by
  rw [Method.relabel_same, Method.map_id]

/-- So is what is called. -/
@[simp] theorem Callee.relabel_id (callee : Callee α) : callee.relabel id .same = callee := by
  cases callee with
  | method method => exact congrArg Callee.method (Method.relabel_id method)
  | print => rfl
  | host run => rfl

/-- So is a program. -/
@[simp] theorem Program.relabel_id (program : Program α) : program.relabel id .same = program := by
  have hfield (field : Field α) : field.relabel id .same = field :=
    congrArg (Field.mk field.mark)
      ((Declaration.relabel_same id field.declaration).trans (Declaration.map_id _))
  show Program.mk (program.fields.map _) (program.methods.map _) = program
  rw [funext hfield, funext Method.relabel_id, List.map_id', List.map_id']

end

end PlcLang
