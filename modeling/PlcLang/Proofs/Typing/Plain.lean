import PlcLang.Proofs.Computations
import PlcLang.Typing.Checker

/-!
# `PlcLang.Proofs.Typing.Plain`: what a check does, part by part

A checker that only marks nodes (`Checker.marking`) does nothing besides, so its parts are what
every checker does. The equations say so, one for each part that uses the symbols;
`marking_withScope_apply` is that of what is checked in a scope of its own. They hold of
`Checker.plain` in particular, which is such a checker.

The equations of `declare` are those of every checker. One that has neither a type nor a value is
rejected, and otherwise a type is found (`declare_inferred`, `declare_declared`, `declare_both`).
-/

set_option autoImplicit false

namespace PlcLang.Checker

open Proofs

/-! ### Declarations -/

section

variable {μ κ : Type} (c : Checker μ κ) (types : TypeTable) (here : κ) (offset : Offset)
  (name typeName : String) (value : Expr Offset)

/-- A declaration without a type and a value is rejected before anything else is done. -/
theorem declare_needsTypeOrValue :
    c.declare types here offset ⟨name, none, none⟩
      = reject (.needsTypeOrValue name) (some offset) := rfl

/-- Without a written type the variable has that of its value. -/
theorem declare_inferred :
    c.declare types here offset ⟨name, none, some value⟩ = (do
      let typed ← c.infer types here value
      c.defineDeclared here offset ⟨name, none, some value⟩ typed.1 (some typed.2)) := by
  simp only [declare, declaredType, initialValue, pure_bind, bind_assoc]
  rfl

/-- Without a value the variable has the written type. -/
theorem declare_declared :
    c.declare types here offset ⟨name, some typeName, none⟩ = (do
      let declared ← resolveType types typeName offset
      c.defineDeclared here offset ⟨name, some typeName, none⟩ declared none) := by
  simp only [declare, declaredType, initialValue, pure_bind, bind_map_left]
  rfl

/-- With both, the value must be good for the written type, which the variable has then. -/
theorem declare_both :
    c.declare types here offset ⟨name, some typeName, some value⟩ = (do
      let declared ← resolveType types typeName offset
      let typed ← c.infer types here value
      require types declared typed.1 value.mark
      c.defineDeclared here offset ⟨name, some typeName, some value⟩ declared (some typed.2)) := by
  simp only [declare, declaredType, initialValue, pure_bind, bind_map_left, bind_assoc]
  rfl

end

/-! ### Checkers that only mark nodes -/

section

variable {μ : Type} (look : ScopeId → Check (Note → μ)) {α : Type} (scope : ScopeId)

/-- A checker that only marks nodes is in the scope that it says it is in. -/
@[simp] theorem marking_scope : (marking look).scope scope = scope := rfl

/-- It begins in the program's scope. -/
@[simp] theorem marking_root : (marking look).root = Arena.root := rfl

/-- It takes no account of how deep it is. -/
@[simp] theorem marking_deeper : (marking look).deeper scope = scope := rfl

/-- In a new scope it is in that scope. -/
@[simp] theorem marking_inside (index : ScopeId) : (marking look).inside index scope = index := rfl

/-- What it looks at is what it was made to look at. -/
@[simp] theorem marking_look : (marking look).look scope = look scope := rfl

/-- It does nothing around the parts of a check. -/
@[simp] theorem marking_part (x : Check α) : (marking look).part scope x = x := rfl

/-- And nothing ahead of them. -/
@[simp] theorem marking_before (moment : Moment) : (marking look).before moment = pure () := rfl

/-- What is marked with what is found out about it, and with nothing else. -/
theorem plain_node (body : (Note → Note) → Check α) :
    (plain.part scope do
      let note ← plain.look scope
      body note) = body id := rfl

/-- A variable is looked up from the scope. -/
theorem marking_findVariable (name : String) (offset : Offset) :
    (marking look).findVariable scope name offset = (do
      match (← get).boundVariable? scope name with
      | some symbol => pure symbol
      | none => reject (.undefinedVariable name) offset) := rfl

/-- So is a function. -/
theorem marking_findFunction (key : FunctionKey) (offset : Offset) :
    (marking look).findFunction scope key offset = (do
      match (← get).boundFunction? scope key with
      | some symbol => pure symbol
      | none => reject (.undefinedFunction key) offset) := rfl

/-- A variable that is found is the one that is bound, and to look for it changes nothing. -/
theorem findVariable_finds {name : String} {offset : Offset} {symbols : Symbols} :
    Decides ((marking look).findVariable scope name offset) symbols
      fun symbol => symbols.boundVariable? scope name = some symbol := by
  rw [marking_findVariable]
  refine Decides.get_bind ?_
  cases symbols.boundVariable? scope name with
  | some symbol => exact (Decides.pure symbol).congr fun _ => by rw [Option.some.injEq, eq_comm]
  | none => exact Decides.throw.congr fun _ => by simp

/-- So it is with a function. -/
theorem findFunction_finds {key : FunctionKey} {offset : Offset} {symbols : Symbols} :
    Decides ((marking look).findFunction scope key offset) symbols
      fun symbol => symbols.boundFunction? scope key = some symbol := by
  rw [marking_findFunction]
  refine Decides.get_bind ?_
  cases symbols.boundFunction? scope key with
  | some symbol => exact (Decides.pure symbol).congr fun _ => by rw [Option.some.injEq, eq_comm]
  | none => exact Decides.throw.congr fun _ => by simp

/-- A variable is defined if the scope does not have it. -/
theorem marking_defineVariable_apply (symbol : VariableSymbol) (cause : CheckCause)
    (offset : Offset) (symbols : Symbols) :
    (marking look).defineVariable scope symbol cause offset symbols
      = match symbols.defineVariable scope symbol.name symbol with
        | .ok (none, symbols) => .ok () symbols
        | .ok (some _, symbols) => .error ⟨cause, some offset⟩ symbols
        | .error _ => .error ⟨cause, some offset⟩ symbols := rfl

/-- A function is defined if the program's scope does not have it. -/
theorem marking_defineFunction_apply (symbol : FunctionSymbol) (offset : Offset)
    (symbols : Symbols) :
    (marking look).defineFunction symbol offset symbols
      = match symbols.defineFunction Arena.root symbol.key symbol with
        | .ok (none, symbols) => .ok () symbols
        | .ok (some _, symbols) => .error ⟨.methodAlreadyDefined symbol.key, some offset⟩ symbols
        | .error _ => .error ⟨.methodAlreadyDefined symbol.key, some offset⟩ symbols := rfl

/-- The fresh scope is the last one, and is dropped with all that is behind it when it is left,
however it is left. -/
theorem marking_withScope_apply (body : ScopeId → Check α) (symbols : Symbols) :
    (marking look).withScope scope body symbols
      = match body symbols.size (symbols.push scope) with
        | .ok a after => .ok a ((after.release symbols.size).toOption.getD after)
        | .error e after => .error e ((after.release symbols.size).toOption.getD after) := by
  show always (body symbols.size) ((marking look).leave symbols.size) (symbols.push scope) = _
  unfold always
  cases body symbols.size (symbols.push scope) <;> rfl

/-- The answer may be put into another form before the scope is left. -/
theorem map_withScope {β : Type} (f : α → β) (body : ScopeId → Check α) :
    f <$> (marking look).withScope scope body
      = (marking look).withScope scope fun index => f <$> body index := by
  funext symbols
  rw [map_apply, marking_withScope_apply, marking_withScope_apply, map_apply]
  cases body symbols.size (symbols.push scope) <;> rfl

end

end PlcLang.Checker
