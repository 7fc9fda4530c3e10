import Mathlib.Data.List.Nodup
import PlcLang.Proofs.Relabelling.Checking
import PlcLang.Proofs.Relabelling.Running

/-!
# `PlcLang.Proofs.Ordering.Bindings`: the order in which names are bound

Two arenas have the same bindings if all look-ups in them agree. They need not be equal,
since a scope also knows which of its names was bound first. This is the least of all
relabellings: no place and no name is another (`Arena.SameBindings`).

* `Arena.SameBindings.bindFunctions`: functions of different names and arities may be
  bound in any order.
* `checkMethod_sameBindings`, `Interpreter.relabels_call_same`: neither the checker nor
  the interpreter can tell arenas with the same bindings apart.
-/

set_option autoImplicit false

namespace PlcLang

variable {V F : Type}

/-- The arenas have the same scopes, and these bind the same: all look-ups in them
agree. -/
abbrev Arena.SameBindings (arena arena' : Arena V F) : Prop :=
  arena.Renamed .same id id arena'

/-- A scope binds what it binds itself. -/
theorem Scope.Renamed.refl (scope : Scope V F) : Scope.Renamed .same id id scope scope where
  parent := rfl
  bindsVariable _ := Option.map_id_apply.symm
  bindsFunction _ := Option.map_id_apply.symm

/-- An arena has the bindings that it has itself. -/
theorem Arena.SameBindings.refl (arena : Arena V F) : arena.SameBindings arena :=
  List.forall₂_same.mpr fun scope _ => Scope.Renamed.refl scope

/-! ### Functions bound one after the other -/

/-- The scope with functions bound, one after the other. -/
def Scope.setFunctions (scope : Scope V F) (functions : List (FunctionKey × F)) : Scope V F :=
  functions.foldl (fun scope function => scope.setFunction function.1 function.2) scope

/-- The arena with functions bound in a scope, one after the other. -/
def Arena.bindFunctions (arena : Arena V F) (index : ScopeId)
    (functions : List (FunctionKey × F)) : Arena V F :=
  functions.foldl (fun arena function => arena.bindFunction index function.1 function.2) arena

/-- To bind functions in a scope is to change that scope once. -/
theorem Arena.bindFunctions_eq_modify (arena : Arena V F) (index : ScopeId)
    (functions : List (FunctionKey × F)) :
    arena.bindFunctions index functions = arena.modify index (·.setFunctions functions) := by
  induction functions generalizing arena with
  | nil =>
      show arena = ⟨arena.scopes.modify index id⟩
      rw [List.modify_id]
  | cons function rest ih =>
      show (arena.bindFunction index function.1 function.2).bindFunctions index rest = _
      rw [ih]
      show Arena.mk ((arena.scopes.modify index _).modify index _) = _
      rw [List.modify_modify_eq]
      rfl

namespace Scope

/-- Binding functions leaves the parent as it is. -/
theorem parent_setFunctions (scope : Scope V F) (functions : List (FunctionKey × F)) :
    (scope.setFunctions functions).parent = scope.parent := by
  induction functions generalizing scope with
  | nil => rfl
  | cons function rest ih => exact ih (scope.setFunction function.1 function.2)

/-- Binding functions leaves the variables as they are. -/
theorem variableTable_setFunctions (scope : Scope V F) (functions : List (FunctionKey × F)) :
    (scope.setFunctions functions).variableTable = scope.variableTable := by
  induction functions generalizing scope with
  | nil => rfl
  | cons function rest ih => exact ih (scope.setFunction function.1 function.2)

/-- Look-ups see functions that are bound one after the other as updates. -/
theorem get?_setFunctions (scope : Scope V F) (functions : List (FunctionKey × F)) :
    (scope.setFunctions functions).functionTable.get?
      = functions.foldl
        (fun (bound : FunctionKey → Option F) function =>
          Function.update bound function.1 (some function.2))
        scope.functionTable.get? := by
  induction functions generalizing scope with
  | nil => rfl
  | cons function rest ih =>
      have hset : (scope.setFunction function.1 function.2).functionTable.get?
          = Function.update scope.functionTable.get? function.1 (some function.2) := by
        funext key
        rw [Function.update_apply]
        show (scope.functionTable.set function.1 function.2).get? key = _
        rw [Bindings.get?_set]
        simp
      show ((scope.setFunction function.1 function.2).setFunctions rest).functionTable.get? = _
      rw [ih, hset, List.foldl_cons]

/-- Of functions with different names and arities it does not matter which is bound
first: updates of different keys commute. -/
theorem Renamed.setFunctions {scope scope' : Scope V F}
    (hs : Scope.Renamed .same id id scope scope') {functions functions' : List (FunctionKey × F)}
    (hperm : functions.Perm functions') (hkeys : (functions.map Prod.fst).Nodup) :
    Scope.Renamed .same id id (scope.setFunctions functions)
      (scope'.setFunctions functions') where
  parent := by
    rw [parent_setFunctions, parent_setFunctions]
    exact hs.parent
  bindsVariable := by
    rw [variableTable_setFunctions, variableTable_setFunctions]
    exact hs.bindsVariable
  bindsFunction key := by
    have htables : scope'.functionTable.get? = scope.functionTable.get? := by
      funext key
      exact (hs.bindsFunction key).trans Option.map_id_apply
    have hcommute : ∀ function ∈ functions, ∀ other ∈ functions,
        ∀ bound : FunctionKey → Option F,
        Function.update (Function.update bound function.1 (some function.2)) other.1
            (some other.2)
          = Function.update (Function.update bound other.1 (some other.2)) function.1
            (some function.2) := by
      intro function hfunction other hother bound
      by_cases hkey : function.1 = other.1
      · rw [List.inj_on_of_nodup_map hkeys hfunction hother hkey]
      · exact Function.update_comm hkey _ _ bound
    rw [Option.map_id_apply, get?_setFunctions, get?_setFunctions, htables]
    exact (congrFun (hperm.foldl_eq' hcommute _) key).symm

end Scope

/-- Functions with different names and arities may be bound in any order. -/
theorem Arena.SameBindings.bindFunctions {arena arena' : Arena V F}
    (ha : arena.SameBindings arena') (index : ScopeId)
    {functions functions' : List (FunctionKey × F)} (hperm : functions.Perm functions')
    (hkeys : (functions.map Prod.fst).Nodup) :
    (arena.bindFunctions index functions).SameBindings
      (arena'.bindFunctions index functions') := by
  rw [Arena.bindFunctions_eq_modify, Arena.bindFunctions_eq_modify]
  exact ha.modify (fun _ _ hs => hs.setFunctions hperm hkeys) index

/-! ### No other labels -/

/-- With no other labels a field is the field. -/
theorem Field.relabel_id_same (field : Field Offset) : field.relabel id .same = field :=
  congrArg (Field.mk field.mark)
    ((Declaration.relabel_same id field.declaration).trans field.declaration.map_id)

/-- With no other labels what can be called is what can be called. -/
theorem Callee.relabel_eq_id : (Callee.relabel id .same : Callable → Callable) = id :=
  funext Callee.relabel_id

/-- Symbols that are relabelled with no other labels are those with the same
bindings. -/
theorem Symbols.relabelled_same_iff {symbols symbols' : Symbols} :
    symbols.Relabelled id .same symbols' ↔ symbols.SameBindings symbols' := by
  unfold Symbols.Relabelled
  rw [VariableSymbol.relabel_same, FunctionSymbol.relabel_same]

/-- Runs that stop alike under no other labels stop with the same. -/
theorem Stop.Relabelled.eq {stop stop' : Stop} (h : stop.Relabelled id .same stop') :
    stop' = stop := by
  cases h with
  | @fault f f' hcause hoffset =>
      have hsame : f'.cause = f.cause := by
        rcases hcause with hcause | hcause
        · exact hcause
        · rw [hcause, FaultCause.rename_same]
      rw [Option.map_id_apply] at hoffset
      obtain ⟨cause, offset⟩ := f'
      cases hsame
      cases hoffset
      rfl
  | host e => rfl
  | number e => rfl
  | tooDeep => rfl
  | tooLong => rfl

/-! ### Neither pass can tell -/

namespace Checker

open Proofs

/-- The body of a method that is accepted is also accepted among the same bindings that were
made in another order. -/
theorem checkMethod_sameBindings {types : TypeTable} {method : Method Offset}
    {symbol : FunctionSymbol} {symbols symbols' : Symbols} (h : symbols.SameBindings symbols')
    {method' : Method Note} {after : Symbols}
    (hok : plain.checkMethod types method symbol symbols = .ok method' after) :
    ∃ method'' after', plain.checkMethod types method symbol symbols' = .ok method'' after' := by
  have hrelabels : Relabels id .same _ (plain.checkMethod types method symbol)
      (plain.checkMethod types (method.relabel id .same) (symbol.relabel id .same)) :=
    relabels_checkMethod types.unlabelled_same Naming.faithful_same method symbol
  have hend := hrelabels symbols symbols' (Symbols.relabelled_same_iff.mpr h)
  rw [hok, Method.relabel_id, FunctionSymbol.relabel_same] at hend
  obtain ⟨after', hok', -⟩ := hend
  exact ⟨_, after', hok'⟩

end Checker

namespace Interpreter

open Proofs

/-- What is called runs alike on machines with the same bindings. -/
theorem relabels_call_same (limits : Limits) (main : Callable) (arguments : List Value) :
    Relabels id .same id
      (plain.call Arena.root (plain.execute limits.rounds limits.depth) main arguments)
      (plain.call Arena.root (plain.execute limits.rounds limits.depth) main arguments) := by
  have hrelabels : Likeness plain plain id .same (.none Offset)
      fun _ {_} x y => Relabels id .same id x y := likeness_relabel Naming.faithful_same
  have hcall : Relabels id .same id
      (plain.call Arena.root (plain.execute limits.rounds limits.depth) main arguments)
      (plain.call Arena.root (plain.execute limits.rounds limits.depth)
        (main.relabel id .same) arguments) :=
    hrelabels.call Arena.root ("main", arguments.length)
      (hrelabels.execute limits.rounds limits.depth) trivial rfl
  rwa [Callee.relabel_id] at hcall

end Interpreter

end PlcLang
