import PlcLang.Scope

/-!
# `PlcLang.Proofs.Scoping.Relabelling`: other values for functions

Two arenas can differ only in what their functions are bound to, where the one is made
of the other by changing each of these (`Arena.mapFunctions`). Then they go on to differ in
that way whatever is done to both of them, and look-ups find what they would have found,
changed alike.
-/

set_option autoImplicit false

namespace PlcLang

variable {κ α β γ V F F' : Type}

namespace Bindings

/-- The map with every value changed. -/
def mapValues (f : α → β) (bindings : Bindings κ α) : Bindings κ β :=
  ⟨bindings.entries.map fun (key, value) => (key, f value)⟩

variable [BEq κ]

/-- The first binding of a key stays the first one when only values are changed. -/
theorem get?_mapValues (f : α → β) (bindings : Bindings κ α) (key : κ) :
    (bindings.mapValues f).get? key = (bindings.get? key).map f := by
  obtain ⟨entries⟩ := bindings
  show (entries.map _).lookup key = (entries.lookup key).map f
  induction entries with
  | nil => rfl
  | cons entry rest ih =>
      obtain ⟨k, v⟩ := entry
      rw [List.map_cons, List.lookup_cons, List.lookup_cons]
      cases key == k with
      | true => rfl
      | false => exact ih

/-- A binding can be changed before it is set or afterwards, whether it takes the
place of an older one or is added at the end. -/
theorem set_mapValues (f : α → β) (bindings : Bindings κ α) (key : κ) (value : α) :
    (bindings.mapValues f).set key (f value) = (bindings.set key value).mapValues f := by
  obtain ⟨entries⟩ := bindings
  show Bindings.mk (setEntry key (f value) (entries.map _))
    = ⟨(setEntry key value entries).map fun (key, value) => (key, f value)⟩
  congr 1
  induction entries with
  | nil => rfl
  | cons entry rest ih =>
      obtain ⟨k, v⟩ := entry
      rw [List.map_cons, setEntry, setEntry]
      split
      · rfl
      · rw [ih, List.map_cons]

end Bindings

/-- The scope with what its functions are bound to changed. -/
def Scope.mapFunctions (f : F → F') (scope : Scope V F) : Scope V F' :=
  ⟨scope.parent, scope.variableTable, scope.functionTable.mapValues f⟩

namespace Arena

/-- The arena with what its functions are bound to changed. -/
def mapFunctions (f : F → F') (arena : Arena V F) : Arena V F' :=
  ⟨arena.scopes.map (Scope.mapFunctions f)⟩

variable (f : F → F') (arena : Arena V F)

/-- Changing by `f` and back changes nothing. -/
theorem mapFunctions_mapFunctions {g : F' → F} (h : ∀ value, g (f value) = value) :
    (arena.mapFunctions f).mapFunctions g = arena := by
  have hscope (scope : Scope V F) : (scope.mapFunctions f).mapFunctions g = scope := by
    simp only [Scope.mapFunctions, Bindings.mapValues, List.map_map, Function.comp_def, h,
      List.map_id']
  simp only [mapFunctions, List.map_map, Function.comp_def, hscope, List.map_id']

/-- No scope is added or taken away. -/
@[simp] theorem size_mapFunctions : (arena.mapFunctions f).size = arena.size :=
  List.length_map _

/-- Each scope is the one that was in its place, with its functions changed. -/
theorem scope?_mapFunctions (index : ScopeId) :
    (arena.mapFunctions f).scope? index = (arena.scope? index).map (Scope.mapFunctions f) :=
  List.getElem?_map

/-- A new scope has no functions, so there is nothing to change in it. -/
theorem push_mapFunctions (parent : ScopeId) :
    (arena.mapFunctions f).push parent = (arena.push parent).mapFunctions f := by
  simp only [push, mapFunctions, List.map_append]
  rfl

/-- A scope can be dropped before or after the change. Whether it may be dropped is
for its index alone to say; where it may not, both arenas are left as they are. -/
theorem release_mapFunctions (index : ScopeId) :
    ((arena.mapFunctions f).release index).toOption.getD (arena.mapFunctions f)
      = ((arena.release index).toOption.getD arena).mapFunctions f := by
  unfold release
  split
  · rfl
  · simp only [mapFunctions, Except.toOption, Option.getD_some, List.map_take]

/-- What `bindVariable` and `bindFunction` have in common: a scope in both arenas is
changed, by two functions that agree up to what the functions are bound to. -/
theorem modify_mapFunctions {g : Scope V F' → Scope V F'} {h : Scope V F → Scope V F}
    (hgh : ∀ scope, g (scope.mapFunctions f) = (h scope).mapFunctions f) (index : ScopeId) :
    (arena.mapFunctions f).modify index g = (arena.modify index h).mapFunctions f := by
  simp only [mapFunctions, modify, Arena.mk.injEq]
  refine List.ext_getElem? fun i => ?_
  rw [List.getElem?_modify, List.getElem?_map, List.getElem?_map, List.getElem?_modify]
  cases arena.scopes[i]? with
  | none => rfl
  | some scope =>
      by_cases heq : index = i
      · simp [heq, hgh]
      · simp [heq]

/-- A variable is bound to the same value in both arenas. -/
theorem bindVariable_mapFunctions (index : ScopeId) (name : String) (value : V) :
    (arena.mapFunctions f).bindVariable index name value
      = (arena.bindVariable index name value).mapFunctions f :=
  modify_mapFunctions f arena (fun _ => rfl) index

/-- A function is bound in one arena to what it is bound to in the other, changed. -/
theorem bindFunction_mapFunctions (index : ScopeId) (key : FunctionKey) (value : F) :
    (arena.mapFunctions f).bindFunction index key (f value)
      = (arena.bindFunction index key value).mapFunctions f := by
  refine modify_mapFunctions f arena (fun scope => ?_) index
  rw [Scope.setFunction, Scope.mapFunctions, Bindings.set_mapValues]
  rfl

/-- A look-up finds what it would have found, changed alike. -/
theorem findUpFrom_mapFunctions {find? : ScopeId → Scope V F → Option β}
    {find?' : ScopeId → Scope V F' → Option γ} {g : β → γ}
    (hfind : ∀ index scope, find?' index (scope.mapFunctions f) = (find? index scope).map g)
    (fuel : Nat) (index : ScopeId) :
    (arena.mapFunctions f).findUpFrom find?' fuel index
      = (arena.findUpFrom find? fuel index).map (Option.map g) := by
  induction fuel generalizing index with
  | zero => rfl
  | succ fuel ih =>
      unfold findUpFrom
      rw [scope?_mapFunctions]
      cases arena.scope? index with
      | none => rfl
      | some scope =>
          dsimp only [Option.map_some]
          rw [hfind]
          cases find? index scope with
          | some found => rfl
          | none =>
              dsimp only [Option.map_none, Scope.mapFunctions]
              cases scope.parent with
              | none => rfl
              | some parent => exact ih parent

/-- Both searches go up by the same parents, so where the one finds something in a
scope, the other finds in the same scope what belongs to it. A search that runs out
of scopes finds nothing, as one that comes to the end of its chain: the statement
does not tell the two apart. -/
theorem findUp_mapFunctions {find? : ScopeId → Scope V F → Option β}
    {find?' : ScopeId → Scope V F' → Option γ} {g : β → γ}
    (hfind : ∀ index scope, find?' index (scope.mapFunctions f) = (find? index scope).map g)
    (index : ScopeId) :
    ((arena.mapFunctions f).findUp index find?').toOption.join
      = (arena.findUp index find?).toOption.join.map g := by
  unfold findUp
  rw [size_mapFunctions, findUpFrom_mapFunctions f arena hfind]
  cases arena.findUpFrom find? arena.size index with
  | error e => rfl
  | ok found => cases found <;> rfl

/-- What a variable is bound to has nothing to do with functions. -/
theorem boundVariable?_mapFunctions (index : ScopeId) (name : String) :
    (arena.mapFunctions f).boundVariable? index name = arena.boundVariable? index name :=
  (findUp_mapFunctions f arena (fun _ _ => Option.map_id'.symm) index).trans Option.map_id'

/-- A look-up of a function finds what it found, changed. -/
theorem boundFunction?_mapFunctions (index : ScopeId) (key : FunctionKey) :
    (arena.mapFunctions f).boundFunction? index key
      = (arena.boundFunction? index key).map f :=
  findUp_mapFunctions f arena
    (fun _ scope => Bindings.get?_mapValues f scope.functionTable key) index

/-- The scope that an assignment goes to is the same in both arenas. -/
theorem ownerOfVariable?_mapFunctions (index : ScopeId) (name : String) :
    (arena.mapFunctions f).ownerOfVariable? index name
      = arena.ownerOfVariable? index name :=
  (findUp_mapFunctions f arena (fun _ _ => Option.map_id'.symm) index).trans Option.map_id'

end Arena

end PlcLang
