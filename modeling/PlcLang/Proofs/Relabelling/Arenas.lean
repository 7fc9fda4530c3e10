import Mathlib.Data.List.Forall2
import PlcLang.Proofs.Relabelling.Trees

/-!
# `PlcLang.Proofs.Relabelling.Arenas`: scopes under other names

Two arenas correspond if they have the same scopes below each other, and each scope
of the one binds under the new names what the scope of the other binds under the
old ones, changed by `g` and `h`: `Arena.Renamed`. Only what look-ups find counts,
and not the order in which names were bound.

Arenas go on to correspond whatever is done to both of them, and look-ups in them
find corresponding things.
-/

set_option autoImplicit false

namespace PlcLang

variable {V V' F F' β γ : Type} {names : Naming} {g : V → V'} {h : F → F'}

/-- The second scope binds under the new names what the first binds under the old,
changed by `g` and `h`. The order in which names were bound does not count. -/
structure Scope.Renamed (names : Naming) (g : V → V') (h : F → F') (scope : Scope V F)
    (scope' : Scope V' F') : Prop where
  parent : scope'.parent = scope.parent
  bindsVariable : ∀ name, scope'.variableTable.get? (names.ofVariable name)
    = (scope.variableTable.get? name).map g
  bindsFunction : ∀ key, scope'.functionTable.get? (names.key key)
    = (scope.functionTable.get? key).map h

/-- The scopes of the arenas correspond, one by one. -/
def Arena.Renamed (names : Naming) (g : V → V') (h : F → F') (arena : Arena V F)
    (arena' : Arena V' F') : Prop :=
  List.Forall₂ (Scope.Renamed names g h) arena.scopes arena'.scopes

namespace Scope.Renamed

variable {scope : Scope V F} {scope' : Scope V' F'}

/-- Fresh scopes correspond. -/
theorem empty (parent : Option ScopeId) :
    Scope.Renamed names g h (⟨parent, .empty, .empty⟩ : Scope V F) ⟨parent, .empty, .empty⟩ :=
  ⟨rfl, fun _ => rfl, fun _ => rfl⟩

/-- A variable is bound on both sides. Different names stay different, so nothing
else changes. -/
theorem setVariable (hs : scope.Renamed names g h scope') (hnames : names.Faithful)
    (name : String) (value : V) :
    (scope.setVariable name value).Renamed names g h
      (scope'.setVariable (names.ofVariable name) (g value)) where
  parent := hs.parent
  bindsVariable other := by
    show (scope'.variableTable.set _ _).get? _ = ((scope.variableTable.set _ _).get? _).map g
    rw [Bindings.get?_set, Bindings.get?_set]
    by_cases heq : other = name
    · simp [heq]
    · have hne : names.ofVariable other ≠ names.ofVariable name :=
        fun hsame => heq (hnames.variable_inj _ _ hsame)
      simp [heq, hne, hs.bindsVariable]
  bindsFunction := hs.bindsFunction

/-- A function is bound on both sides. -/
theorem setFunction (hs : scope.Renamed names g h scope') (hnames : names.Faithful)
    (key : FunctionKey) (value : F) :
    (scope.setFunction key value).Renamed names g h
      (scope'.setFunction (names.key key) (h value)) where
  parent := hs.parent
  bindsVariable := hs.bindsVariable
  bindsFunction other := by
    show (scope'.functionTable.set _ _).get? _ = ((scope.functionTable.set _ _).get? _).map h
    rw [Bindings.get?_set, Bindings.get?_set]
    by_cases heq : other = key
    · simp [heq]
    · have hne : names.key other ≠ names.key key := fun hsame => heq (hnames.key_inj hsame)
      simp [heq, hne, hs.bindsFunction]

end Scope.Renamed

namespace Arena.Renamed

variable {arena : Arena V F} {arena' : Arena V' F'}

/-- There are as many scopes on both sides. -/
theorem size_eq (ha : arena.Renamed names g h arena') : arena'.size = arena.size :=
  ha.length_eq.symm

/-- At every index there are corresponding scopes, or none on either side. -/
theorem scope?_cases (ha : arena.Renamed names g h arena') (index : ScopeId) :
    (arena.scope? index = none ∧ arena'.scope? index = none)
      ∨ ∃ scope scope', arena.scope? index = some scope ∧ arena'.scope? index = some scope'
        ∧ scope.Renamed names g h scope' := by
  unfold Arena.Renamed at ha
  unfold Arena.scope?
  generalize arena.scopes = scopes at ha
  generalize arena'.scopes = scopes' at ha
  induction ha generalizing index with
  | nil => exact .inl ⟨rfl, rfl⟩
  | cons hs _ ih =>
      cases index with
      | zero => exact .inr ⟨_, _, rfl, rfl, hs⟩
      | succ index => exact ih index

/-- Fresh arenas correspond. -/
theorem initial : Arena.Renamed names g h (Arena.initial : Arena V F) Arena.initial :=
  .cons (.empty none) .nil

/-- They go on to correspond when a scope is pushed on both sides. -/
theorem push (ha : arena.Renamed names g h arena') (parent : ScopeId) :
    (arena.push parent).Renamed names g h (arena'.push parent) :=
  List.rel_append ha (.cons (.empty (some parent)) .nil)

/-- So they do when a scope is released, or may not be. -/
theorem release (ha : arena.Renamed names g h arena') (index : ScopeId) :
    ((arena.release index).toOption.getD arena).Renamed names g h
      ((arena'.release index).toOption.getD arena') := by
  unfold Arena.release
  split
  · exact ha
  · exact List.forall₂_take index ha

/-- So they do when a scope is changed in corresponding ways. -/
theorem modify (ha : arena.Renamed names g h arena') {f : Scope V F → Scope V F}
    {f' : Scope V' F' → Scope V' F'}
    (hf : ∀ scope scope', scope.Renamed names g h scope' →
      (f scope).Renamed names g h (f' scope')) (index : ScopeId) :
    (arena.modify index f).Renamed names g h (arena'.modify index f') := by
  unfold Arena.Renamed at ha
  show List.Forall₂ _ (arena.scopes.modify index f) (arena'.scopes.modify index f')
  generalize arena.scopes = scopes at ha
  generalize arena'.scopes = scopes' at ha
  induction ha generalizing index with
  | nil => cases index <;> exact .nil
  | cons hs hrest ih =>
      cases index with
      | zero => exact .cons (hf _ _ hs) hrest
      | succ index => exact .cons hs (ih index)

/-- So they do when a variable is bound. -/
theorem bindVariable (ha : arena.Renamed names g h arena') (hnames : names.Faithful)
    (index : ScopeId) (name : String) (value : V) :
    (arena.bindVariable index name value).Renamed names g h
      (arena'.bindVariable index (names.ofVariable name) (g value)) :=
  ha.modify (fun _ _ hs => hs.setVariable hnames name value) index

/-- So they do when a function is bound. -/
theorem bindFunction (ha : arena.Renamed names g h arena') (hnames : names.Faithful)
    (index : ScopeId) (key : FunctionKey) (value : F) :
    (arena.bindFunction index key value).Renamed names g h
      (arena'.bindFunction index (names.key key) (h value)) :=
  ha.modify (fun _ _ hs => hs.setFunction hnames key value) index

/-! ### Look-ups -/

/-- A look-up finds what corresponds to what it would have found, from scope to
scope. -/
theorem findUp (ha : arena.Renamed names g h arena') {find? : ScopeId → Scope V F → Option β}
    {find?' : ScopeId → Scope V' F' → Option γ} {k : β → γ}
    (hfind : ∀ index scope scope', scope.Renamed names g h scope' →
      find?' index scope' = (find? index scope).map k) (index : ScopeId) :
    (arena'.findUp index find?').toOption.join
      = (arena.findUp index find?).toOption.join.map k := by
  unfold Arena.findUp
  rw [ha.size_eq]
  generalize arena.size = fuel
  induction fuel generalizing index with
  | zero => rfl
  | succ fuel ih =>
      unfold Arena.findUpFrom
      rcases ha.scope?_cases index with ⟨hnone, hnone'⟩ | ⟨scope, scope', hsome, hsome', hs⟩
      · rw [hnone, hnone']
        rfl
      · rw [hsome, hsome']
        dsimp only
        rw [hfind index scope scope' hs]
        cases find? index scope with
        | some found => rfl
        | none =>
            dsimp only [Option.map_none]
            rw [hs.parent]
            cases scope.parent with
            | none => rfl
            | some parent => exact ih parent

/-- A variable is found under its new name. -/
theorem boundVariable? (ha : arena.Renamed names g h arena') (index : ScopeId) (name : String) :
    arena'.boundVariable? index (names.ofVariable name)
      = (arena.boundVariable? index name).map g :=
  ha.findUp (fun _ _ _ hs => hs.bindsVariable name) index

/-- A function is found under its new name. -/
theorem boundFunction? (ha : arena.Renamed names g h arena') (index : ScopeId)
    (key : FunctionKey) :
    arena'.boundFunction? index (names.key key) = (arena.boundFunction? index key).map h :=
  ha.findUp (fun _ _ _ hs => hs.bindsFunction key) index

/-- The same scope owns a variable under its new name. -/
theorem ownerOfVariable? (ha : arena.Renamed names g h arena') (index : ScopeId)
    (name : String) :
    arena'.ownerOfVariable? index (names.ofVariable name) = arena.ownerOfVariable? index name := by
  have hfind (owner : ScopeId) (scope : Scope V F) (scope' : Scope V' F')
      (hs : scope.Renamed names g h scope') :
      (if scope'.variableTable.contains (names.ofVariable name) then some owner else none)
        = (if scope.variableTable.contains name then some owner else none).map id := by
    have hcontains : scope'.variableTable.contains (names.ofVariable name)
        = scope.variableTable.contains name := by
      unfold Bindings.contains
      rw [hs.bindsVariable, Option.isSome_map]
    rw [hcontains, Option.map_id, id]
  exact (ha.findUp hfind index).trans (Option.map_id_fun ▸ rfl)

end Arena.Renamed

/-! ### Definitions -/

/-- Two definitions fail alike, or find corresponding things and leave corresponding
arenas. -/
inductive DefinedAlike (names : Naming) (g : V → V') (h : F → F') (k : β → γ) :
    Except ArenaError (Option β × Arena V F) → Except ArenaError (Option γ × Arena V' F') →
      Prop where
  | error (e : ArenaError) : DefinedAlike names g h k (.error e) (.error e)
  | ok (found : Option β) {after : Arena V F} {after' : Arena V' F'}
      (ha : after.Renamed names g h after') :
      DefinedAlike names g h k (.ok (found, after)) (.ok (found.map k, after'))

namespace Arena.Renamed

variable {arena : Arena V F} {arena' : Arena V' F'}

/-- A definition finds what is there, or adds, on both sides alike. -/
theorem define (ha : arena.Renamed names g h arena') {existing? : Scope V F → Option β}
    {existing?' : Scope V' F' → Option γ} {k : β → γ} {add : Scope V F → Scope V F}
    {add' : Scope V' F' → Scope V' F'}
    (hexisting : ∀ scope scope', scope.Renamed names g h scope' →
      existing?' scope' = (existing? scope).map k)
    (hadd : ∀ scope scope', scope.Renamed names g h scope' →
      (add scope).Renamed names g h (add' scope')) (index : ScopeId) :
    DefinedAlike names g h k (arena.define index existing? add)
      (arena'.define index existing?' add') := by
  unfold Arena.define
  rcases ha.scope?_cases index with ⟨hnone, hnone'⟩ | ⟨scope, scope', hsome, hsome', hs⟩
  · rw [hnone, hnone']
    exact .error .noScope
  · rw [hsome, hsome']
    dsimp only
    rw [hexisting scope scope' hs]
    cases existing? scope with
    | some existing => exact .ok (some existing) ha
    | none => exact .ok none (ha.modify hadd index)

/-- A variable is defined on both sides alike. -/
theorem defineVariable (ha : arena.Renamed names g h arena') (hnames : names.Faithful)
    (index : ScopeId) (name : String) (value : V) :
    DefinedAlike names g h g (arena.defineVariable index name value)
      (arena'.defineVariable index (names.ofVariable name) (g value)) :=
  ha.define (fun _ _ hs => hs.bindsVariable name)
    (fun _ _ hs => hs.setVariable hnames name value) index

/-- A function is defined on both sides alike. -/
theorem defineFunction (ha : arena.Renamed names g h arena') (hnames : names.Faithful)
    (index : ScopeId) (key : FunctionKey) (value : F) :
    DefinedAlike names g h h (arena.defineFunction index key value)
      (arena'.defineFunction index (names.key key) (h value)) :=
  ha.define (fun _ _ hs => hs.bindsFunction key)
    (fun _ _ hs => hs.setFunction hnames key value) index

end Arena.Renamed

end PlcLang
