import PlcLang.Proofs.Scoping.Chains
import PlcLang.Proofs.Scoping.Discipline

/-!
# `PlcLang.Proofs.Breakdowns.Exactness`: computations that take nothing for granted

A computation is exacting if it raises an alarm wherever something that must be there is
missing. `Exact I P x y` says of a computation `x` and its exacting twin `y` that
nothing is missing as long as the states have `I`: the two do the same, and in the end
the state has `I` again, and an error has `P`.

What must be there are scopes, above all. Where the scopes are a stack (`InOrder`) every
look-up finds all the scopes that it visits (`findUp_eq_ok`), and a scope that is left
can be released (`inOrder_take`). What is said of all functions that are bound
(`Binds`) is said of those that look-ups find.
-/

set_option autoImplicit false

namespace PlcLang.Proofs

variable {ε σ α β : Type}

/-! ### Computations beside their exacting twins -/

/-- Begun in a state with `I`, `y` does what `x` does, which leaves a state with `I`
and fails with `P` only. -/
def Exact (I : σ → Prop) (P : ε → Prop) (x y : EStateM ε σ α) : Prop :=
  ∀ s, I s → y s = x s ∧ Yields x s (fun _ s' => I s') fun e s' => P e ∧ I s'

namespace Exact

variable {I : σ → Prop} {P : ε → Prop} {x y : EStateM ε σ α}

/-- An answer that is there already is given by both. -/
theorem pure (a : α) : Exact I P (pure a) (pure a) :=
  fun _ hs => ⟨rfl, hs⟩

/-- An error that has `P` may be raised by both. -/
theorem throw {e : ε} (he : P e) : Exact I P (throw e : EStateM ε σ α) (throw e) :=
  fun _ hs => ⟨rfl, he, hs⟩

/-- What comes next gets the answer of the first part, which may be given in another
form. The twin goes on with the translated answer. -/
theorem bind_map {α' : Type} {f : α → α'} {y : EStateM ε σ α'} {k : α → EStateM ε σ β}
    {k' : α' → EStateM ε σ β} (hx : Exact I P (f <$> x) y) (hk : ∀ a, Exact I P (k a) (k' (f a))) :
    Exact I P (x >>= k) (y >>= k') := by
  intro s hs
  obtain ⟨hsame, hyields⟩ := hx s hs
  unfold Yields at hyields ⊢
  rw [map_apply] at hsame hyields
  cases h : x s with
  | ok a s' =>
      rw [h] at hsame hyields
      rw [bind_eq_of_ok h, bind_eq_of_ok hsame]
      exact hk a s' hyields
  | error e s' =>
      rw [h] at hsame hyields
      rw [bind_eq_of_error h, bind_eq_of_error hsame]
      exact ⟨rfl, hyields⟩

/-- Exact parts can be put behind each other: the first leaves a state with `I` for
the second. -/
theorem bind {k k' : α → EStateM ε σ β} (hx : Exact I P x y)
    (hk : ∀ a, Exact I P (k a) (k' a)) : Exact I P (x >>= k) (y >>= k') := by
  rw [← id_map x] at hx
  exact hx.bind_map hk

/-- What has nothing to do may come first. So it is with a guard that lets the
computation pass. -/
theorem guarded {guard : EStateM ε σ Unit} (hguard : Exact I P (Pure.pure ()) guard)
    (h : Exact I P x y) : Exact I P x (guard >>= fun _ => y) :=
  hguard.bind fun _ => h

/-- Exactness is kept by all that a computation is put together of, so it can be
shown part by part along the recursion of the checker or of the interpreter. -/
theorem compositional : Compositional fun {α} (x y : EStateM ε σ α) => Exact I P x y :=
  ⟨.pure, .bind⟩

/-- What is made of the answer has no part in it. -/
theorem map {f : α → β} (hx : Exact I P x y) : Exact I P (f <$> x) (f <$> y) :=
  compositional.map f hx

/-- Reading the state and going on with it. The rest may rely on `I` of what was
read. -/
theorem get_bind {k k' : σ → EStateM ε σ β} (hk : ∀ s, I s → Exact I P (k s) (k' s)) :
    Exact I P (get >>= k) (get >>= k') :=
  fun s hs => hk s hs s hs

/-- What the two do may be seen from the state in which they are begun. Another
pair, exact by itself, stands in for them there. -/
theorem of_state (h : ∀ s, I s → ∃ x' y', Exact I P x' y' ∧ x s = x' s ∧ y s = y' s) :
    Exact I P x y := by
  intro s hs
  obtain ⟨x', y', hexact, hx, hy⟩ := h s hs
  obtain ⟨hsame, hyields⟩ := hexact s hs
  unfold Yields
  rw [hx, hy]
  exact ⟨hsame, hyields⟩

/-- A change of the state is made by both, and has to keep `I`. -/
theorem modify {f : σ → σ} (hf : ∀ s, I s → I (f s)) :
    Exact I P (modify f : EStateM ε σ Unit) (modify f) :=
  fun s hs => ⟨rfl, hf s hs⟩

/-- A choice that is made alike, between computations that are exact each. -/
theorem ite {c : Prop} [Decidable c] {z w : EStateM ε σ α} (hx : Exact I P x y)
    (hz : Exact I P z w) : Exact I P (if c then x else z) (if c then y else w) := by
  by_cases h : c
  · rwa [if_pos h, if_pos h]
  · rwa [if_neg h, if_neg h]

/-- One computation after the other for each element of a list, with the list of the
answers. -/
theorem mapM {list : List α} {k k' : α → EStateM ε σ β}
    (hk : ∀ a ∈ list, Exact I P (k a) (k' a)) : Exact I P (list.mapM k) (list.mapM k') :=
  compositional.mapM hk

/-- One computation after the other for each element of a list, without answers. -/
theorem forM {list : List α} {k k' : α → EStateM ε σ PUnit}
    (hk : ∀ a ∈ list, Exact I P (k a) (k' a)) : Exact I P (list.forM k) (list.forM k') :=
  compositional.forM hk

end Exact

/-! ### Scopes that are a stack -/

variable {V F : Type}

/-- A scope that is entered becomes the last one, whichever scope below it is its
parent. -/
theorem inOrder_push {arena : Arena V F} {current parent : ScopeId}
    (h : InOrder arena.parents current) (hparent : parent ≤ current) :
    InOrder (arena.push parent).parents (current + 1) := by
  have hpush := InOrder.push h hparent
  rwa [h.1, ← parents_push] at hpush

/-- A scope that is left was the last one, and the one before it is the last one
again. -/
theorem inOrder_take {arena : Arena V F} {current : ScopeId}
    (h : InOrder arena.parents (current + 1)) :
    InOrder (⟨arena.scopes.take (current + 1)⟩ : Arena V F).parents current := by
  have htake : (⟨arena.scopes.take (current + 1)⟩ : Arena V F).parents
      = arena.parents.take (current + 1) := by
    rw [Arena.parents, Arena.parents, List.map_take]
  rw [htake]
  constructor
  · rw [List.length_take, h.1]
    omega
  · intro entry hentry parent hparent
    obtain ⟨value, index⟩ := entry
    rw [List.mem_zipIdx_iff_getElem?, List.getElem?_take] at hentry
    by_cases hlt : index < current + 1
    · rw [if_pos hlt] at hentry
      exact h.2 (value, index) (List.mem_zipIdx_iff_getElem?.mpr hentry) parent hparent
    · rw [if_neg hlt] at hentry
      cases hentry

/-- A scope behind the program's can be released: all the scopes from it on are
dropped. Only the program's own scope may not be released. -/
theorem release_succ (arena : Arena V F) (current : ScopeId) :
    arena.release (current + 1) = .ok ⟨arena.scopes.take (current + 1)⟩ :=
  if_neg (Nat.succ_ne_zero current)

/-- Where the scopes are a stack there is a scope of every smaller index. -/
theorem InOrder.exists_scope? {arena : Arena V F} {current index : ScopeId}
    (h : InOrder arena.parents current) (hindex : index ≤ current) :
    ∃ scope, arena.scope? index = some scope := by
  have hlt : index < arena.scopes.length := by
    rw [show arena.scopes.length = current + 1 from InOrder.size_eq h]
    exact Nat.lt_succ_of_le hindex
  exact ⟨arena.scopes[index], List.getElem?_eq_getElem hlt⟩

/-- The current scope can be defined in. What is looked for in it and what is added
does not matter. -/
theorem exists_define {arena : Arena V F} {current : ScopeId}
    (h : InOrder arena.parents current) (existing? : Scope V F → Option β)
    (add : Scope V F → Scope V F) :
    ∃ found after, arena.define current existing? add = .ok (found, after) := by
  obtain ⟨scope, hscope⟩ := InOrder.exists_scope? h (Nat.le_refl current)
  rw [Arena.define, hscope]
  dsimp only
  cases existing? scope with
  | some existing => exact ⟨some existing, arena, rfl⟩
  | none => exact ⟨none, arena.modify current add, rfl⟩

/-- A look-up finds all the scopes that it visits. The induction is on the index,
since a parent is smaller than its child. -/
theorem findUp_eq_ok {arena : Arena V F} {current index : ScopeId}
    (h : InOrder arena.parents current) (hindex : index ≤ current)
    (find? : ScopeId → Scope V F → Option β) : ∃ found, arena.findUp index find? = .ok found := by
  rw [Arena.findUp]
  generalize arena.size = fuel
  -- every parent stands before its child, so the indices stay below `current`
  induction fuel generalizing index with
  | zero => exact ⟨none, rfl⟩
  | succ fuel ih =>
      obtain ⟨scope, hscope⟩ := InOrder.exists_scope? h hindex
      rw [Arena.findUpFrom, hscope]
      dsimp only
      cases find? index scope with
      | some found => exact ⟨some found, rfl⟩
      | none =>
          cases hparent : scope.parent with
          | none => exact ⟨none, rfl⟩
          | some parent =>
              have hentry : arena.parents[index]? = some (some parent) := by
                show (arena.scopes.map (·.parent))[index]? = _
                rw [List.getElem?_map, show arena.scopes[index]? = some scope from hscope]
                exact congrArg some hparent
              have hlt := InOrder.parent_lt h hentry
              exact ih (Nat.le_of_lt (Nat.lt_of_lt_of_le hlt hindex))

/-- What a look-up finds it finds in a scope: there is an owner, and it answers so
by itself. -/
theorem exists_of_findUp_eq_some {arena : Arena V F} {index : ScopeId}
    {find? : ScopeId → Scope V F → Option β} {found : β}
    (h : arena.findUp index find? = .ok (some found)) :
    ∃ owner scope, arena.scope? owner = some scope ∧ find? owner scope = some found := by
  rw [Arena.findUp] at h
  generalize arena.size = fuel at h
  induction fuel generalizing index with
  | zero => cases h
  | succ fuel ih =>
      rw [Arena.findUpFrom] at h
      cases hscope : arena.scope? index with
      | none =>
          rw [hscope] at h
          cases h
      | some scope =>
          rw [hscope] at h
          dsimp only at h
          cases hfind : find? index scope with
          | some other =>
              rw [hfind] at h
              obtain rfl : other = found := Option.some.inj (Except.ok.inj h)
              exact ⟨index, scope, hscope, hfind⟩
          | none =>
              rw [hfind] at h
              dsimp only at h
              cases hparent : scope.parent with
              | none =>
                  rw [hparent] at h
                  cases h
              | some parent =>
                  rw [hparent] at h
                  exact ih h

/-- The look-up of a variable answers, and what it answers is what is bound. -/
theorem exists_lookupVariable {arena : Arena V F} {current : ScopeId}
    (h : InOrder arena.parents current) (name : String) :
    ∃ found, arena.lookupVariable current name = .ok found
      ∧ arena.boundVariable? current name = found := by
  obtain ⟨found, hfound⟩ : ∃ found, arena.lookupVariable current name = .ok found :=
    findUp_eq_ok h (Nat.le_refl current) _
  exact ⟨found, hfound, by rw [Arena.boundVariable?, hfound]; rfl⟩

/-- The look-up of a function answers, and what it answers is what is bound. -/
theorem exists_lookupFunction {arena : Arena V F} {current : ScopeId}
    (h : InOrder arena.parents current) (key : FunctionKey) :
    ∃ found, arena.lookupFunction current key = .ok found
      ∧ arena.boundFunction? current key = found := by
  obtain ⟨found, hfound⟩ : ∃ found, arena.lookupFunction current key = .ok found :=
    findUp_eq_ok h (Nat.le_refl current) _
  exact ⟨found, hfound, by rw [Arena.boundFunction?, hfound]; rfl⟩

/-! ### Functions that are bound -/

/-- Every function is bound to something with `R`, in whatever scope. `R` may depend
on the name and the number of parameters that it is bound to. -/
def Binds (R : FunctionKey → F → Prop) (arena : Arena V F) : Prop :=
  ∀ index scope, arena.scope? index = some scope →
    ∀ key value, scope.functionTable.get? key = some value → R key value

namespace Binds

variable {R : FunctionKey → F → Prop} {arena : Arena V F}

/-- A new scope binds nothing. -/
theorem push (h : Binds R arena) (parent : ScopeId) : Binds R (arena.push parent) := by
  intro index scope hscope key value hvalue
  by_cases heq : index = arena.size
  · subst heq
    rw [Arena.scope?_push_self] at hscope
    obtain rfl := Option.some.inj hscope
    cases hvalue
  · have hlt := Arena.scope?_lt hscope
    rw [Arena.size_push] at hlt
    have hbefore : index < arena.size := Nat.lt_of_le_of_ne (Nat.le_of_lt_succ hlt) heq
    rw [Arena.scope?_push_of_lt hbefore] at hscope
    exact h index scope hscope key value hvalue

/-- Changing a scope does no harm if what it binds then has `R`. The other scopes
stay as they are. -/
theorem modify (h : Binds R arena) (index : ScopeId) {f : Scope V F → Scope V F}
    (hf : ∀ scope, (∀ key value, scope.functionTable.get? key = some value → R key value) →
      ∀ key value, (f scope).functionTable.get? key = some value → R key value) :
    Binds R (arena.modify index f) := by
  intro other scope hscope
  by_cases heq : index = other
  · subst heq
    rw [Arena.scope?_modify_self] at hscope
    obtain ⟨before, hbefore, rfl⟩ := Option.map_eq_some_iff.mp hscope
    exact hf before (h index before hbefore)
  · rw [Arena.scope?_modify_of_ne heq] at hscope
    exact h other scope hscope

/-- Variables are bound in a table of their own. -/
theorem bindVariable (h : Binds R arena) (index : ScopeId) (name : String) (value : V) :
    Binds R (arena.bindVariable index name value) :=
  h.modify index fun _ hscope => hscope

/-- A function that has `R` may be bound, also in place of another one. -/
theorem bindFunction (h : Binds R arena) (index : ScopeId) {key : FunctionKey} {value : F}
    (hvalue : R key value) : Binds R (arena.bindFunction index key value) := by
  refine h.modify index fun scope hscope other found hfound => ?_
  have hset : (scope.functionTable.set key value).get? other = some found := hfound
  rw [Bindings.get?_set] at hset
  by_cases heq : (other == key) = true
  · rw [if_pos heq] at hset
    obtain rfl : other = key := eq_of_beq heq
    obtain rfl := Option.some.inj hset
    exact hvalue
  · rw [if_neg heq] at hset
    exact hscope other found hset

/-- Scopes that are released bind nothing any more. -/
theorem take (h : Binds R arena) (count : Nat) :
    Binds R (⟨arena.scopes.take count⟩ : Arena V F) := by
  intro index scope hscope
  have htake : (arena.scopes.take count)[index]? = some scope := hscope
  obtain ⟨hlt, hget⟩ := List.getElem?_eq_some_iff.mp htake
  rw [List.getElem_take] at hget
  exact h index scope (List.getElem?_eq_some_iff.mpr ⟨_, hget⟩)

/-- So what a look-up finds has `R`, whichever scope it was bound in. -/
theorem of_lookup (h : Binds R arena) {index : ScopeId} {key : FunctionKey} {value : F}
    (hlookup : arena.lookupFunction index key = .ok (some value)) : R key value := by
  obtain ⟨owner, scope, hscope, hfound⟩ := exists_of_findUp_eq_some hlookup
  exact h owner scope hscope key value hfound

end Binds

end PlcLang.Proofs
