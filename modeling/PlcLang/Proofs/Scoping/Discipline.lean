import PlcLang.Proofs.Execution.Steady

/-!
# `PlcLang.Proofs.Scoping.Discipline`: computations under guard

An arena is used as a stack as long as the current scope is the last one and every
scope stands behind its parent: `InOrder`. To say that it always is, computations are
put under guard. A guarded computation raises an alarm if it begins when the scopes are
out of order, or if it ends, in whatever way, with other scopes than it began with.

`Keeps` says that a guard has no work to do: begun in order, the guarded computation
does what the unguarded one does, or gives up with an error that is known beforehand,
and it leaves the scopes as they were.
-/

set_option autoImplicit false

namespace PlcLang

/-- The current scope is the last one, and every scope stands behind its parent. -/
def InOrder (parents : List (Option ScopeId)) (current : ScopeId) : Prop :=
  parents.length = current + 1 ∧ ∀ entry ∈ parents.zipIdx, ∀ parent ∈ entry.1, parent < entry.2

/-- Whether scopes are in order can be decided, so that a guard can ask. -/
instance (parents : List (Option ScopeId)) (current : ScopeId) :
    Decidable (InOrder parents current) :=
  inferInstanceAs (Decidable (_ ∧ _))

namespace Proofs

variable {ε σ α β : Type}

/-- The program's scope alone is in order. -/
theorem inOrder_root : InOrder [none] Arena.root := by
  decide

/-- The order says of every scope that its parent has a smaller index. -/
theorem InOrder.parent_lt {parents : List (Option ScopeId)} {current index parent : ScopeId}
    (h : InOrder parents current) (hparent : parents[index]? = some (some parent)) :
    parent < index := by
  have hmem : (some parent, index) ∈ parents.zipIdx := by
    rwa [List.mem_zipIdx_iff_getElem?]
  exact h.2 _ hmem parent rfl

/-- A fresh scope behind all others is the current one. -/
theorem InOrder.push {parents : List (Option ScopeId)} {current parent : ScopeId}
    (h : InOrder parents current) (hparent : parent ≤ current) :
    InOrder (parents ++ [some parent]) parents.length := by
  constructor
  · rw [List.length_append, List.length_singleton]
  · intro entry hentry other hother
    rw [List.zipIdx_append, List.mem_append] at hentry
    rcases hentry with hold | hnew
    · exact h.2 entry hold other hother
    · rw [List.zipIdx_singleton, List.mem_singleton] at hnew
      rw [hnew] at hother ⊢
      obtain rfl : parent = other := Option.some.inj hother
      show parent < 0 + parents.length
      rw [Nat.zero_add, h.1]
      exact Nat.lt_succ_of_le hparent

/-- There are as many scopes as parents. -/
theorem InOrder.size_eq {V F : Type} {arena : Arena V F} {current : ScopeId}
    (h : InOrder arena.parents current) : arena.size = current + 1 := by
  have hlength := h.1
  rwa [Arena.parents, List.length_map] at hlength

/-! ### Guards -/

section

variable (parents : σ → List (Option ScopeId))

/-- The computation under guard, where `current` is the current scope. It raises the
alarm if it begins out of order, or ends with other scopes than it began with. -/
def guarded (alarm : ε) (current : ScopeId) (x : EStateM ε σ α) : EStateM ε σ α := fun s =>
  if InOrder (parents s) current then
    match x s with
    | .ok a s' => if parents s' = parents s then .ok a s' else .error alarm s'
    | .error e s' => if parents s' = parents s then .error e s' else .error alarm s'
  else .error alarm s

/-- A scope that is not released is noticed. -/
example (symbols : Symbols) (h : symbols = Arena.initial) :
    guarded Arena.parents "alarm" Arena.root (modify (·.push Arena.root)) symbols
      = (.error "alarm" (symbols.push Arena.root) : EStateM.Result String Symbols Unit) := by
  rw [h]
  rfl

/-- Begun in order, `y` does what `x` does or gives up with the error `cut`, and the
scopes are afterwards what they were. -/
def Keeps (cut : Option ε) (current : ScopeId) (x y : EStateM ε σ α) : Prop :=
  ∀ s, InOrder (parents s) current →
    (y s = x s ∨ ∃ e ∈ cut, ∃ s', y s = .error e s')
      ∧ Yields y s (fun _ s' => parents s' = parents s) fun _ s' => parents s' = parents s

end

namespace Keeps

variable {parents : σ → List (Option ScopeId)} {cut : Option ε} {current : ScopeId}
  {x y : EStateM ε σ α}

/-- A computation that leaves the scopes alone needs no guard. -/
theorem of_yields
    (h : ∀ s, InOrder (parents s) current →
      Yields x s (fun _ s' => parents s' = parents s) fun _ s' => parents s' = parents s) :
    Keeps parents cut current x x := by
  intro s hs
  exact ⟨.inl rfl, h s hs⟩

/-- An answer at once leaves the scopes alone. -/
theorem pure (a : α) : Keeps parents cut current (pure a) (pure a) :=
  of_yields fun _ _ => rfl

/-- So does an error. -/
theorem throw (e : ε) : Keeps parents cut current (throw e : EStateM ε σ α) (throw e) :=
  of_yields fun _ _ => rfl

/-- Giving up for a reason that is known beforehand. -/
theorem give_up {e : ε} (he : e ∈ cut) :
    Keeps parents cut current x (MonadExcept.throw e) := by
  intro s hs
  exact ⟨.inr ⟨e, he, s, rfl⟩, rfl⟩

/-- What comes next gets the answer of the first part, which may be given in another
form. -/
theorem bind_map {α' : Type} {f : α → α'} {y : EStateM ε σ α'} {k : α → EStateM ε σ β}
    {k' : α' → EStateM ε σ β} (hx : Keeps parents cut current (f <$> x) y)
    (hk : ∀ a, Keeps parents cut current (k a) (k' (f a))) :
    Keeps parents cut current (x >>= k) (y >>= k') := by
  intro s hs
  obtain ⟨hsame, hparents⟩ := hx s hs
  rw [← bind_pure_comp] at hsame
  unfold Yields at hparents ⊢
  cases hy : y s with
  | ok b s' =>
      rw [hy] at hsame hparents
      obtain ⟨a, hx, rfl⟩ : ∃ a, x s = .ok a s' ∧ f a = b := by
        rcases hsame with hsame | ⟨e, -, after, herror⟩
        · obtain ⟨a, middle, hx, hanswer⟩ := bind_eq_ok_iff.mp hsame.symm
          cases hanswer
          exact ⟨a, hx, rfl⟩
        · cases herror
      have horder : InOrder (parents s') current := hparents ▸ hs
      obtain ⟨hsame', hparents'⟩ := hk a s' horder
      rw [bind_eq_of_ok hy, bind_eq_of_ok hx]
      refine ⟨hsame', ?_⟩
      exact hparents'.imp (fun _ _ h => h.trans hparents) fun _ _ h => h.trans hparents
  | error e s' =>
      rw [hy] at hsame hparents
      rw [bind_eq_of_error hy]
      refine ⟨?_, hparents⟩
      -- The other side may have been cut short instead. Then it is here, too.
      rcases hsame with hsame | ⟨e', he', after, herror⟩
      · rcases bind_eq_error_iff.mp hsame.symm with hx | ⟨_, _, _, hanswer⟩
        · exact .inl (bind_eq_of_error hx k).symm
        · cases hanswer
      · obtain ⟨rfl, rfl⟩ := EStateM.Result.error.inj herror
        exact .inr ⟨e, he', s', rfl⟩

/-- A sequence, where the answer of the first part is given as it is. -/
theorem bind {k k' : α → EStateM ε σ β} (hx : Keeps parents cut current x y)
    (hk : ∀ a, Keeps parents cut current (k a) (k' a)) :
    Keeps parents cut current (x >>= k) (y >>= k') := by
  rw [← id_map x] at hx
  exact hx.bind_map hk

/-- What holds of the parts holds of what is put together of them. -/
theorem compositional :
    Compositional fun {α} (x y : EStateM ε σ α) => Keeps parents cut current x y :=
  ⟨.pure, .bind⟩

/-- A guard that is put up in order sees nothing. -/
theorem guarded (alarm : ε) (h : Keeps parents cut current x y) :
    Keeps parents cut current x (guarded parents alarm current y) := by
  intro s hs
  obtain ⟨hsame, hparents⟩ := h s hs
  have hunseen : Proofs.guarded parents alarm current y s = y s := by
    unfold Proofs.guarded
    rw [if_pos hs]
    unfold Yields at hparents
    cases hy : y s with
    | ok a s' =>
        rw [hy] at hparents
        exact if_pos hparents
    | error e s' =>
        rw [hy] at hparents
        exact if_pos hparents
  unfold Yields
  rw [hunseen]
  exact ⟨hsame, hparents⟩

/-- Without an error to give up with, the two computations are the same. -/
theorem eq_of_none (h : Keeps parents none current x y) {s : σ}
    (hs : InOrder (parents s) current) : y s = x s := by
  rcases (h s hs).1 with hsame | ⟨e, he, -⟩
  · exact hsame
  · cases he

end Keeps

end Proofs

end PlcLang
