import Mathlib.Data.List.Forall2

/-!
# `PlcLang.Proofs.Computations`: what is said of computations

The checker and the interpreter are computations that change a state and may
fail. Four things are said of such computations, each built up along the way a
computation is put together:

* `Yields x s Q E`: begun in `s`, the computation ends with an answer and a state
  that satisfy `Q`, or fails with an error and a state that satisfy `E`.
* `Decides x s R`: begun in `s`, the computation leaves the state as it is, and the
  answers that it can give are those that satisfy `R`.
* `Erases view f x y`: the computation `y` does what `x` does, as far as `view`
  shows it. This is how a computation that also keeps a record of itself is
  compared with one that does not.
* `Simulates S E f x y`: begun in states that `S` relates, the computation `y` ends
  as `x` does, with answers changed by `f` or errors that `E` relates, and in states
  that are related again.

What is said of two computations as soon as it is said of the parts that they are put
together from is `Compositional`, and `Translating` if their answers are not the same but
correspond. One induction over programs, made for any such relation, serves them all.
-/

set_option autoImplicit false

namespace PlcLang.Proofs

variable {ε σ α β ε' σ' α' β' : Type}

/-! ### Outcomes -/

/-- Begun in `s`, the computation ends with `Q` or fails with `E`. Either may speak
of the state that is left. -/
def Yields (x : EStateM ε σ α) (s : σ) (Q : α → σ → Prop) (E : ε → σ → Prop) : Prop :=
  match x s with
  | .ok a s' => Q a s'
  | .error e s' => E e s'

namespace Yields

variable {x : EStateM ε σ α} {s : σ} {Q : α → σ → Prop} {E : ε → σ → Prop}

/-- An answer that is there already leaves the state as it is. -/
theorem pure {a : α} (h : Q a s) : Yields (pure a) s Q E := h

/-- So does an error that is raised at once. -/
theorem throw {e : ε} (h : E e s) : Yields (throw e) s Q E := h

/-- What comes next begins where the first part ends, and may rely on what is known
of it. An error of the first part is the error of the whole. -/
theorem bind {k : α → EStateM ε σ β} {R : β → σ → Prop} (h : Yields x s Q E)
    (hk : ∀ a s', Q a s' → Yields (k a) s' R E) : Yields (x >>= k) s R E := by
  unfold Yields at h ⊢
  show match EStateM.bind x k s with
    | .ok a s' => R a s'
    | .error e s' => E e s'
  unfold EStateM.bind
  cases hx : x s with
  | ok a s' =>
      rw [hx] at h
      exact hk a s' h
  | error e s' =>
      rw [hx] at h
      exact h

/-- What is made of the answer leaves the state as it is. -/
theorem map {f : α → β} {R : β → σ → Prop} (h : Yields x s Q E)
    (hf : ∀ a s', Q a s' → R (f a) s') : Yields (f <$> x) s R E := by
  have hmap : f <$> x = x >>= fun a => Pure.pure (f a) := (bind_pure_comp f x).symm
  rw [hmap]
  exact h.bind hf

/-- Reading the state and going on with it. The rest begins in the state that was
read. -/
theorem get_bind {k : σ → EStateM ε σ β} {R : β → σ → Prop} (h : Yields (k s) s R E) :
    Yields (get >>= k) s R E := h

/-- Less may be asked of the answer and of the error. -/
theorem imp {R : α → σ → Prop} {F : ε → σ → Prop} (h : Yields x s Q E)
    (hR : ∀ a s', Q a s' → R a s') (hF : ∀ e s', E e s' → F e s') : Yields x s R F := by
  unfold Yields at h ⊢
  cases hx : x s with
  | ok a s' =>
      rw [hx] at h
      exact hR a s' h
  | error e s' =>
      rw [hx] at h
      exact hF e s' h

/-- Less may be asked of the answer, while the error stays what it is. -/
theorem mono {R : α → σ → Prop} (h : Yields x s Q E) (hR : ∀ a s', Q a s' → R a s') :
    Yields x s R E :=
  h.imp hR fun _ _ he => he

/-- A computation ends somehow: nothing is asked of it. -/
theorem somehow : Yields x s (fun _ _ => True) fun _ _ => True := by
  unfold Yields
  cases x s <;> exact trivial

/-- What is known of an answer in two ways is known together. Of the errors only
what the first way says is kept. -/
theorem and {R : α → σ → Prop} {F : ε → σ → Prop} (h : Yields x s Q E) (h' : Yields x s R F) :
    Yields x s (fun a s' => Q a s' ∧ R a s') E := by
  unfold Yields at h h' ⊢
  cases hx : x s with
  | ok a s' =>
      rw [hx] at h h'
      exact ⟨h, h'⟩
  | error e s' =>
      rw [hx] at h
      exact h

/-- The answer that is given is as it was said to be, and so is the state that is
left. -/
theorem of_ok {a : α} {s' : σ} (h : Yields x s Q E) (hx : x s = .ok a s') : Q a s' := by
  unfold Yields at h
  rwa [hx] at h

/-- So is the error, with the state that it leaves. -/
theorem of_error {e : ε} {s' : σ} (h : Yields x s Q E) (hx : x s = .error e s') : E e s' := by
  unfold Yields at h
  rwa [hx] at h

end Yields

/-- What comes next is done where the first part succeeds, with its answer and in
its state. -/
theorem bind_eq_of_ok {x : EStateM ε σ α} {s s' : σ} {a : α} (h : x s = .ok a s')
    (k : α → EStateM ε σ β) : (x >>= k) s = k a s' := by
  show EStateM.bind x k s = k a s'
  unfold EStateM.bind
  rw [h]

/-- Nothing comes next where the first part fails. -/
theorem bind_eq_of_error {x : EStateM ε σ α} {s s' : σ} {e : ε} (h : x s = .error e s')
    (k : α → EStateM ε σ β) : (x >>= k) s = .error e s' := by
  show EStateM.bind x k s = .error e s'
  unfold EStateM.bind
  rw [h]

/-- What comes next gets the state, and begins in it. -/
theorem get_bind_eq (k : σ → EStateM ε σ β) (s : σ) : (get >>= k) s = k s s := rfl

/-- An answer in another form is given where an answer is given. Errors and states
are the same. -/
theorem map_apply (f : α → β) (x : EStateM ε σ α) (s : σ) :
    (f <$> x) s = match x s with
      | .ok a s' => .ok (f a) s'
      | .error e s' => .error e s' := by
  show EStateM.map f x s = _
  unfold EStateM.map
  cases x s <;> rfl

/-- A computation that succeeds has succeeded in both its parts. This is how a run
that has come to an end is taken apart. -/
theorem bind_eq_ok_iff {x : EStateM ε σ α} {k : α → EStateM ε σ β} {s s' : σ} {b : β} :
    (x >>= k) s = .ok b s' ↔ ∃ a middle, x s = .ok a middle ∧ k a middle = .ok b s' := by
  show EStateM.bind x k s = .ok b s' ↔ _
  unfold EStateM.bind
  cases hx : x s with
  | ok a middle =>
      constructor
      · intro h
        exact ⟨a, middle, rfl, h⟩
      · rintro ⟨_, _, h, hk⟩
        cases h
        exact hk
  | error e middle => simp

/-- A computation that fails has failed in its first part or in its second. -/
theorem bind_eq_error_iff {x : EStateM ε σ α} {k : α → EStateM ε σ β} {s s' : σ} {e : ε} :
    (x >>= k) s = .error e s'
      ↔ x s = .error e s' ∨ ∃ a middle, x s = .ok a middle ∧ k a middle = .error e s' := by
  show EStateM.bind x k s = .error e s' ↔ _
  unfold EStateM.bind
  cases hx : x s with
  | ok a middle =>
      constructor
      · intro h
        exact .inr ⟨a, middle, rfl, h⟩
      · rintro (h | ⟨_, _, h, hk⟩)
        · cases h
        · cases h
          exact hk
  | error e middle => simp

/-- Of a list that fails, there is a first member that does. Those before it have
succeeded, in the states that led to it. -/
theorem exists_of_mapM_eq_error {list : List α} {k : α → EStateM ε σ β} {s s' : σ} {e : ε}
    (h : list.mapM k s = .error e s') :
    ∃ before a rest done middle, list = before ++ a :: rest
      ∧ before.mapM k s = .ok done middle ∧ k a middle = .error e s' := by
  induction list generalizing s with
  | nil => cases h
  | cons a list ih =>
      rw [List.mapM_cons] at h
      rcases bind_eq_error_iff.mp h with hfirst | ⟨b, next, hfirst, hmore⟩
      · exact ⟨[], a, list, [], s, rfl, rfl, hfirst⟩
      rcases bind_eq_error_iff.mp hmore with hrest | ⟨_, _, _, hend⟩
      · obtain ⟨before, c, rest, done, middle, rfl, hbefore, hlast⟩ := ih hrest
        refine ⟨a :: before, c, rest, b :: done, middle, rfl, ?_, hlast⟩
        rw [List.mapM_cons]
        exact bind_eq_ok_iff.mpr ⟨b, next, hfirst, bind_eq_ok_iff.mpr ⟨done, middle, hbefore, rfl⟩⟩
      · cases hend

/-! ### Decisions -/

/-- Begun in `s`, the computation answers with `a` if and only if `R a`, and the state
is the same afterwards. -/
def Decides (x : EStateM ε σ α) (s : σ) (R : α → Prop) : Prop :=
  ∀ a s', x s = .ok a s' ↔ s' = s ∧ R a

namespace Decides

variable {x : EStateM ε σ α} {s : σ} {P Q : α → Prop}

/-- An answer that is there already is the only one. -/
theorem pure (a : α) : Decides (pure a : EStateM ε σ α) s (· = a) := by
  intro b s'
  show EStateM.Result.ok a s = .ok b s' ↔ _
  rw [EStateM.Result.ok.injEq, and_comm, eq_comm, @eq_comm _ a]

/-- A failure decides against every answer. -/
theorem throw {e : ε} : Decides (throw e : EStateM ε σ α) s fun _ => False := by
  intro a s'
  show EStateM.Result.error e s = .ok a s' ↔ _
  simp

/-- What is decided may be said in another way. -/
theorem congr (h : Decides x s P) (hPQ : ∀ a, P a ↔ Q a) : Decides x s Q := by
  intro a s'
  rw [h, hPQ]

/-- The second part decides in the state of the first, which is the state of the
beginning. So an answer is one that the second gives to some answer of the first. -/
theorem bind {k : α → EStateM ε σ β} {R : α → β → Prop} (h : Decides x s P)
    (hk : ∀ a, P a → Decides (k a) s (R a)) :
    Decides (x >>= k) s fun b => ∃ a, P a ∧ R a b := by
  intro b s'
  rw [bind_eq_ok_iff]
  constructor
  · rintro ⟨a, middle, hx, hrest⟩
    obtain ⟨rfl, ha⟩ := (h a middle).mp hx
    obtain ⟨hstate, hb⟩ := (hk a ha b s').mp hrest
    exact ⟨hstate, a, ha, hb⟩
  · rintro ⟨rfl, a, ha, hb⟩
    exact ⟨a, s', (h a s').mpr ⟨rfl, ha⟩, (hk a ha b s').mpr ⟨rfl, hb⟩⟩

/-- Reading the state and going on with it decides nothing by itself. -/
theorem get_bind {k : σ → EStateM ε σ β} {R : β → Prop} (h : Decides (k s) s R) :
    Decides (get >>= k) s R := h

/-- A choice decides what the part that is chosen decides. -/
theorem ite {c : Prop} [Decidable c] {y : EStateM ε σ α} (hx : c → Decides x s P)
    (hy : ¬ c → Decides y s Q) :
    Decides (if c then x else y) s fun a => c ∧ P a ∨ ¬ c ∧ Q a := by
  by_cases hc : c
  · rw [if_pos hc]
    exact (hx hc).congr fun a => by simp [hc]
  · rw [if_neg hc]
    exact (hy hc).congr fun a => by simp [hc]

/-- Deciding one after the other for each element of a list: the answers are those
of the elements, in their order. -/
theorem mapM {list : List α} {k : α → EStateM ε σ β} {R : α → β → Prop}
    (hk : ∀ a ∈ list, Decides (k a) s (R a)) :
    Decides (list.mapM k) s (List.Forall₂ R list) := by
  induction list with
  | nil =>
      rw [List.mapM_nil]
      refine (Decides.pure _).congr fun bs => ⟨?_, ?_⟩
      · rintro rfl
        exact .nil
      · rintro ⟨⟩
        rfl
  | cons a rest ih =>
      obtain ⟨ha, hrest⟩ := List.forall_mem_cons.mp hk
      rw [List.mapM_cons]
      refine (ha.bind fun _ _ => (ih hrest).bind fun _ _ => .pure _).congr fun bs => ⟨?_, ?_⟩
      · rintro ⟨b, hb, rest', hrest, rfl⟩
        exact .cons hb hrest
      · intro h
        cases h with
        | cons hb hrest => exact ⟨_, hb, _, hrest, rfl⟩

end Decides

/-! ### Relations between computations -/

/-- The relation holds between computations that answer at once and alike, and between
those that are put together, one after the other, from parts that it relates. -/
structure Compositional (R : ∀ {α : Type}, EStateM ε σ α → EStateM ε' σ' α → Prop) : Prop where
  protected pure : ∀ {α : Type} (a : α), R (pure a) (pure a)
  protected bind : ∀ {α β : Type} {x : EStateM ε σ α} {y : EStateM ε' σ' α} {k : α → EStateM ε σ β}
    {k' : α → EStateM ε' σ' β}, R x y → (∀ a, R (k a) (k' a)) → R (x >>= k) (y >>= k')

namespace Compositional

variable {R : ∀ {α : Type}, EStateM ε σ α → EStateM ε' σ' α → Prop}

/-- What is made of related answers alike is related. -/
theorem map (h : Compositional R) {x : EStateM ε σ α} {y : EStateM ε' σ' α} (f : α → β)
    (hx : R x y) : R (f <$> x) (f <$> y) := by
  have hleft : f <$> x = x >>= fun a => pure (f a) := (bind_pure_comp f x).symm
  have hright : f <$> y = y >>= fun a => pure (f a) := (bind_pure_comp f y).symm
  rw [hleft, hright]
  exact h.bind hx fun a => h.pure (f a)

/-- One computation after the other for each element of a list. The induction is on
the list, and each step is a `bind`. -/
theorem mapM (h : Compositional R) {list : List α} {k : α → EStateM ε σ β}
    {k' : α → EStateM ε' σ' β} (hk : ∀ a ∈ list, R (k a) (k' a)) :
    R (list.mapM k) (list.mapM k') := by
  induction list with
  | nil => exact h.pure []
  | cons a rest ih =>
      have hrest := ih fun b hb => hk b (List.mem_cons_of_mem a hb)
      rw [List.mapM_cons, List.mapM_cons]
      exact h.bind (hk a List.mem_cons_self) fun b => h.bind hrest fun bs => h.pure (b :: bs)

/-- One computation after the other for each element of a list, where what comes next may
know that there are as many answers as elements. -/
theorem mapM_bind (h : Compositional R) {γ γ' : Type} {f : γ → γ'} {list : List γ}
    {k : γ → EStateM ε σ α} {k' : γ' → EStateM ε' σ' α} {next : List α → EStateM ε σ β}
    {next' : List α → EStateM ε' σ' β} (hk : ∀ a ∈ list, R (k a) (k' (f a)))
    (hnext : ∀ answers, answers.length = list.length → R (next answers) (next' answers)) :
    R (list.mapM k >>= next) ((list.map f).mapM k' >>= next') := by
  induction list generalizing next next' with
  | nil =>
      rw [List.map_nil, List.mapM_nil, List.mapM_nil, pure_bind, pure_bind]
      exact hnext [] rfl
  | cons a rest ih =>
      rw [List.map_cons, List.mapM_cons, List.mapM_cons, bind_assoc, bind_assoc]
      refine h.bind (hk a List.mem_cons_self) fun b => ?_
      simp only [bind_assoc, pure_bind]
      refine ih (fun c hc => hk c (List.mem_cons_of_mem a hc)) fun answers hlength => ?_
      exact hnext (b :: answers) (by rw [List.length_cons, hlength, List.length_cons])

/-- One computation after the other for each element of a list, without answers. -/
theorem forM (h : Compositional R) {list : List α} {k : α → EStateM ε σ PUnit}
    {k' : α → EStateM ε' σ' PUnit} (hk : ∀ a ∈ list, R (k a) (k' a)) :
    R (list.forM k) (list.forM k') := by
  induction list with
  | nil => exact h.pure PUnit.unit
  | cons a rest ih =>
      exact h.bind (hk a List.mem_cons_self) fun _ => ih fun b hb =>
        hk b (List.mem_cons_of_mem a hb)

end Compositional

/-- The relation says of two computations how the answer of the first becomes that of the second.
It holds between computations that answer at once, if the one answer becomes the other, and
between those that are put together, one after the other, from parts that it relates. -/
structure Translating (R : ∀ {α α' : Type}, (α → α') → EStateM ε σ α → EStateM ε' σ' α' → Prop) :
    Prop where
  protected pure : ∀ {α α' : Type} {f : α → α'} {a : α} {a' : α'}, f a = a' →
    R f (pure a) (pure a')
  protected bind : ∀ {α α' β β' : Type} {f : α → α'} {g : β → β'} {x : EStateM ε σ α}
    {y : EStateM ε' σ' α'} {k : α → EStateM ε σ β} {k' : α' → EStateM ε' σ' β'}, R f x y →
      (∀ a, R g (k a) (k' (f a))) → R g (x >>= k) (y >>= k')

namespace Translating

variable {R : ∀ {α α' : Type}, (α → α') → EStateM ε σ α → EStateM ε' σ' α' → Prop}

/-- Where the answers are the same, it is a relation between computations alone. -/
theorem compositional (h : Translating R) : Compositional fun x y => R id x y :=
  ⟨fun _ => h.pure rfl, h.bind⟩

/-- One computation after the other for each element of a list, where what comes next may know
that there are as many answers as elements. -/
theorem mapM_bind (h : Translating R) {γ γ' : Type} {r : γ → γ'} {f : α → α'} {g : β → β'}
    {list : List γ} {k : γ → EStateM ε σ α} {k' : γ' → EStateM ε' σ' α'}
    {next : List α → EStateM ε σ β} {next' : List α' → EStateM ε' σ' β'}
    (hk : ∀ a ∈ list, R f (k a) (k' (r a)))
    (hnext : ∀ answers, answers.length = list.length →
      R g (next answers) (next' (answers.map f))) :
    R g (list.mapM k >>= next) ((list.map r).mapM k' >>= next') := by
  induction list generalizing next next' with
  | nil =>
      rw [List.map_nil, List.mapM_nil, List.mapM_nil, pure_bind, pure_bind]
      exact hnext [] rfl
  | cons a rest ih =>
      rw [List.map_cons, List.mapM_cons, List.mapM_cons, bind_assoc, bind_assoc]
      refine h.bind (hk a List.mem_cons_self) fun b => ?_
      simp only [bind_assoc, pure_bind]
      refine ih (fun c hc => hk c (List.mem_cons_of_mem a hc)) fun answers hlength => ?_
      exact hnext (b :: answers) (by rw [List.length_cons, hlength, List.length_cons])

/-- One computation after the other for each element of a list. The answers are
translated one by one. -/
theorem mapM (h : Translating R) {γ γ' : Type} {r : γ → γ'} {f : α → α'} {list : List γ}
    {k : γ → EStateM ε σ α} {k' : γ' → EStateM ε' σ' α'}
    (hk : ∀ a ∈ list, R f (k a) (k' (r a))) :
    R (List.map f) (list.mapM k) ((list.map r).mapM k') := by
  have hbind := h.mapM_bind (g := List.map f) hk fun answers _ => h.pure (rfl : answers.map f = _)
  rwa [bind_pure, bind_pure] at hbind

end Translating

/-! ### Erasure -/

/-- What is seen of the errors and the states of a computation. What is not seen is
the record that it keeps of itself. -/
structure View (ε σ ε' σ' : Type) where
  error : ε → ε'
  state : σ → σ'

/-- Everything is seen as it is, so that nothing is erased. -/
def View.same : View ε σ ε σ := ⟨id, id⟩

/-- What is seen of an outcome: the answer by a translation of its own, the rest by
the view. -/
def View.result (view : View ε σ ε' σ') (f : α → α') :
    EStateM.Result ε σ α → EStateM.Result ε' σ' α'
  | .ok a s => .ok (f a) (view.state s)
  | .error e s => .error (view.error e) (view.state s)

/-- Seen through `view`, the computation `x` is the computation `y`: from the same
state, as far as it is seen, they come to the same. -/
def Erases (view : View ε σ ε' σ') (f : α → α') (x : EStateM ε σ α) (y : EStateM ε' σ' α') :
    Prop :=
  ∀ s, y (view.state s) = view.result f (x s)

namespace Erases

variable {view : View ε σ ε' σ'} {f : α → α'} {g : β → β'} {x : EStateM ε σ α}
  {y : EStateM ε' σ' α'}

/-- An answer is seen in its translation. -/
theorem pure (a : α) : Erases view f (pure a) (pure (f a)) := fun _ => rfl

/-- An answer is seen as it is to be. -/
theorem pure_of_eq {a : α} {a' : α'} (h : f a = a') :
    Erases view f (Pure.pure a) (Pure.pure a') := by
  subst h
  exact Erases.pure a

/-- A computation is what it is, if everything is seen. -/
theorem refl (x : EStateM ε σ α) : Erases View.same id x x := by
  intro s
  show x s = View.same.result id (x s)
  cases x s <;> rfl

/-- An error is seen as the view shows it. -/
theorem throw (e : ε) : Erases view f (throw e) (throw (view.error e)) := fun _ => rfl

/-- Parts that are seen as others are put together to what is seen as the others put
together. -/
theorem bind {k : α → EStateM ε σ β} {k' : α' → EStateM ε' σ' β'} (h : Erases view f x y)
    (hk : ∀ a, Erases view g (k a) (k' (f a))) : Erases view g (x >>= k) (y >>= k') := by
  intro s
  show EStateM.bind y k' (view.state s) = view.result g (EStateM.bind x k s)
  unfold EStateM.bind
  rw [h s]
  cases x s with
  | ok a s' => exact hk a s'
  | error e s' => rfl

/-- Reading the state and going on with it. What `y` reads is what is seen of the
state that `x` reads. -/
theorem get_bind {k : σ → EStateM ε σ β} {k' : σ' → EStateM ε' σ' β'}
    (hk : ∀ s, Erases view g (k s) (k' (view.state s))) :
    Erases view g (get >>= k) (get >>= k') := fun s => hk s s

/-- A change of the state that is seen as another change. -/
theorem modify {h : σ → σ} {h' : σ' → σ'} (hh : ∀ s, h' (view.state s) = view.state (h s)) :
    Erases view id (modify h) (modify h' : EStateM ε' σ' Unit) := by
  intro s
  show EStateM.Result.ok () (h' (view.state s)) = .ok () (view.state (h s))
  rw [hh]

/-- A choice that is made alike, between what is seen as it is to be. -/
theorem ite {c : Prop} [Decidable c] {z : EStateM ε σ α} {z' : EStateM ε' σ' α'}
    (hx : Erases view f x y) (hz : Erases view f z z') :
    Erases view f (if c then x else z) (if c then y else z') := by
  by_cases h : c
  · rwa [if_pos h, if_pos h]
  · rwa [if_neg h, if_neg h]

/-- To be seen as another computation is passed on from the parts to the whole. -/
theorem translating :
    Translating fun {_ _} f (x : EStateM ε σ _) (y : EStateM ε' σ' _) => Erases view f x y :=
  ⟨.pure_of_eq, .bind⟩

/-- So it is where answers are seen as they are. -/
theorem compositional :
    Compositional fun {α} (x : EStateM ε σ α) (y : EStateM ε' σ' α) => Erases view id x y :=
  translating.compositional

end Erases

/-! ### Simulation -/

/-- Begun in related states, `y` ends as `x` does and in related states, with the same
answer up to `f` or a related error. -/
def Simulates (S : σ → σ' → Prop) (E : ε → ε' → Prop) (f : α → α') (x : EStateM ε σ α)
    (y : EStateM ε' σ' α') : Prop :=
  ∀ s s', S s s' →
    match x s with
    | .ok a t => ∃ t', y s' = .ok (f a) t' ∧ S t t'
    | .error e t => ∃ e' t', y s' = .error e' t' ∧ E e e' ∧ S t t'

namespace Simulates

variable {S : σ → σ' → Prop} {E : ε → ε' → Prop} {f : α → α'} {h : β → β'} {x : EStateM ε σ α}
  {y : EStateM ε' σ' α'}

/-- An answer leaves related states as they are. -/
theorem pure (a : α) : Simulates S E f (pure a) (pure (f a)) :=
  fun _ s' hs => ⟨s', rfl, hs⟩

/-- An answer is the changed one. -/
theorem pure_of_eq {a : α} {a' : α'} (ha : f a = a') :
    Simulates S E f (Pure.pure a) (Pure.pure a') := by
  subst ha
  exact .pure a

/-- Related errors leave related states as they are. -/
theorem throw {e : ε} {e' : ε'} (he : E e e') : Simulates S E f (throw e) (throw e') :=
  fun _ s' hs => ⟨e', s', rfl, he, hs⟩

/-- Parts that simulate each other can be put together: the first leaves related
states for the second. -/
theorem bind {k : α → EStateM ε σ β} {k' : α' → EStateM ε' σ' β'} (hx : Simulates S E f x y)
    (hk : ∀ a, Simulates S E h (k a) (k' (f a))) : Simulates S E h (x >>= k) (y >>= k') := by
  intro s s' hs
  have hx := hx s s' hs
  show match EStateM.bind x k s with
    | .ok b t => ∃ t', EStateM.bind y k' s' = .ok (h b) t' ∧ S t t'
    | .error e t => ∃ e' t', EStateM.bind y k' s' = .error e' t' ∧ E e e' ∧ S t t'
  unfold EStateM.bind
  cases hresult : x s with
  | ok a t =>
      rw [hresult] at hx
      obtain ⟨t', hy, ht⟩ := hx
      rw [hy]
      exact hk a t t' ht
  | error e t =>
      rw [hresult] at hx
      obtain ⟨e', t', hy, he, ht⟩ := hx
      rw [hy]
      exact ⟨e', t', rfl, he, ht⟩

/-- Reading the state and going on with it. The rest may rely on the states that
were read being related. -/
theorem get_bind {k : σ → EStateM ε σ β} {k' : σ' → EStateM ε' σ' β'}
    (hk : ∀ s s', S s s' → Simulates S E h (k s) (k' s')) :
    Simulates S E h (get >>= k) (get >>= k') :=
  fun s s' hs => hk s s' hs s s' hs

/-- Changes that keep states related. -/
theorem modify {k : σ → σ} {k' : σ' → σ'} (hk : ∀ s s', S s s' → S (k s) (k' s')) :
    Simulates S E id (modify k) (modify k' : EStateM ε' σ' Unit) :=
  fun s s' hs => ⟨k' s', rfl, hk s s' hs⟩

/-- To simulate is passed on from the parts to the whole. -/
theorem translating :
    Translating fun {_ _} f (x : EStateM ε σ _) (y : EStateM ε' σ' _) => Simulates S E f x y :=
  ⟨.pure_of_eq, .bind⟩

/-- So it is where the answers are the same. -/
theorem compositional :
    Compositional fun {α} (x : EStateM ε σ α) (y : EStateM ε' σ' α) => Simulates S E id x y :=
  translating.compositional

/-- A choice that is made alike, by conditions that need not be the same but come to
the same. -/
theorem ite {c c' : Prop} [Decidable c] [Decidable c'] (hc : c ↔ c') {z : EStateM ε σ α}
    {z' : EStateM ε' σ' α'} (hx : Simulates S E f x y) (hz : Simulates S E f z z') :
    Simulates S E f (if c then x else z) (if c' then y else z') := by
  by_cases h : c
  · rw [if_pos h, if_pos (hc.mp h)]
    exact hx
  · rw [if_neg h, if_neg fun h' => h (hc.mpr h')]
    exact hz

end Simulates

/-! ### Outcomes -/

/-- Two outcomes that are both answers or both errors, and correspond. -/
inductive EndsAlike (E : ε → ε' → Prop) (A : α → α' → Prop) :
    Except ε α → Except ε' α' → Prop where
  | ok {a : α} {a' : α'} (h : A a a') : EndsAlike E A (.ok a) (.ok a')
  | error {e : ε} {e' : ε'} (h : E e e') : EndsAlike E A (.error e) (.error e')

/-- Less may be asked of how they correspond. -/
theorem EndsAlike.imp {E F : ε → ε' → Prop} {A B : α → α' → Prop} {x : Except ε α}
    {y : Except ε' α'} (h : EndsAlike E A x y) (herror : ∀ e e', E e e' → F e e')
    (hok : ∀ a a', A a a' → B a a') : EndsAlike F B x y := by
  cases h with
  | ok h => exact .ok (hok _ _ h)
  | error h => exact .error (herror _ _ h)

end PlcLang.Proofs
