import Mathlib.Data.List.Forall2
import PlcLang.Scope

/-!
# `PlcLang.Proofs.Scoping.Chains`: what is seen from a scope

A look-up goes from a scope to its parent, and so on up to the program's
scope. The bindings that it meets on the way, nearest first, are the chain of
the scope: a list of frames, without indices and without the rest of the arena.

* Look-ups are searches through the chain: `boundVariable?_eq` and
  `boundFunction?_eq`.
* Where parents stand before their children (`Ordered`), which no use of an
  arena breaks, a scope's chain is its own frame on top of its parent's chain:
  `chain_push`, `chain_modify`.
* Two arenas whose scopes correspond one by one (`Corresponds`) have
  corresponding chains, and a name is owned by the same scope in both:
  `Corresponds.chain`, `Corresponds.ownerOfVariable?`.
* Where all that changes is that one scope binds more names (`Grown`), every other scope of
  the arena binds what it did, and parents still stand before their children.
-/

set_option autoImplicit false

namespace PlcLang

variable {V F V' F' β : Type}

/-- What one scope binds, wherever in an arena it stands. -/
structure Frame (V F : Type) where
  variableTable : Bindings String V
  functionTable : Bindings FunctionKey F

namespace Frame

/-- The frame of a fresh scope. -/
def empty : Frame V F := ⟨.empty, .empty⟩

/-- The frame with a variable bound, whatever it was bound to before. -/
def setVariable (frame : Frame V F) (name : String) (value : V) : Frame V F :=
  { frame with variableTable := frame.variableTable.set name value }

/-- The frame with a function bound, whatever it was bound to before. -/
def setFunction (frame : Frame V F) (key : FunctionKey) (value : F) : Frame V F :=
  { frame with functionTable := frame.functionTable.set key value }

end Frame

/-- What a scope binds itself. -/
def Scope.frame (scope : Scope V F) : Frame V F :=
  ⟨scope.variableTable, scope.functionTable⟩

namespace Arena

/-- The frames of at most `fuel` scopes: a scope, its parent, and so on. -/
def chainFrom (arena : Arena V F) : Nat → ScopeId → List (Frame V F)
  | 0, _ => []
  | fuel + 1, index =>
    match arena.scope? index with
    | none => []
    | some scope =>
      scope.frame ::
        match scope.parent with
        | none => []
        | some parent => arena.chainFrom fuel parent

/-- What is seen from a scope, the nearest frame first. There are no more frames
than scopes. -/
def chain (arena : Arena V F) (index : Nat) : List (Frame V F) :=
  arena.chainFrom arena.size index

/-- Every parent stands before its children. -/
def Ordered (arena : Arena V F) : Prop :=
  ∀ (index : Nat) (scope : Scope V F), arena.scope? index = some scope →
    ∀ parent : Nat, scope.parent = some parent → parent < index

end Arena

/-- The nearest of the frames that binds a variable, counted from zero. -/
def level? (name : String) (chain : List (Frame V F)) : Option Nat :=
  chain.findIdx? (·.variableTable.contains name)

/-- What the nearest frame binds a variable to. -/
def nearestVariable? (name : String) (chain : List (Frame V F)) : Option V :=
  chain.findSome? (·.variableTable.get? name)

/-- What the nearest frame binds a function to. -/
def nearestFunction? (key : FunctionKey) (chain : List (Frame V F)) : Option F :=
  chain.findSome? (·.functionTable.get? key)

/-! ### Look-ups -/

/-- A look-up that only asks for frames searches the chain. -/
theorem findUpFrom_eq (arena : Arena V F) (find? : Frame V F → Option β) (fuel : Nat)
    (index : Nat) :
    (arena.findUpFrom (fun _ scope => find? scope.frame) fuel index).toOption.join
      = (arena.chainFrom fuel index).findSome? find? := by
  induction fuel generalizing index with
  | zero => rfl
  | succ fuel ih =>
      unfold Arena.findUpFrom Arena.chainFrom
      cases hscope : arena.scope? index with
      | none => rfl
      | some scope =>
          dsimp only
          rw [List.findSome?_cons]
          cases hfind : find? scope.frame with
          | some found => rfl
          | none =>
              dsimp only
              cases hparent : scope.parent with
              | none => rfl
              | some parent => exact ih parent

/-- A variable is bound to what the nearest frame binds it to. -/
theorem boundVariable?_eq (arena : Arena V F) (index : Nat) (name : String) :
    arena.boundVariable? index name = nearestVariable? name (arena.chain index) :=
  findUpFrom_eq arena (·.variableTable.get? name) arena.size index

/-- A function is bound to what the nearest frame binds it to. -/
theorem boundFunction?_eq (arena : Arena V F) (index : Nat) (key : FunctionKey) :
    arena.boundFunction? index key = nearestFunction? key (arena.chain index) :=
  findUpFrom_eq arena (·.functionTable.get? key) arena.size index

/-- The scope that owns a variable is the one that answers for it. -/
theorem ownerOfVariable?_spec (arena : Arena V F) (index : Nat) (name : String) :
    match arena.ownerOfVariable? index name with
    | some owner =>
      ∃ scope value, arena.scope? owner = some scope
        ∧ scope.variableTable.get? name = some value
        ∧ nearestVariable? name (arena.chain index) = some value
    | none => nearestVariable? name (arena.chain index) = none := by
  rw [nearestVariable?, Arena.chain, Arena.ownerOfVariable?, Arena.findUp]
  -- Both searches visit the same scopes, so one induction on the fuel serves both.
  generalize arena.size = fuel
  induction fuel generalizing index with
  | zero => rfl
  | succ fuel ih =>
      unfold Arena.findUpFrom Arena.chainFrom
      cases hscope : arena.scope? index with
      | none => rfl
      | some scope =>
          rw [List.findSome?_cons]
          cases hvalue : scope.variableTable.get? name with
          | some value =>
              have hcontains : scope.variableTable.contains name = true := by
                simp [Bindings.contains, hvalue]
              simp only [hcontains, if_true, Except.toOption, Option.join_some]
              exact ⟨scope, value, hscope, hvalue, by simp [Scope.frame, hvalue]⟩
          | none =>
              have hcontains : scope.variableTable.contains name = false := by
                simp [Bindings.contains, hvalue]
              simp only [hcontains, Bool.false_eq_true, if_false, Scope.frame, hvalue]
              cases hparent : scope.parent with
              | none => rfl
              | some parent => exact ih parent

/-- A variable that is found has the level of the frame that answers for it. -/
theorem exists_level?_of_nearestVariable? {name : String} {chain : List (Frame V F)} {value : V}
    (h : nearestVariable? name chain = some value) :
    ∃ level frame, level? name chain = some level ∧ chain[level]? = some frame
      ∧ frame.variableTable.get? name = some value := by
  induction chain with
  | nil => simp [nearestVariable?] at h
  | cons frame rest ih =>
      rw [nearestVariable?, List.findSome?_cons] at h
      cases hvalue : frame.variableTable.get? name with
      | some found =>
          obtain rfl : found = value := by simpa [hvalue] using h
          exact ⟨0, frame, by simp [level?, List.findIdx?_cons, Bindings.contains, hvalue], rfl,
            hvalue⟩
      | none =>
          rw [hvalue] at h
          -- The frame does not bind the name, so all that is found beyond it is one
          -- frame further away.
          obtain ⟨level, owner, hlevel, howner, hget⟩ := ih h
          refine ⟨level + 1, owner, ?_, howner, hget⟩
          rw [level?] at hlevel
          simp [level?, List.findIdx?_cons, Bindings.contains, hvalue] at hlevel ⊢
          simpa [Bindings.contains] using hlevel

/-! ### Chains of one arena -/

namespace Arena

variable {arena arena' : Arena V F} {index parent : Nat}

/-- A scope that is there has an index below the size. -/
theorem scope?_lt {scope : Scope V F} (h : arena.scope? index = some scope) :
    index < arena.size := by
  rw [scope?] at h
  exact (List.getElem?_eq_some_iff.mp h).1

/-- The scope that is pushed is empty, below its parent. -/
theorem scope?_push_self (arena : Arena V F) (parent : Nat) :
    (arena.push parent).scope? arena.size = some ⟨some parent, .empty, .empty⟩ := by
  rw [push, scope?, size, List.getElem?_append_right (Nat.le_refl _), Nat.sub_self]
  rfl

/-- The scopes before it are as they were. -/
theorem scope?_push_of_lt (h : index < arena.size) :
    (arena.push parent).scope? index = arena.scope? index := by
  rw [push, scope?, scope?, List.getElem?_append_left h]

/-- There is one scope more. -/
@[simp] theorem size_push (arena : Arena V F) (parent : Nat) :
    (arena.push parent).size = arena.size + 1 := by
  simp [push, size]

/-- A change of a scope adds none. -/
@[simp] theorem size_modify (arena : Arena V F) (index : Nat) (f : Scope V F → Scope V F) :
    (arena.modify index f).size = arena.size := by
  simp [modify, size]

/-- The scope that is changed is changed. -/
theorem scope?_modify_self {f : Scope V F → Scope V F} :
    (arena.modify index f).scope? index = (arena.scope? index).map f := by
  simp [modify, scope?]

/-- Any other scope is as it was. -/
theorem scope?_modify_of_ne {other : Nat} {f : Scope V F → Scope V F} (h : index ≠ other) :
    (arena.modify index f).scope? other = arena.scope? other := by
  simp [modify, scope?, List.getElem?_modify_ne f _ h]

/-- Pushing below a live scope keeps parents before their children. -/
theorem Ordered.push (h : arena.Ordered) (hparent : parent < arena.size) :
    (arena.push parent).Ordered := by
  intro i scope hscope p hp
  have hi : i < arena.size + 1 := by
    have := scope?_lt hscope
    rwa [size_push] at this
  by_cases heq : i = arena.size
  · subst heq
    rw [scope?_push_self, Option.some.injEq] at hscope
    subst hscope
    obtain rfl : parent = p := by simpa using hp
    exact hparent
  · have hlt : i < arena.size := by omega
    rw [scope?_push_of_lt hlt] at hscope
    exact h i scope hscope p hp

/-- Changing what a scope binds keeps parents before their children. -/
theorem Ordered.modify (h : arena.Ordered) {f : Scope V F → Scope V F}
    (hf : ∀ scope, (f scope).parent = scope.parent) : (arena.modify index f).Ordered := by
  intro i scope hscope p hp
  by_cases heq : index = i
  · subst heq
    rw [scope?_modify_self] at hscope
    obtain ⟨before, hbefore, rfl⟩ := Option.map_eq_some_iff.mp hscope
    rw [hf] at hp
    exact h index before hbefore p hp
  · rw [scope?_modify_of_ne heq] at hscope
    exact h i scope hscope p hp

/-- Fuel beyond the index of a scope is never used up. -/
theorem chainFrom_eq (h : arena.Ordered) {fuel fuel' : Nat} (hfuel : index < fuel)
    (hfuel' : index < fuel') : arena.chainFrom fuel index = arena.chainFrom fuel' index := by
  induction fuel generalizing index fuel' with
  | zero => omega
  | succ fuel ih =>
      obtain ⟨fuel', rfl⟩ : ∃ n, fuel' = n + 1 := ⟨fuel' - 1, by omega⟩
      unfold chainFrom
      cases hscope : arena.scope? index with
      | none => rfl
      | some scope =>
          dsimp only
          cases hparent : scope.parent with
          | none => rfl
          | some parent =>
              -- The parent stands before the scope, so the fuel that is left still
              -- exceeds it on both sides.
              have hlt := h index scope hscope parent hparent
              dsimp only
              have hfuels : index ≤ fuel ∧ index ≤ fuel' := by omega
              rw [ih (Nat.lt_of_lt_of_le hlt hfuels.1) (Nat.lt_of_lt_of_le hlt hfuels.2)]

/-- A chain depends only on the scopes up to its own. -/
theorem chainFrom_congr (h : arena.Ordered) {fuel : Nat}
    (heq : ∀ i ≤ index, arena'.scope? i = arena.scope? i) :
    arena'.chainFrom fuel index = arena.chainFrom fuel index := by
  induction fuel generalizing index with
  | zero => rfl
  | succ fuel ih =>
      unfold chainFrom
      rw [heq index (Nat.le_refl index)]
      cases hscope : arena.scope? index with
      | none => rfl
      | some scope =>
          dsimp only
          cases hparent : scope.parent with
          | none => rfl
          | some parent =>
              have hlt := h index scope hscope parent hparent
              dsimp only
              rw [ih fun i hi => heq i (by omega)]

/-- The chain of a scope is its frame and its parent's chain. -/
theorem chain_eq (h : arena.Ordered) {scope : Scope V F}
    (hscope : arena.scope? index = some scope) :
    arena.chain index = scope.frame :: (scope.parent.elim [] arena.chain) := by
  have hlt := scope?_lt hscope
  obtain ⟨fuel, hfuel⟩ : ∃ n, arena.size = n + 1 := ⟨arena.size - 1, by omega⟩
  rw [chain, hfuel, chainFrom, hscope]
  dsimp only
  cases hparent : scope.parent with
  | none => rfl
  | some parent =>
      -- The chain of the parent is made with one step of fuel less than that of
      -- the scope, and either is enough for it.
      have hsmaller := h index scope hscope parent hparent
      dsimp only
      rw [chainFrom_eq h (Nat.lt_of_lt_of_le hsmaller (by omega)) (Nat.lt_trans hsmaller hlt)]
      rfl

/-- Pushing a scope leaves the chains of the others alone. -/
theorem chain_push_of_lt (h : arena.Ordered) (hindex : index < arena.size) :
    (arena.push parent).chain index = arena.chain index := by
  rw [chain, size_push, chain,
    chainFrom_congr h fun i hi => scope?_push_of_lt (by omega : i < arena.size)]
  exact chainFrom_eq h (by omega) hindex

/-- A fresh scope sees an empty frame and what its parent sees. -/
theorem chain_push (h : arena.Ordered) (hparent : parent < arena.size) :
    (arena.push parent).chain arena.size = .empty :: arena.chain parent := by
  rw [chain_eq (h.push hparent) (scope?_push_self arena parent)]
  show Frame.empty :: (arena.push parent).chain parent = _
  rw [chain_push_of_lt h hparent]

/-- Changing what a scope binds leaves the chains below it alone. -/
theorem chain_modify_of_lt (h : arena.Ordered) {f : Scope V F → Scope V F} {other : Nat}
    (hother : other < index) : (arena.modify index f).chain other = arena.chain other := by
  rw [chain, size_modify]
  exact chainFrom_congr h fun i hi => scope?_modify_of_ne (by omega)

/-- Changing what a scope binds changes the first frame of its chain only. -/
theorem chain_modify (h : arena.Ordered) {f : Scope V F → Scope V F}
    (hf : ∀ scope, (f scope).parent = scope.parent) {scope : Scope V F}
    (hscope : arena.scope? index = some scope) :
    (arena.modify index f).chain index = (f scope).frame :: (arena.chain index).tail := by
  have hnew : (arena.modify index f).scope? index = some (f scope) := by
    rw [scope?_modify_self, hscope]
    rfl
  rw [chain_eq (h.modify hf) hnew, chain_eq h hscope, hf, List.tail_cons]
  cases hparent : scope.parent with
  | none => rfl
  | some parent =>
      have hlt := h index scope hscope parent hparent
      show _ :: _ = _ :: _
      exact congrArg _ (chain_modify_of_lt h hlt)

/-- Where there is a chain there is a scope. -/
theorem exists_scope?_of_chain_eq_cons {frame : Frame V F} {rest : List (Frame V F)}
    (h : arena.chain index = frame :: rest) : ∃ scope, arena.scope? index = some scope := by
  cases hscope : arena.scope? index with
  | some scope => exact ⟨scope, rfl⟩
  | none =>
      have hempty : arena.chain index = [] := by
        rw [chain]
        cases arena.size with
        | zero => rfl
        | succ fuel => rw [chainFrom, hscope]
      rw [hempty] at h
      cases h

/-- Binding a variable in a scope puts it into the first frame of the chain. -/
theorem chain_bindVariable (h : arena.Ordered) {frame : Frame V F} {rest : List (Frame V F)}
    (hchain : arena.chain index = frame :: rest) (name : String) (value : V) :
    (arena.bindVariable index name value).chain index
      = frame.setVariable name value :: rest := by
  obtain ⟨scope, hscope⟩ := exists_scope?_of_chain_eq_cons hchain
  have hframe := chain_eq h hscope
  rw [hchain] at hframe
  obtain ⟨rfl, -⟩ := List.cons.inj hframe
  have hparent (s : Scope V F) : (s.setVariable name value).parent = s.parent := rfl
  rw [bindVariable, chain_modify h hparent hscope, hchain]
  rfl

/-- Binding a function in a scope puts it into the first frame of the chain. -/
theorem chain_bindFunction (h : arena.Ordered) {frame : Frame V F} {rest : List (Frame V F)}
    (hchain : arena.chain index = frame :: rest) (key : FunctionKey) (value : F) :
    (arena.bindFunction index key value).chain index
      = frame.setFunction key value :: rest := by
  obtain ⟨scope, hscope⟩ := exists_scope?_of_chain_eq_cons hchain
  have hframe := chain_eq h hscope
  rw [hchain] at hframe
  obtain ⟨rfl, -⟩ := List.cons.inj hframe
  have hparent (s : Scope V F) : (s.setFunction key value).parent = s.parent := rfl
  rw [bindFunction, chain_modify h hparent hscope, hchain]
  rfl

/-- Releasing a scope that was pushed and changed gives back the arena. -/
theorem release_modify_push (arena : Arena V F) (parent : Nat) (f : Scope V F → Scope V F)
    (hsize : arena.size ≠ root) :
    ((arena.push parent).modify arena.size f).release arena.size = .ok arena := by
  rw [release, if_neg hsize, modify, push, size]
  show Except.ok (Arena.mk _) = _
  rw [List.take_modify, List.take_left, List.modify_eq_self (Nat.le_refl _)]

/-! ### Two arenas side by side -/

/-- The scopes of two arenas correspond one by one: their parents are the same,
and their frames are related. -/
structure Corresponds (R : Frame V F → Frame V' F' → Prop) (arena : Arena V F)
    (arena' : Arena V' F') : Prop where
  size_eq : arena.size = arena'.size
  scope : ∀ (index : Nat) (scope : Scope V F) (scope' : Scope V' F'),
    arena.scope? index = some scope → arena'.scope? index = some scope' →
      scope.parent = scope'.parent ∧ R scope.frame scope'.frame

namespace Corresponds

variable {R : Frame V F → Frame V' F' → Prop} {arena : Arena V F} {arena' : Arena V' F'}
  {index parent : Nat}

/-- Less may be asked of the frames. -/
theorem imp {R' : Frame V F → Frame V' F' → Prop} (h : Corresponds R arena arena')
    (hR : ∀ frame frame', R frame frame' → R' frame frame') : Corresponds R' arena arena' :=
  ⟨h.size_eq, fun index scope scope' hscope hscope' =>
    (h.scope index scope scope' hscope hscope').imp_right (hR _ _)⟩

/-- Where one arena has a scope the other has one, too. -/
theorem exists_scope? (h : Corresponds R arena arena') {scope : Scope V F}
    (hscope : arena.scope? index = some scope) : ∃ scope', arena'.scope? index = some scope' := by
  have hlt := scope?_lt hscope
  rw [h.size_eq] at hlt
  exact ⟨_, List.getElem?_eq_getElem hlt⟩

/-- Where one arena has no scope the other has none. -/
theorem scope?_eq_none (h : Corresponds R arena arena') (hscope : arena.scope? index = none) :
    arena'.scope? index = none := by
  have hle : arena.size ≤ index := List.getElem?_eq_none_iff.mp hscope
  rw [h.size_eq] at hle
  exact List.getElem?_eq_none_iff.mpr hle

/-- Arenas go on to correspond when a scope is pushed on both sides. -/
theorem push (h : Corresponds R arena arena') (hempty : R .empty .empty) :
    Corresponds R (arena.push parent) (arena'.push parent) := by
  refine ⟨by rw [size_push, size_push, h.size_eq], fun i scope scope' hscope hscope' => ?_⟩
  have hi : i < arena.size + 1 := by
    have := scope?_lt hscope
    rwa [size_push] at this
  by_cases heq : i = arena.size
  · subst heq
    rw [scope?_push_self, Option.some.injEq] at hscope
    rw [h.size_eq, scope?_push_self, Option.some.injEq] at hscope'
    subst hscope hscope'
    exact ⟨rfl, hempty⟩
  · have hlt : i < arena.size := by omega
    rw [scope?_push_of_lt hlt] at hscope
    rw [scope?_push_of_lt (h.size_eq ▸ hlt)] at hscope'
    exact h.scope i scope scope' hscope hscope'

/-- Changes of one scope correspond if they relate what it binds then. -/
theorem modify (h : Corresponds R arena arena') {f : Scope V F → Scope V F}
    {g : Scope V' F' → Scope V' F'} (hf : ∀ scope, (f scope).parent = scope.parent)
    (hg : ∀ scope, (g scope).parent = scope.parent)
    (hR : ∀ scope scope', arena.scope? index = some scope → arena'.scope? index = some scope' →
      R scope.frame scope'.frame → R (f scope).frame (g scope').frame) :
    Corresponds R (arena.modify index f) (arena'.modify index g) := by
  refine ⟨by rw [size_modify, size_modify, h.size_eq], fun i scope scope' hscope hscope' => ?_⟩
  by_cases heq : index = i
  · subst heq
    rw [scope?_modify_self] at hscope hscope'
    obtain ⟨before, hbefore, rfl⟩ := Option.map_eq_some_iff.mp hscope
    obtain ⟨before', hbefore', rfl⟩ := Option.map_eq_some_iff.mp hscope'
    obtain ⟨hparent, hrelated⟩ := h.scope index before before' hbefore hbefore'
    exact ⟨by rw [hf, hg, hparent], hR before before' hbefore hbefore' hrelated⟩
  · rw [scope?_modify_of_ne heq] at hscope hscope'
    exact h.scope i scope scope' hscope hscope'

/-- A change of one arena alone keeps the correspondence if it keeps the
relation. -/
theorem modify_right (h : Corresponds R arena arena') {g : Scope V' F' → Scope V' F'}
    (hg : ∀ scope, (g scope).parent = scope.parent)
    (hR : ∀ scope scope', arena.scope? index = some scope → arena'.scope? index = some scope' →
      R scope.frame scope'.frame → R scope.frame (g scope').frame) :
    Corresponds R arena (arena'.modify index g) := by
  refine ⟨by rw [size_modify, h.size_eq], fun i scope scope' hscope hscope' => ?_⟩
  by_cases heq : index = i
  · subst heq
    rw [scope?_modify_self] at hscope'
    obtain ⟨before', hbefore', rfl⟩ := Option.map_eq_some_iff.mp hscope'
    obtain ⟨hparent, hrelated⟩ := h.scope index scope before' hscope hbefore'
    exact ⟨by rw [hg, hparent], hR scope before' hscope hbefore' hrelated⟩
  · rw [scope?_modify_of_ne heq] at hscope'
    exact h.scope i scope scope' hscope hscope'

/-- Arenas go on to correspond when a scope is released, or may not be. -/
theorem release (h : Corresponds R arena arena') :
    Corresponds R ((arena.release index).toOption.getD arena)
      ((arena'.release index).toOption.getD arena') := by
  unfold Arena.release
  split
  · exact h
  · refine ⟨?_, fun i scope scope' hscope hscope' => ?_⟩
    · have hsize := h.size_eq
      show (arena.scopes.take index).length = (arena'.scopes.take index).length
      rw [List.length_take, List.length_take]
      exact congrArg (min index) hsize
    · -- What is left of an arena is a prefix of it.
      have hbefore {V F : Type} {arena : Arena V F} {scope : Scope V F}
          (h : (arena.scopes.take index)[i]? = some scope) : arena.scope? i = some scope := by
        obtain ⟨hlt, hget⟩ := List.getElem?_eq_some_iff.mp h
        rw [List.getElem_take] at hget
        exact List.getElem?_eq_some_iff.mpr ⟨_, hget⟩
      exact h.scope i scope scope' (hbefore hscope) (hbefore hscope')

/-- The chains of a scope correspond. -/
theorem chain (h : Corresponds R arena arena') (index : Nat) :
    List.Forall₂ R (arena.chain index) (arena'.chain index) := by
  rw [Arena.chain, Arena.chain, h.size_eq]
  generalize arena'.size = fuel
  induction fuel generalizing index with
  | zero => exact .nil
  | succ fuel ih =>
      unfold chainFrom
      cases hscope : arena.scope? index with
      | none =>
          rw [h.scope?_eq_none hscope]
          exact .nil
      | some scope =>
          obtain ⟨scope', hscope'⟩ := h.exists_scope? hscope
          obtain ⟨hparent, hrelated⟩ := h.scope index scope scope' hscope hscope'
          rw [hscope']
          dsimp only
          rw [hparent]
          refine .cons hrelated ?_
          cases scope'.parent with
          | none => exact .nil
          | some parent => exact ih parent

/-- The same scope owns a variable in both arenas, if related frames bind the
same variables. -/
theorem ownerOfVariable? (h : Corresponds R arena arena')
    (hR : ∀ frame frame', R frame frame' →
      ∀ name, frame.variableTable.contains name = frame'.variableTable.contains name)
    (index : Nat) (name : String) :
    arena'.ownerOfVariable? index name = arena.ownerOfVariable? index name := by
  rw [Arena.ownerOfVariable?, Arena.ownerOfVariable?, findUp, findUp, h.size_eq]
  congr 2
  generalize arena'.size = fuel
  induction fuel generalizing index with
  | zero => rfl
  | succ fuel ih =>
      unfold findUpFrom
      cases hscope : arena.scope? index with
      | none => rw [h.scope?_eq_none hscope]
      | some scope =>
          obtain ⟨scope', hscope'⟩ := h.exists_scope? hscope
          obtain ⟨hparent, hrelated⟩ := h.scope index scope scope' hscope hscope'
          have hsame : scope.variableTable.contains name = scope'.variableTable.contains name :=
            hR _ _ hrelated name
          rw [hscope']
          dsimp only
          rw [hsame, hparent]
          split
          · rfl
          · cases scope'.parent with
            | none => rfl
            | some parent => exact ih parent

end Corresponds

/-! ### The program's scope alone -/

/-- The arena whose only scope binds this frame. -/
def single (frame : Frame V F) : Arena V F :=
  ⟨[⟨none, frame.variableTable, frame.functionTable⟩]⟩

/-- Its one scope has the frame and no parent. -/
theorem scope?_single_eq_some {frame : Frame V F} {scope : Scope V F} {index : Nat}
    (h : (single frame).scope? index = some scope) :
    scope = ⟨none, frame.variableTable, frame.functionTable⟩ := by
  cases index with
  | zero => exact (Option.some.inj h).symm
  | succ index => cases h

/-- A single scope has no parent to stand before it. -/
theorem ordered_single (frame : Frame V F) : (single frame).Ordered := by
  intro index scope hscope parent hparent
  rw [scope?_single_eq_some hscope] at hparent
  cases hparent

/-- From a single scope its frame is seen. -/
theorem chain_single (frame : Frame V F) : (single frame).chain root = [frame] := rfl

/-- A function that is bound in a single scope is bound in its frame. -/
theorem bindFunction_single (frame : Frame V F) (key : FunctionKey) (value : F) :
    (single frame).bindFunction root key value = single (frame.setFunction key value) := rfl

/-- Single scopes correspond if their frames are related. -/
theorem Corresponds.single {R : Frame V F → Frame V' F' → Prop} {frame : Frame V F}
    {frame' : Frame V' F'} (h : R frame frame') :
    Corresponds R (Arena.single frame) (Arena.single frame') := by
  refine ⟨rfl, fun index scope scope' hscope hscope' => ?_⟩
  rw [scope?_single_eq_some hscope, scope?_single_eq_some hscope']
  exact ⟨rfl, h⟩

end Arena

namespace Proofs

/-! ### Changes of one scope -/

/-- At most what one scope binds has changed. -/
def Grown (scope : ScopeId) (arena arena' : Arena V F) : Prop :=
  ∃ f : Scope V F → Scope V F,
    (∀ s, (f s).parent = s.parent) ∧ arena' = arena.modify scope f

namespace Grown

variable {scope : ScopeId} {arena arena' arena'' : Arena V F}

/-- Nothing has changed. -/
theorem refl (scope : ScopeId) (arena : Arena V F) : Grown scope arena arena := by
  refine ⟨id, fun _ => rfl, ?_⟩
  rw [Arena.modify, List.modify_id]

/-- Changes of one scope, one after the other, are one change. -/
theorem trans (h : Grown scope arena arena') (h' : Grown scope arena' arena'') :
    Grown scope arena arena'' := by
  obtain ⟨f, hf, rfl⟩ := h
  obtain ⟨g, hg, rfl⟩ := h'
  refine ⟨g ∘ f, fun s => by rw [Function.comp, hg, hf], ?_⟩
  rw [Arena.modify, Arena.modify, Arena.modify, List.modify_modify_eq]

/-- Binding a variable changes what its scope binds. -/
theorem bindVariable (scope : ScopeId) (arena : Arena V F) (name : String) (value : V) :
    Grown scope arena (arena.bindVariable scope name value) :=
  ⟨(·.setVariable name value), fun _ => rfl, rfl⟩

/-- There are as many scopes as before. -/
theorem size_eq (h : Grown scope arena arena') : arena'.size = arena.size := by
  obtain ⟨f, -, rfl⟩ := h
  exact Arena.size_modify arena scope f

/-- Parents still stand before their children. -/
theorem ordered (h : Grown scope arena arena') (hordered : arena.Ordered) : arena'.Ordered := by
  obtain ⟨f, hf, rfl⟩ := h
  exact hordered.modify hf

end Grown

end Proofs

end PlcLang
