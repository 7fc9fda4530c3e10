import PlcLang.Proofs.Scoping.Chains
import PlcLang.Scope.Reserved

/-!
# `PlcLang.Proofs.Scoping.Ancestry`: the tree of scopes

The checker and the interpreter use an arena as a stack. But whatever is done to an arena,
in whatever order and below whichever live scope, its scopes form a tree (`Rooted`): each but
the program's has a parent of a smaller index. Each way to use it keeps that
(`Rooted.effect`), and so does every sequence of uses (`Reaches.rooted`).

A scope's ancestors are the scope itself, its parent, and so on. A look-up finds the answer
of the nearest of them (`Rooted.exists_findUp_eq`), and nothing but its ancestors matters to
it (`findUp_congr`). So a look-up from a scope that survives finds what it found before,
unless something was defined in one of its ancestors: `Reaches.spared`.

What counts as a binding is up to the reader of an arena. The checker and the interpreter
count every entry, and in an arena with reserved names those with a value count. All of this
holds however entries are read (`EntryReading`).
-/

set_option autoImplicit false

namespace PlcLang

variable {V F β γ : Type}

/-! ### Ancestors -/

namespace Arena

/-- The scope of the first index is that of the second one, or its parent, or the parent of
that, and so on. -/
inductive IsAncestor (arena : Arena V F) : Nat → Nat → Prop where
  | self {index : Nat} {scope : Scope V F} (hscope : arena.scope? index = some scope) :
      IsAncestor arena index index
  | above {ancestor parent index : Nat} {scope : Scope V F}
      (hscope : arena.scope? index = some scope) (hparent : scope.parent = some parent)
      (h : IsAncestor arena ancestor parent) : IsAncestor arena ancestor index

/-- The answer is that of the nearest ancestor that has one. -/
inductive Nearest (arena : Arena V F) (find? : Scope V F → Option β) (index : Nat) :
    Option β → Prop where
  | found {ancestor : Nat} {scope : Scope V F} {value : β}
      (h : arena.IsAncestor ancestor index) (hscope : arena.scope? ancestor = some scope)
      (hfind : find? scope = some value)
      (hnearer : ∀ nearer scope', arena.IsAncestor nearer index →
        arena.IsAncestor ancestor nearer → nearer ≠ ancestor →
        arena.scope? nearer = some scope' → find? scope' = none) :
      Nearest arena find? index (some value)
  | unbound
      (h : ∀ ancestor scope, arena.IsAncestor ancestor index →
        arena.scope? ancestor = some scope → find? scope = none) :
      Nearest arena find? index none

/-- The scopes form a tree: each but the program's has a live parent of a smaller index. -/
structure Rooted (arena : Arena V F) : Prop where
  program : ∃ scope, arena.scope? root = some scope ∧ scope.parent = none
  parent : ∀ (index : Nat) scope, arena.scope? index = some scope → index ≠ root →
    ∃ parent : Nat, scope.parent = some parent ∧ parent < index

variable {arena other : Arena V F} {index ancestor place : Nat} {scope : Scope V F}
  {find? : Scope V F → Option β}

/-- There is a scope at every index below the size. -/
theorem exists_scope?_of_lt (h : index < arena.size) : ∃ scope, arena.scope? index = some scope :=
  ⟨_, List.getElem?_eq_getElem h⟩

/-- The scopes in front of a scope are still there when the others are gone. -/
theorem scope?_take_of_lt {count : Nat} (h : index < count) :
    (Arena.mk (arena.scopes.take count)).scope? index = arena.scope? index :=
  List.getElem?_take_of_lt h

namespace Rooted

/-- A tree has a scope. -/
theorem size_pos (h : arena.Rooted) : 0 < arena.size := by
  obtain ⟨scope, hscope, -⟩ := h.program
  exact scope?_lt hscope

/-- In a tree every parent stands before its children. -/
theorem ordered (h : arena.Rooted) : arena.Ordered := by
  intro index scope hscope parent hparent
  by_cases hroot : index = root
  · obtain ⟨program, hprogram, hnone⟩ := h.program
    rw [hroot, hprogram] at hscope
    obtain rfl := Option.some.inj hscope
    rw [hnone] at hparent
    cases hparent
  · obtain ⟨other, hother, hlt⟩ := h.parent index scope hscope hroot
    rw [hother] at hparent
    obtain rfl := Option.some.inj hparent
    exact hlt

/-! ### Keeping the tree -/

/-- A fresh arena is a tree of one scope. -/
theorem initial : (Arena.initial : Arena V F).Rooted where
  program := ⟨_, rfl, rfl⟩
  parent index scope hscope hroot := by
    have hlt : index < 1 := scope?_lt hscope
    exact absurd (Nat.lt_one_iff.mp hlt) hroot

/-- A scope below a live one makes a tree of a tree. -/
theorem push (h : arena.Rooted) (hplace : place < arena.size) : (arena.push place).Rooted where
  program := by
    obtain ⟨program, hprogram, hnone⟩ := h.program
    exact ⟨program, (scope?_push_of_lt h.size_pos).trans hprogram, hnone⟩
  parent index scope hscope hroot := by
    by_cases hnew : index = arena.size
    · rw [hnew, scope?_push_self] at hscope
      obtain rfl := Option.some.inj hscope
      exact ⟨place, rfl, by omega⟩
    · have hlt := scope?_lt hscope
      rw [size_push] at hlt
      rw [scope?_push_of_lt (by omega)] at hscope
      exact h.parent index scope hscope hroot

/-- What is left in front of a scope is a tree, too. -/
theorem take (h : arena.Rooted) {count : Nat} (hcount : 0 < count) :
    (Arena.mk (arena.scopes.take count)).Rooted where
  program := by
    obtain ⟨program, hprogram, hnone⟩ := h.program
    exact ⟨program, (scope?_take_of_lt hcount).trans hprogram, hnone⟩
  parent index scope hscope hroot := by
    have hlt := scope?_lt hscope
    rw [size, List.length_take] at hlt
    rw [scope?_take_of_lt (by omega)] at hscope
    exact h.parent index scope hscope hroot

/-- What a scope binds does not matter, as long as its parent stays. -/
theorem modify (h : arena.Rooted) {f : Scope V F → Scope V F}
    (hf : ∀ scope, (f scope).parent = scope.parent) : (arena.modify place f).Rooted := by
  -- a scope of the changed arena comes from one of the same index with the same parent
  have hback (index : Nat) :
      ((arena.modify place f).scope? index).map Scope.parent
        = (arena.scope? index).map Scope.parent := by
    by_cases hplace : place = index
    · rw [hplace, scope?_modify_self, Option.map_map]
      exact congrArg (Option.map · _) (funext hf)
    · rw [scope?_modify_of_ne hplace]
  obtain ⟨program, hprogram, hnone⟩ := h.program
  constructor
  · have hroot := hback root
    rw [hprogram, Option.map_some, hnone] at hroot
    exact Option.map_eq_some_iff.mp hroot
  · intro index scope hscope hroot
    have hsame := hback index
    rw [hscope, Option.map_some] at hsame
    obtain ⟨before, hbefore, hparent⟩ := Option.map_eq_some_iff.mp hsame.symm
    rw [← hparent]
    exact h.parent index before hbefore hroot

end Rooted

/-! ### Look-ups -/

/-- No ancestor stands behind the scope. -/
theorem IsAncestor.le (h : arena.IsAncestor ancestor index) (hordered : arena.Ordered) :
    ancestor ≤ index := by
  induction h with
  | self => exact Nat.le_refl _
  | above hscope hparent _ ih =>
      have hlt := hordered _ _ hscope _ hparent
      exact Nat.le_trans ih (Nat.le_of_lt hlt)

/-- The ancestors of a scope are the scope and those of its parent. -/
theorem isAncestor_iff (hscope : arena.scope? index = some scope) :
    arena.IsAncestor ancestor index
      ↔ ancestor = index ∨ ∃ parent, scope.parent = some parent
        ∧ arena.IsAncestor ancestor parent := by
  constructor
  · intro h
    cases h with
    | self => exact .inl rfl
    | above hscope' hparent h =>
        rw [hscope] at hscope'
        obtain rfl := Option.some.inj hscope'
        exact .inr ⟨_, hparent, h⟩
  · rintro (rfl | ⟨parent, hparent, h⟩)
    · exact .self hscope
    · exact .above hscope hparent h

/-- A scope without an answer passes on what its parent answers. -/
theorem Nearest.above {parent : Nat} {answer : Option β}
    (hscope : arena.scope? index = some scope) (hparent : scope.parent = some parent)
    (hnone : find? scope = none) (h : arena.Nearest find? parent answer) :
    arena.Nearest find? index answer := by
  have hself (scope' : Scope V F) (hscope' : arena.scope? index = some scope') :
      find? scope' = none := by
    rw [hscope] at hscope'
    rwa [← Option.some.inj hscope']
  cases h with
  | found h hfound hfind hnearer =>
      refine .found (.above hscope hparent h) hfound hfind fun nearer scope' hup hdown hne hs => ?_
      rcases (isAncestor_iff hscope).mp hup with rfl | ⟨other, hother, hup⟩
      · exact hself scope' hs
      · rw [hparent] at hother
        obtain rfl := Option.some.inj hother
        exact hnearer nearer scope' hup hdown hne hs
  | unbound h =>
      refine .unbound fun ancestor scope' hup hs => ?_
      rcases (isAncestor_iff hscope).mp hup with rfl | ⟨other, hother, hup⟩
      · exact hself scope' hs
      · rw [hparent] at hother
        obtain rfl := Option.some.inj hother
        exact h ancestor scope' hup hs

/-- Every look-up from a live scope comes to an end, and finds what the nearest ancestor
answers. -/
theorem Rooted.exists_findUp_eq (h : arena.Rooted) (hindex : index < arena.size)
    (find? : Scope V F → Option β) :
    ∃ answer, arena.findUp index (fun _ => find?) = .ok answer
      ∧ arena.Nearest find? index answer := by
  -- the parent's index is smaller, so it is below the fuel that is left, too
  have hsteps (fuel index : Nat) (hindex : index < arena.size) (hfuel : index < fuel) :
      ∃ answer, arena.findUpFrom (fun _ => find?) fuel index = .ok answer
        ∧ arena.Nearest find? index answer := by
    induction fuel generalizing index with
    | zero => omega
    | succ fuel ih =>
        obtain ⟨scope, hscope⟩ := exists_scope?_of_lt hindex
        rw [findUpFrom, hscope]
        dsimp only
        cases hfind : find? scope with
        | some found =>
            refine ⟨some found, rfl, .found (.self hscope) hscope hfind ?_⟩
            -- nothing is between a scope and itself
            intro nearer scope' hup hdown hne
            have hle := hup.le h.ordered
            have hge := hdown.le h.ordered
            exact absurd (Nat.le_antisymm hle hge) hne
        | none =>
            cases hparent : scope.parent with
            | none =>
                refine ⟨none, rfl, .unbound fun ancestor scope' hup hs => ?_⟩
                rcases (isAncestor_iff hscope).mp hup with rfl | ⟨other, hother, -⟩
                · rw [hscope] at hs
                  rwa [← Option.some.inj hs]
                · rw [hparent] at hother
                  cases hother
            | some parent =>
                have hlt := h.ordered _ _ hscope _ hparent
                obtain ⟨answer, hanswer, hnearest⟩ := ih parent (by omega) (by omega)
                exact ⟨answer, hanswer, hnearest.above hscope hparent hfind⟩
  exact hsteps arena.size index hindex hindex

/-- Nothing but the ancestors of a scope matters to a look-up from it, not even how many
scopes there are. -/
theorem findUp_congr (hordered : arena.Ordered) (hindex : index < arena.size)
    (hother : index < other.size)
    (hsame : ∀ ancestor, arena.IsAncestor ancestor index →
      other.scope? ancestor = arena.scope? ancestor)
    (find? : Scope V F → Option β) :
    other.findUp index (fun _ => find?) = arena.findUp index fun _ => find? := by
  -- The two arenas need not have the same number of scopes, so the fuel differs, too.
  have hsteps (fuel fuel' index : Nat) (hfuel : index < fuel) (hfuel' : index < fuel')
      (hsame : ∀ ancestor, arena.IsAncestor ancestor index →
        other.scope? ancestor = arena.scope? ancestor) (hindex : index < arena.size) :
      other.findUpFrom (fun _ => find?) fuel' index
        = arena.findUpFrom (fun _ => find?) fuel index := by
    induction fuel generalizing index fuel' with
    | zero => omega
    | succ fuel ih =>
        obtain ⟨fuel', rfl⟩ : ∃ n, fuel' = n + 1 := ⟨fuel' - 1, by omega⟩
        obtain ⟨scope, hscope⟩ := exists_scope?_of_lt hindex
        rw [findUpFrom, findUpFrom, hsame index (.self hscope), hscope]
        dsimp only
        cases find? scope with
        | some found => rfl
        | none =>
            cases hparent : scope.parent with
            | none => rfl
            | some parent =>
                have hlt := hordered _ _ hscope _ hparent
                exact ih fuel' parent (by omega) (by omega)
                  (fun ancestor h => hsame ancestor (.above hscope hparent h)) (by omega)
  exact hsteps arena.size other.size index hindex hother hsame hindex

end Arena

/-! ### Uses of an arena -/

/-- What counts as a binding among the entries of a scope. -/
structure EntryReading (V F β γ : Type) where
  variableEntry : Option V → Option β
  functionEntry : Option F → Option γ

namespace EntryReading

/-- Every entry counts. -/
def all : EntryReading V F V F := ⟨id, id⟩

/-- Entries with a value count, and names that are only reserved do not. -/
def withValue : EntryReading (Option V) (Option F) V F := ⟨Option.join, Option.join⟩

variable (reading : EntryReading V F β γ)

/-- What a scope itself binds a variable to. -/
def variableOf (name : String) (scope : Scope V F) : Option β :=
  reading.variableEntry (scope.variableTable.get? name)

/-- What a scope itself binds a function to. -/
def functionOf (key : FunctionKey) (scope : Scope V F) : Option γ :=
  reading.functionEntry (scope.functionTable.get? key)

/-- Defines a variable in a scope that does not bind it yet. -/
def defineVariable (arena : Arena V F) (index : ScopeId) (name : String) (value : V) :
    Except ArenaError (Option β × Arena V F) :=
  arena.define index (reading.variableOf name) (·.setVariable name value)

/-- Defines a function in a scope that does not bind it yet. -/
def defineFunction (arena : Arena V F) (index : ScopeId) (key : FunctionKey) (value : F) :
    Except ArenaError (Option γ × Arena V F) :=
  arena.define index (reading.functionOf key) (·.setFunction key value)

/-- What a variable is bound to, seen from a scope. -/
def lookupVariable (arena : Arena V F) (index : ScopeId) (name : String) :
    Except ArenaError (Option β) :=
  arena.findUp index fun _ => reading.variableOf name

/-- What a function is bound to, seen from a scope. -/
def lookupFunction (arena : Arena V F) (index : ScopeId) (key : FunctionKey) :
    Except ArenaError (Option γ) :=
  arena.findUp index fun _ => reading.functionOf key

/-- Where every entry counts, these are the operations of the checker and the
interpreter. -/
theorem operations_all :
    (all : EntryReading V F V F).defineVariable = Arena.defineVariable
      ∧ (all : EntryReading V F V F).defineFunction = Arena.defineFunction
      ∧ (all : EntryReading V F V F).lookupVariable = Arena.lookupVariable
      ∧ (all : EntryReading V F V F).lookupFunction = Arena.lookupFunction :=
  ⟨rfl, rfl, rfl, rfl⟩

/-- Where values count, these are the operations of an arena with reserved names. -/
theorem operations_withValue :
    (withValue : EntryReading (Option V) (Option F) V F).defineVariable = Arena.reserveVariable
      ∧ (withValue : EntryReading (Option V) (Option F) V F).defineFunction
        = Arena.reserveFunction
      ∧ (withValue : EntryReading (Option V) (Option F) V F).lookupVariable
        = Arena.valueOfVariable
      ∧ (withValue : EntryReading (Option V) (Option F) V F).lookupFunction
        = Arena.valueOfFunction :=
  ⟨rfl, rfl, rfl, rfl⟩

end EntryReading

/-- What changes an arena. Look-ups only read it. -/
inductive ArenaUse (V F : Type) where
  | push (parent : ScopeId)
  | release (index : ScopeId)
  | defineVariable (index : ScopeId) (name : String) (value : V)
  | defineFunction (index : ScopeId) (key : FunctionKey) (value : F)

namespace ArenaUse

/-- The arena after a definition. One that is refused changes nothing. -/
def defined (arena : Arena V F) (answer : Except ArenaError (Option β × Arena V F)) : Arena V F :=
  (answer.toOption.map Prod.snd).getD arena

/-- The arena after a use. A release that is refused changes nothing. -/
def apply (reading : EntryReading V F β γ) (arena : Arena V F) : ArenaUse V F → Arena V F
  | push parent => arena.push parent
  | release index => (arena.release index).toOption.getD arena
  | defineVariable index name value =>
    defined arena (reading.defineVariable arena index name value)
  | defineFunction index key value =>
    defined arena (reading.defineFunction arena index key value)

/-- What a use can do to an arena. A use may be refused, whichever it is. -/
inductive Effect (arena : Arena V F) : ArenaUse V F → Arena V F → Prop where
  | refused {use : ArenaUse V F} : Effect arena use arena
  | pushed {parent : ScopeId} : Effect arena (.push parent) (arena.push parent)
  | released {index : ScopeId} (hroot : index ≠ Arena.root) :
      Effect arena (.release index) ⟨arena.scopes.take index⟩
  | variableBound {index : ScopeId} {name : String} {value : V} :
      Effect arena (.defineVariable index name value) (arena.bindVariable index name value)
  | functionBound {index : ScopeId} {key : FunctionKey} {value : F} :
      Effect arena (.defineFunction index key value) (arena.bindFunction index key value)

/-- Scopes are pushed below live ones, and live ones are released. A definition may
be made anywhere. -/
def Proper (arena : Arena V F) : ArenaUse V F → Prop
  | push parent => parent < arena.size
  | release index => index < arena.size
  | defineVariable .. | defineFunction .. => True

/-- The scope survives, and nothing is defined in its ancestors. -/
def Spares (place : Nat) (arena : Arena V F) : ArenaUse V F → Prop
  | push _ => True
  | release (index : Nat) => index = Arena.root ∨ place < index
  | defineVariable index .. | defineFunction index .. => ¬ arena.IsAncestor index place

end ArenaUse

/-- A sequence of uses, each of them allowed where it comes, makes the one arena of the
other. -/
inductive Reaches (reading : EntryReading V F β γ) (allowed : Arena V F → ArenaUse V F → Prop) :
    Arena V F → List (ArenaUse V F) → Arena V F → Prop where
  | nil {arena : Arena V F} : Reaches reading allowed arena [] arena
  | cons {arena last : Arena V F} {use : ArenaUse V F} {uses : List (ArenaUse V F)}
      (h : allowed arena use)
      (hrest : Reaches reading allowed (use.apply reading arena) uses last) :
      Reaches reading allowed arena (use :: uses) last

section

open Arena

variable {reading : EntryReading V F β γ} {arena last : Arena V F} {use : ArenaUse V F}
  {uses : List (ArenaUse V F)} {place : Nat}

/-! ### One use -/

/-- A definition in a scope answers with what is bound there, or binds. -/
theorem define_eq {δ : Type} {index : ScopeId} {scope : Scope V F}
    (hscope : arena.scope? index = some scope) (existing? : Scope V F → Option δ)
    (add : Scope V F → Scope V F) :
    arena.define index existing? add
      = match existing? scope with
        | some existing => .ok (some existing, arena)
        | none => .ok (none, arena.modify index add) := by
  cases hexisting : existing? scope <;> simp only [Arena.define, hscope, hexisting]

/-- A definition changes one scope, or nothing. -/
theorem defined_cases {δ : Type} (arena : Arena V F) (index : ScopeId)
    (existing? : Scope V F → Option δ) (add : Scope V F → Scope V F) :
    ArenaUse.defined arena (arena.define index existing? add) = arena
      ∨ ArenaUse.defined arena (arena.define index existing? add) = arena.modify index add := by
  cases hscope : arena.scope? index with
  | none =>
      rw [Arena.define, hscope]
      exact .inl rfl
  | some scope =>
      rw [define_eq hscope]
      cases existing? scope with
      | some existing => exact .inl rfl
      | none => exact .inr rfl

/-- A use has one of these effects. -/
theorem effect_apply (reading : EntryReading V F β γ) (arena : Arena V F) (use : ArenaUse V F) :
    use.Effect arena (use.apply reading arena) := by
  cases use with
  | push parent => exact .pushed
  | release index =>
      rw [ArenaUse.apply, Arena.release]
      by_cases hroot : index = root
      · rw [if_pos hroot]
        exact .refused
      · rw [if_neg hroot]
        exact .released hroot
  | defineVariable index name value =>
      rw [ArenaUse.apply, EntryReading.defineVariable]
      rcases defined_cases arena index (reading.variableOf name) (·.setVariable name value) with
        hsame | hbound
      · rw [hsame]
        exact .refused
      · rw [hbound]
        exact .variableBound
  | defineFunction index key value =>
      rw [ArenaUse.apply, EntryReading.defineFunction]
      rcases defined_cases arena index (reading.functionOf key) (·.setFunction key value) with
        hsame | hbound
      · rw [hsame]
        exact .refused
      · rw [hbound]
        exact .functionBound

/-- Every proper use keeps the tree. One case for each effect. -/
theorem Arena.Rooted.effect (h : arena.Rooted) (heffect : use.Effect arena last)
    (huse : use.Proper arena) : last.Rooted := by
  cases heffect with
  | refused => exact h
  | pushed => exact h.push huse
  | released hroot => exact h.take (Nat.pos_of_ne_zero hroot)
  | variableBound => exact h.modify fun _ => rfl
  | functionBound => exact h.modify fun _ => rfl

/-- A change of a scope that is not an ancestor leaves the ancestors as they are. -/
theorem scope?_modify_of_not_isAncestor {changed : Nat} {f : Scope V F → Scope V F}
    (hnot : ¬ arena.IsAncestor changed place) (ancestor : Nat)
    (hup : arena.IsAncestor ancestor place) :
    (arena.modify changed f).scope? ancestor = arena.scope? ancestor :=
  scope?_modify_of_ne fun heq => hnot (heq ▸ hup)

/-- A use that spares a scope leaves its ancestors as they are. -/
theorem scope?_effect_of_spares (h : arena.Rooted) (hplace : place < arena.size)
    (heffect : use.Effect arena last) (hspares : use.Spares place arena) :
    place < last.size
      ∧ ∀ ancestor, arena.IsAncestor ancestor place →
        last.scope? ancestor = arena.scope? ancestor := by
  cases heffect with
  | refused => exact ⟨hplace, fun _ _ => rfl⟩
  | pushed =>
      refine ⟨?_, fun ancestor hup => ?_⟩
      · rw [size_push]
        omega
      · exact scope?_push_of_lt (Nat.lt_of_le_of_lt (hup.le h.ordered) hplace)
  | released hroot =>
      -- what is in front of the released scope stays, and ancestors are in front of the scope
      have hlt := hspares.resolve_left hroot
      refine ⟨?_, fun ancestor hup => ?_⟩
      · rw [size, List.length_take]
        exact Nat.lt_min.mpr ⟨hlt, hplace⟩
      · exact scope?_take_of_lt (Nat.lt_of_le_of_lt (hup.le h.ordered) hlt)
  | variableBound =>
      exact ⟨by rwa [bindVariable, size_modify], scope?_modify_of_not_isAncestor hspares⟩
  | functionBound =>
      exact ⟨by rwa [bindFunction, size_modify], scope?_modify_of_not_isAncestor hspares⟩

/-! ### Any number of uses -/

/-- Every sequence of proper uses keeps the tree. By induction on the uses. -/
theorem Reaches.rooted {allowed : Arena V F → ArenaUse V F → Prop}
    (h : Reaches reading allowed arena uses last) (hrooted : arena.Rooted)
    (hproper : ∀ arena use, allowed arena use → use.Proper arena) : last.Rooted := by
  induction h with
  | nil => exact hrooted
  | cons huse _ ih => exact ih (hrooted.effect (effect_apply reading _ _) (hproper _ _ huse))

/-- Uses that spare a scope leave alone what is seen from it. By induction on the
uses. -/
theorem Reaches.spared
    (h : Reaches reading (fun arena use => use.Proper arena ∧ use.Spares place arena) arena uses
      last) (hrooted : arena.Rooted) (hplace : place < arena.size) :
    place < last.size
      ∧ ∀ {δ : Type} (find? : Scope V F → Option δ),
        last.findUp place (fun _ => find?) = arena.findUp place fun _ => find? := by
  -- Whether a use spares the scope is asked of the arena that it finds, so what one use keeps
  -- is all that the next one needs: the scope is live, and its ancestors are what they were.
  induction h with
  | nil => exact ⟨hplace, fun _ => rfl⟩
  | @cons arena _ use _ huse _ ih =>
      obtain ⟨hproper, hspares⟩ := huse
      have heffect := effect_apply reading arena use
      obtain ⟨hnext, hsame⟩ := scope?_effect_of_spares hrooted hplace heffect hspares
      obtain ⟨hlast, hlookup⟩ := ih (hrooted.effect heffect hproper) hnext
      refine ⟨hlast, fun find? => (hlookup find?).trans ?_⟩
      exact findUp_congr hrooted.ordered hplace hnext hsame find?

/-- What holds of an arena that has been used in any way. -/
structure FormsTree (reading : EntryReading V F β γ) (arena : Arena V F) : Prop where
  /-- The program's scope has no parent. -/
  program : ∃ scope, arena.scope? root = some scope ∧ scope.parent = none
  /-- Every other live scope has a live parent of a smaller index. -/
  parent : ∀ index scope, arena.scope? index = some scope → index ≠ root →
    ∃ parent, scope.parent = some parent ∧ parent < index ∧ parent < arena.size
  /-- A look-up of a variable ends, with what the nearest ancestor binds it to. -/
  variableSeen : ∀ index name, index < arena.size →
    ∃ answer, reading.lookupVariable arena index name = .ok answer
      ∧ arena.Nearest (reading.variableOf name) index answer
  /-- A look-up of a function ends, with what the nearest ancestor binds it to. -/
  functionSeen : ∀ index key, index < arena.size →
    ∃ answer, reading.lookupFunction arena index key = .ok answer
      ∧ arena.Nearest (reading.functionOf key) index answer
  /-- A variable that a scope binds is not defined again. -/
  variableKept : ∀ index scope name existing value, arena.scope? index = some scope →
    reading.variableOf name scope = some existing →
      reading.defineVariable arena index name value = .ok (some existing, arena)
  /-- A function that a scope binds is not defined again. -/
  functionKept : ∀ index scope key existing value, arena.scope? index = some scope →
    reading.functionOf key scope = some existing →
      reading.defineFunction arena index key value = .ok (some existing, arena)
  /-- Other variables are defined, and all else stays as it is. -/
  variableAdded : ∀ index scope name value, arena.scope? index = some scope →
    reading.variableOf name scope = none →
      reading.defineVariable arena index name value
        = .ok (none, arena.bindVariable index name value)
  /-- Other functions are defined, and all else stays as it is. -/
  functionAdded : ∀ index scope key value, arena.scope? index = some scope →
    reading.functionOf key scope = none →
      reading.defineFunction arena index key value
        = .ok (none, arena.bindFunction index key value)
  /-- The program's scope is not released. -/
  programKept : arena.release root = .error .programScope
  /-- A scope that survives sees what it saw, whatever is pushed, released and defined
  elsewhere than in its ancestors. -/
  spared : ∀ place uses last, place < arena.size →
    Reaches reading (fun arena use => use.Proper arena ∧ use.Spares place arena) arena uses last →
      place < last.size
        ∧ (∀ name, reading.lookupVariable last place name
          = reading.lookupVariable arena place name)
        ∧ ∀ key, reading.lookupFunction last place key
          = reading.lookupFunction arena place key

end

namespace Proofs

/-- An arena is a tree under any use: whatever is pushed below live scopes, whichever live
scopes are released, and whatever is defined where. -/
theorem arena_forms_tree {reading : EntryReading V F β γ} {arena : Arena V F}
    {uses : List (ArenaUse V F)}
    (h : Reaches reading (fun arena use => use.Proper arena) .initial uses arena) :
    FormsTree reading arena := by
  have hrooted : arena.Rooted := h.rooted .initial fun _ _ huse => huse
  constructor
  case program => exact hrooted.program
  case parent =>
    intro index scope hscope hroot
    obtain ⟨parent, hparent, hlt⟩ := hrooted.parent index scope hscope hroot
    exact ⟨parent, hparent, hlt, Nat.lt_trans hlt (Arena.scope?_lt hscope)⟩
  case variableSeen => exact fun index name hindex => hrooted.exists_findUp_eq hindex _
  case functionSeen => exact fun index key hindex => hrooted.exists_findUp_eq hindex _
  case variableKept =>
    intro index scope name existing value hscope hexisting
    exact (define_eq hscope _ _).trans (by rw [hexisting])
  case functionKept =>
    intro index scope key existing value hscope hexisting
    exact (define_eq hscope _ _).trans (by rw [hexisting])
  case variableAdded =>
    intro index scope name value hscope hnone
    exact (define_eq hscope _ _).trans (by rw [hnone]; rfl)
  case functionAdded =>
    intro index scope key value hscope hnone
    exact (define_eq hscope _ _).trans (by rw [hnone]; rfl)
  case programKept => rfl
  case spared =>
    intro place uses last hplace hreaches
    obtain ⟨hlast, hlookup⟩ := hreaches.spared hrooted hplace
    exact ⟨hlast, fun name => hlookup _, fun key => hlookup _⟩

/-- Two scopes below the program's. One of them binds a name of the program again. -/
def siblingScopes : Arena Nat Nat :=
  ⟨[⟨none, ⟨[("x", 1)]⟩, .empty⟩, ⟨some 0, .empty, .empty⟩, ⟨some 0, ⟨[("x", 2)]⟩, .empty⟩]⟩

/-- The arena of these scopes is reached by pushing both and defining in the second
one. -/
theorem arena_forms_tree_of_siblings :
    Reaches EntryReading.all (fun arena use => use.Proper arena) .initial
        [.defineVariable 0 "x" 1, .push 0, .push 0, .defineVariable 2 "x" 2] siblingScopes
      ∧ FormsTree EntryReading.all siblingScopes := by
  have hreaches : Reaches EntryReading.all (fun arena use => use.Proper arena) .initial
      [.defineVariable 0 "x" 1, .push 0, .push 0, .defineVariable 2 "x" 2] siblingScopes :=
    .cons trivial (.cons Nat.zero_lt_one (.cons Nat.zero_lt_two (.cons trivial .nil)))
  exact ⟨hreaches, arena_forms_tree hreaches⟩

end Proofs

end PlcLang
