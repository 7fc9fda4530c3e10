import PlcLang.Proofs.Typing.Likeness

/-!
# `PlcLang.Proofs.Scoping.Confinement`: what the checker leaves alone

Whatever types there are: to check an expression changes no scope, to check a statement
changes no scope but its own, and to check the body of a method changes none of those
that were there before. This is so however the check ends, since a scope that is entered
is dropped when it is left (`confined_withScope`).

* `likeness_confined`: of the parts of the checker this is known one by one, and of all that
  is put together from them it follows.
* `confined_infer`, `confined_checkMethod`: the scopes before a given one are as they were.
* `Confined.yields`: what is confined everywhere leaves the symbols as they are.
-/

set_option autoImplicit false

namespace PlcLang

/-- There are as many scopes after as before, and those before `scope` are the same. -/
structure Symbols.SameBefore (scope : ScopeId) (before after : Symbols) : Prop where
  size : after.size = before.size
  scopes : after.scopes.take scope = before.scopes.take scope

namespace Symbols.SameBefore

variable {scope : ScopeId} {before between after : Symbols}

/-- Nothing has changed. -/
theorem refl (symbols : Symbols) : symbols.SameBefore scope symbols :=
  ⟨rfl, rfl⟩

/-- What two parts leave alone both of them leave alone. -/
theorem trans (h : before.SameBefore scope between) (h' : between.SameBefore scope after) :
    before.SameBefore scope after :=
  ⟨h'.size.trans h.size, h'.scopes.trans h.scopes⟩

/-- Nothing is left to be different where all scopes come before. -/
theorem eq (h : before.SameBefore before.size after) : after = before := by
  have hafter : after.scopes.take before.size = after.scopes :=
    List.take_of_length_le (Nat.le_of_eq h.size)
  have hbefore : before.scopes.take before.size = before.scopes := List.take_length
  have hscopes : after.scopes = before.scopes := hafter.symm.trans (h.scopes.trans hbefore)
  exact congrArg Arena.mk hscopes

/-- A change of a scope leaves those before it alone. -/
theorem modify (symbols : Symbols)
    (f : Scope VariableSymbol FunctionSymbol → Scope VariableSymbol FunctionSymbol) :
    symbols.SameBefore scope (symbols.modify scope f) where
  size := List.length_modify ..
  scopes := by
    show (symbols.scopes.modify scope f).take scope = symbols.scopes.take scope
    have hlength : (symbols.scopes.take scope).length ≤ scope :=
      List.length_take_le scope symbols.scopes
    rw [List.take_modify, List.modify_eq_self hlength]

end Symbols.SameBefore

namespace Proofs

open Checker

variable {α β : Type}

/-- The computation changes no scope before `scope`, and leaves as many as there
were, however it ends. -/
def Confined (scope : ScopeId) (x : Check α) : Prop :=
  ∀ symbols, 0 < symbols.size →
    Yields x symbols (fun _ after => symbols.SameBefore scope after)
      fun _ after => symbols.SameBefore scope after

namespace Confined

variable {scope : ScopeId} {x : Check α}

/-- An answer at once changes nothing. -/
theorem pure (a : α) : Confined scope (pure a) := fun symbols _ => .refl symbols

/-- Nor does an error. -/
theorem throw (e : CheckError) : Confined scope (throw e : Check α) := fun symbols _ =>
  .refl symbols

/-- A sequence of confined parts is confined. -/
theorem bind {k : α → Check β} (h : Confined scope x) (hk : ∀ a, Confined scope (k a)) :
    Confined scope (x >>= k) :=
  fun symbols hsize => (h symbols hsize).bind fun a between hbetween =>
    (hk a between (hbetween.size ▸ hsize)).imp (fun _ _ hafter => hbetween.trans hafter)
      fun _ _ hafter => hbetween.trans hafter

/-- Reading the symbols changes nothing, and what goes on with them decides. -/
theorem get_bind {k : Symbols → Check β} (hk : ∀ symbols, Confined scope (k symbols)) :
    Confined scope (get >>= k) := fun symbols hsize => hk symbols symbols hsize

/-- What is put together of confined parts is confined. -/
theorem mapM {list : List α} {k : α → Check β} (hk : ∀ a ∈ list, Confined scope (k a)) :
    Confined scope (list.mapM k) := by
  induction list with
  | nil => exact .pure []
  | cons a rest ih =>
      obtain ⟨ha, hrest⟩ := List.forall_mem_cons.mp hk
      rw [List.mapM_cons]
      exact ha.bind fun _ => (ih hrest).bind fun _ => .pure _

/-- What changes no scope leaves the symbols as they are, also where it fails. -/
theorem yields {symbols : Symbols} (h : ∀ scope, Confined scope x) (hsize : 0 < symbols.size) :
    Yields x symbols (fun a after => after = symbols ∧ x symbols = .ok a symbols)
      fun _ after => after = symbols := by
  have hall := h symbols.size symbols hsize
  unfold Yields
  cases hx : x symbols with
  | ok a after =>
      obtain rfl := (hall.of_ok hx).eq
      exact ⟨rfl, rfl⟩
  | error e after => exact (hall.of_error hx).eq

/-- What changes no scope and succeeds leaves the symbols as they are. -/
theorem eq_of_ok (h : ∀ scope, Confined scope x) {symbols after : Symbols} {a : α}
    (hsize : 0 < symbols.size) (hx : x symbols = .ok a after) : after = symbols :=
  ((yields h hsize).of_ok hx).1

end Confined

/-! ### Scopes -/

/-- To reject changes nothing. -/
theorem confined_reject {scope : ScopeId} (cause : CheckCause) (offset : Option Offset) :
    Confined scope (reject cause offset : Check α) :=
  .throw _

/-- A definition changes at most the scope that is named. -/
theorem confined_define {scope : ScopeId}
    {existing? : Scope VariableSymbol FunctionSymbol → Option β}
    {add : Scope VariableSymbol FunctionSymbol → Scope VariableSymbol FunctionSymbol}
    {symbols after : Symbols} {found : Option β}
    (h : symbols.define scope existing? add = .ok (found, after)) :
    symbols.SameBefore scope after := by
  unfold Arena.define at h
  split at h
  · cases h
  · split at h
    · cases h
      exact .refl symbols
    · cases h
      exact .modify symbols add

/-- A variable is defined in the scope that is named, and in no other. -/
theorem confined_defineVariable (scope : ScopeId) (symbol : VariableSymbol) (cause : CheckCause)
    (offset : Offset) : Confined scope (plain.defineVariable scope symbol cause offset) := by
  intro symbols _
  unfold Yields
  rw [marking_defineVariable_apply]
  cases hdefine : symbols.defineVariable scope symbol.name symbol with
  | error e => exact .refl symbols
  | ok answer =>
      obtain ⟨found, after⟩ := answer
      cases found <;> exact confined_define hdefine

/-- A function is defined in the program's scope. -/
theorem confined_defineFunction (symbol : FunctionSymbol) (offset : Offset) :
    Confined Arena.root (plain.defineFunction symbol offset) := by
  intro symbols _
  unfold Yields
  rw [marking_defineFunction_apply]
  cases hdefine : symbols.defineFunction Arena.root symbol.key symbol with
  | error e => exact .refl symbols
  | ok answer =>
      obtain ⟨found, after⟩ := answer
      cases found <;> exact confined_define hdefine

/-- To look for a variable changes nothing, from wherever it is looked for. -/
theorem confined_findVariable {scope : ScopeId} (seen : ScopeId) (name : String)
    (offset : Offset) : Confined scope (plain.findVariable seen name offset) := by
  rw [marking_findVariable]
  refine .get_bind fun symbols => ?_
  cases symbols.boundVariable? seen name with
  | some symbol => exact .pure symbol
  | none => exact confined_reject _ _

/-- To look for a function changes nothing, from wherever it is looked for. -/
theorem confined_findFunction {scope : ScopeId} (seen : ScopeId) (key : FunctionKey)
    (offset : Offset) : Confined scope (plain.findFunction seen key offset) := by
  rw [marking_findFunction]
  refine .get_bind fun symbols => ?_
  cases symbols.boundFunction? seen key with
  | some symbol => exact .pure symbol
  | none => exact confined_reject _ _

/-- The scope that is entered is the last, and is dropped with all that it holds. So
it may be changed. -/
theorem confined_withScope {parent : ScopeId} {body : ScopeId → Check α}
    (h : ∀ inner, Confined inner (body inner)) (scope : ScopeId) :
    Confined scope (plain.withScope parent body) := by
  intro symbols hsize
  -- What the body may change is the scope that was entered and those behind it, and they are
  -- dropped.
  have hleave {after : Symbols}
      (hafter : Symbols.SameBefore symbols.size (symbols.push parent) after) :
      (after.release symbols.size).toOption.getD after = symbols := by
    have hroot : symbols.size ≠ Arena.root := Nat.ne_of_gt hsize
    have hscopes : after.scopes.take symbols.size = symbols.scopes :=
      hafter.scopes.trans List.take_left
    unfold Arena.release
    rw [if_neg hroot]
    exact congrArg Arena.mk hscopes
  have hpushed : 0 < (symbols.push parent).size := by
    simp [Arena.push, Arena.size]
  have hbody := h symbols.size (symbols.push parent) hpushed
  unfold Yields
  rw [marking_withScope_apply]
  cases hresult : body symbols.size (symbols.push parent) with
  | ok a after =>
      dsimp only
      rw [hleave (hbody.of_ok hresult)]
      exact .refl symbols
  | error e after =>
      dsimp only
      rw [hleave (hbody.of_error hresult)]
      exact .refl symbols

/-! ### The whole -/

/-- What a part of a check leaves alone: an expression all scopes, and a statement those before
its own. -/
def Leaves : Spot ScopeId → Check α → Prop
  | .expression _, x => ∀ scope, Confined scope x
  | .statement scope, x => Confined scope x

/-- What is said here is said of the first of two checks alone. -/
structure LeavesFirst (spot : Spot ScopeId) {α β : Type} (_f : α → β) (x : Check α)
    (_y : Check β) : Prop where
  left : Leaves spot x

/-- What is said wherever a check is, is said of an expression and of statements. -/
theorem LeavesFirst.everywhere {spot : Spot ScopeId} {f : α → β} {x : Check α} {y : Check β}
    (h : ∀ scope, Confined scope x) : LeavesFirst spot f x y := by
  cases spot with
  | expression _ => exact ⟨h⟩
  | statement scope => exact ⟨h scope⟩

/-- What is said of the parts of a check is said of the check that is put together
of them. -/
theorem translating_leavesFirst (spot : Spot ScopeId) :
    Translating (fun {_ _} f x y => LeavesFirst spot f x y) where
  pure _ := .everywhere fun _ => .pure _
  bind hx hk := by
    cases spot with
    | expression _ =>
        exact ⟨fun scope => (hx.left scope).bind fun a => (hk a).left scope⟩
    | statement _ => exact ⟨Confined.bind hx.left fun a => (hk a).left⟩

/-- What is said of checks is said of the plain checker, in every part of a check. The comparison
is with itself, for there is nothing to compare. -/
theorem likeness_confined (types : TypeTable) :
    Likeness plain plain id (Note.relabel id .same) id .same types (fun _ => True)
      fun spot {_ _} f x y => LeavesFirst spot f x y where
  translating := translating_leavesFirst
  ofExpression h := ⟨h.left _⟩
  root := rfl
  deeper _ := rfl
  faithful := Naming.faithful_same
  members := types.unlabelled_same
  expression h := h
  statement h := h
  look _ _ h := h id id fun _ => rfl
  withScope h := ⟨confined_withScope fun inner => (h inner).left⟩
  reject _ _ _ _ := .everywhere fun _ => confined_reject _ _
  wideInteger _ _ _ _ := .everywhere fun _ => confined_reject _ _
  unsupported _ _ _ _ _ _ := .everywhere fun _ => confined_reject _ _
  defineVariable scope symbol cause offset _ :=
    ⟨confined_defineVariable scope symbol cause offset⟩
  defineFunction symbol offset := ⟨confined_defineFunction symbol offset⟩
  findVariable seen name offset := .everywhere fun _ => confined_findVariable seen name offset
  findFunction seen key offset := .everywhere fun _ => confined_findFunction seen key offset
  pair _ := .everywhere fun _ => .pure ()

section

variable {types : TypeTable} {scope : ScopeId}

/-- The type of an expression is found without a change, seen from any scope. -/
theorem confined_infer (seen : ScopeId) (e : Expr Offset) :
    Confined scope (plain.infer types seen e) :=
  ((likeness_confined types).infer seen e fun _ _ => trivial).left scope

/-- A type is looked up in the table of types, and no scope is asked. -/
theorem confined_resolveType (name : String) (offset : Offset) :
    Confined scope (resolveType types name offset) :=
  ((likeness_confined types).resolveType (.expression scope) name offset).left scope

/-- To compare two types changes nothing. -/
theorem confined_require (expected found : Ty) (offset : Offset) :
    Confined scope (require types expected found offset) :=
  ((likeness_confined types).require (.expression scope) expected found offset).left scope

/-- A field defines its variable in the program's scope. -/
theorem confined_checkField (field : Field Offset) :
    Confined Arena.root (plain.checkField types field) :=
  ((likeness_confined types).checkField field fun _ _ => trivial).left

/-- A method's body is checked in a scope of its own, and leaves no trace. -/
theorem confined_checkMethod (method : Method Offset) (symbol : FunctionSymbol) :
    Confined scope (plain.checkMethod types method symbol) :=
  ((likeness_confined types).checkMethod method symbol fun _ _ => trivial).left scope

/-- To look for the method that a program starts with changes nothing. -/
theorem confined_checkMain (methods : List (Method Offset × FunctionSymbol)) :
    Confined scope (checkMain methods) :=
  ((likeness_confined .builtin).checkMain (.expression scope) methods).left scope

end

end Proofs

end PlcLang
