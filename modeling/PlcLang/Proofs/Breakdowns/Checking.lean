import PlcLang.Proofs.Breakdowns.Exactness
import PlcLang.Proofs.Scoping.GuardedChecks

/-!
# `PlcLang.Proofs.Breakdowns.Checking`: the checker never breaks down

The exacting checker (`Checker.exacting`) is the checker with an alarm at each place where
something must be there: the scopes that a look-up visits, the scope in which a name is defined, a
scope that is to be released, the type that a declaration has in the end, and a symbol for each
method whose body is checked. The alarm is raised, too, where an expression is rejected for being
none of the language, or with a message that shows an integer of more digits than can be written
out.

On a tree of expressions of the language (`Native`) the alarm is never raised: the
exacting checker does what the checker does (`exact_program`). And the checker
rejects such a tree for a rule of the language only (`proper_of_check_eq_error`).
-/

set_option autoImplicit false

namespace PlcLang

/-- The error is about a program of the language: no expression of another kind has
come to the checker. The checker has an error for such expressions too, since a tree
that is built by hand may hold them. -/
def CheckError.Proper (e : CheckError) : Prop :=
  ∀ kind, e.cause ≠ .unsupported kind

namespace Checker

open Proofs

variable {α β : Type} {alarm : CheckError} {types : TypeTable} {current : ScopeId}

/-! ### The exacting checker -/

/-- Raises the alarm where a use of the scopes is a misuse. What the use would
answer does not matter: it is asked for by the checker itself, after the alarm has
had its chance. -/
def demand (alarm : CheckError) (answer : Except ArenaError β) : Check Unit :=
  match answer with
  | .ok _ => pure ()
  | .error _ => throw alarm

/-- Raises the alarm where something is missing that must be there at this moment:
the scope that is defined in or released, the scopes that a look-up visits, or an
integer short enough to be shown in a message. -/
def demandAt (alarm : CheckError) : Moment → Check Unit
  | .define scope => do
    if ((← get).scope? scope).isSome then pure () else throw alarm
  | .release scope => do demand alarm ((← get).release scope)
  | .access name scope => do demand alarm ((← get).lookupVariable scope name)
  | .find key scope => do demand alarm ((← get).lookupFunction scope key)
  | .complain (.wideInteger value) => if Showable value then pure () else throw alarm
  | .complain _ => throw alarm
  | .untyped => throw alarm
  | .pair methods symbols => if methods = symbols then pure () else throw alarm

/-- The checker that takes nothing for granted. It is the plain one but for what it
does before it touches the scopes or complains. -/
def exacting (alarm : CheckError) : Checker Note ScopeId :=
  { plain with before := demandAt alarm }

/-- Where the scopes are a stack with `current` as the last one, `y` does what `x`
does, leaves them such a stack, and fails properly only. -/
abbrev ExactCheck (current : ScopeId) (x y : Check α) : Prop :=
  Exact (fun symbols => InOrder symbols.parents current) CheckError.Proper x y

/-! ### What must be there is there -/

/-- The alarm is not raised where it can be seen of all stacks of scopes that
nothing is missing. What follows gives such a reason for each kind of moment. -/
theorem exact_before {moment : Moment}
    (h : ∀ symbols : Symbols, InOrder symbols.parents current →
      demandAt alarm moment symbols = .ok () symbols) :
    ExactCheck current (pure ()) ((exacting alarm).before moment) :=
  fun symbols horder => ⟨h symbols horder, horder⟩

/-- The scope in which a name is defined is there, because it is the last one of the
stack. -/
theorem exact_define :
    ExactCheck current (pure ()) ((exacting alarm).before (.define current)) := by
  refine exact_before fun symbols horder => ?_
  obtain ⟨scope, hscope⟩ := InOrder.exists_scope? horder (Nat.le_refl current)
  show (if (symbols.scope? current).isSome then pure () else throw alarm : Check Unit) symbols = _
  rw [hscope]
  rfl

/-- A variable is looked up in scopes that are there: each has its parent below it
in the stack. -/
theorem exact_access (name : String) :
    ExactCheck current (pure ()) ((exacting alarm).before (.access name current)) := by
  refine exact_before fun symbols horder => ?_
  obtain ⟨found, hlookup, -⟩ := exists_lookupVariable horder name
  show demand alarm (symbols.lookupVariable current name) symbols = _
  rw [hlookup]
  rfl

/-- A function is looked up in the same scopes, along the same chain. -/
theorem exact_find (key : FunctionKey) :
    ExactCheck current (pure ()) ((exacting alarm).before (.find key current)) := by
  refine exact_before fun symbols horder => ?_
  obtain ⟨found, hlookup, -⟩ := exists_lookupFunction horder key
  show demand alarm (symbols.lookupFunction current key) symbols = _
  rw [hlookup]
  rfl

/-! ### The parts of the checker -/

/-- Fails for a rule of the language. That is proper, unless it is for the kind of
an expression. -/
theorem exact_reject {cause : CheckCause} {offset : Option Offset}
    (h : ∀ kind, cause ≠ .unsupported kind) :
    ExactCheck current (reject cause offset : Check α) (reject cause offset) :=
  .throw h

/-- The scope that was entered is there to be released, and the one below is left.
The body is run with the new scope as the last one of the stack. -/
theorem exact_withScope {body body' : ScopeId → Check α}
    (h : ∀ inner, ExactCheck inner (body inner) (body' inner)) :
    ExactCheck current (plain.withScope current body)
      ((exacting alarm).withScope current body') := by
  intro symbols horder
  have hsize : symbols.size = current + 1 := InOrder.size_eq horder
  have hleave (after : Symbols) : (exacting alarm).leave (current + 1) after
      = .ok () ((after.release (current + 1)).toOption.getD after) := by
    show (demand alarm (after.release (current + 1)) >>= fun _ =>
      modify fun symbols => (symbols.release (current + 1)).toOption.getD symbols) after = _
    rw [release_succ]
    rfl
  have hstands {after : Symbols} (hafter : InOrder after.parents (current + 1)) :
      InOrder (Arena.parents ((after.release (current + 1)).toOption.getD after)) current := by
    rw [release_succ]
    exact inOrder_take hafter
  obtain ⟨hsame, hyields⟩ := h (current + 1) _ (inOrder_push horder (Nat.le_refl current))
  have hentered : (exacting alarm).withScope current body' symbols
      = always (body' (current + 1)) ((exacting alarm).leave (current + 1))
        (symbols.push current) := by
    rw [← hsize]
    rfl
  unfold Yields at hyields ⊢
  rw [marking_withScope_apply, hentered, hsize, always, hsame]
  cases hresult : body (current + 1) (symbols.push current) with
  | ok a after =>
      rw [hresult] at hyields
      exact ⟨bind_eq_of_ok (hleave after) _, hstands hyields⟩
  | error e after =>
      rw [hresult] at hyields
      exact ⟨bind_eq_of_ok (hleave after) _, hyields.1, hstands hyields.2⟩

/-- A variable is defined in a scope that is there, and the scopes are a stack as
before. The cause is the caller's, for a name that is taken. -/
theorem exact_defineVariable (symbol : VariableSymbol) (cause : CheckCause) (offset : Offset)
    (hcause : ∀ kind, cause ≠ .unsupported kind) :
    ExactCheck current (plain.defineVariable current symbol cause offset)
      ((exacting alarm).defineVariable current symbol cause offset) := by
  refine .guarded (y := plain.defineVariable current symbol cause offset) exact_define
    fun symbols horder => ?_
  obtain ⟨found, after, hdefine⟩ : ∃ found after,
      symbols.defineVariable current symbol.name symbol = .ok (found, after) :=
    exists_define horder _ _
  have hparents : after.parents = symbols.parents :=
    parents_define (·.setVariable symbol.name symbol) (fun _ => rfl) hdefine
  have hafter : InOrder after.parents current := hparents ▸ horder
  unfold Yields
  rw [marking_defineVariable_apply, hdefine]
  cases found with
  | some existing => exact ⟨rfl, hcause, hafter⟩
  | none => exact ⟨rfl, hafter⟩

/-- A function is defined among the program's own names, and the scopes are a stack
as before. -/
theorem exact_defineFunction (symbol : FunctionSymbol) (offset : Offset) :
    ExactCheck Arena.root (plain.defineFunction symbol offset)
      ((exacting alarm).defineFunction symbol offset) := by
  refine .guarded (y := plain.defineFunction symbol offset) exact_define fun symbols horder => ?_
  obtain ⟨found, after, hdefine⟩ : ∃ found after,
      symbols.defineFunction Arena.root symbol.key symbol = .ok (found, after) :=
    exists_define horder _ _
  have hparents : after.parents = symbols.parents :=
    parents_define (·.setFunction symbol.key symbol) (fun _ => rfl) hdefine
  have hafter : InOrder after.parents Arena.root := hparents ▸ horder
  unfold Yields
  rw [marking_defineFunction_apply, hdefine]
  cases found with
  | some existing => exact ⟨rfl, nofun, hafter⟩
  | none => exact ⟨rfl, hafter⟩

/-- A variable is found where it was defined, or the name is unknown, which is a
proper error. -/
theorem exact_findVariable (name : String) (offset : Offset) :
    ExactCheck current (plain.findVariable current name offset)
      ((exacting alarm).findVariable current name offset) := by
  refine .guarded (y := plain.findVariable current name offset) (exact_access name) ?_
  rw [marking_findVariable]
  refine .get_bind fun symbols _ => ?_
  cases symbols.boundVariable? current name with
  | some symbol => exact .pure symbol
  | none => exact exact_reject nofun

/-- A function is found where it was defined, or none of this name and number of
parameters is known. -/
theorem exact_findFunction (key : FunctionKey) (offset : Offset) :
    ExactCheck current (plain.findFunction current key offset)
      ((exacting alarm).findFunction current key offset) := by
  refine .guarded (y := plain.findFunction current key offset) (exact_find key) ?_
  rw [marking_findFunction]
  refine .get_bind fun symbols _ => ?_
  cases symbols.boundFunction? current key with
  | some symbol => exact .pure symbol
  | none => exact exact_reject nofun

/-- An integer of the language can be shown in the message that calls it too wide:
the parser reads none that is longer than what can be written out. -/
theorem exact_wideInteger {value : Int} (hshowable : Showable value) (offset : Option Offset) :
    ExactCheck current (plain.complain (.wideInteger value) offset : Check α)
      ((exacting alarm).complain (.wideInteger value) offset) := by
  refine .guarded (exact_before fun symbols _ => ?_) (exact_reject nofun)
  show (if Showable value then pure () else throw alarm : Check Unit) symbols = _
  rw [if_pos hshowable]
  rfl

/-! ### The whole -/

/-- Two checks that agree when the answer of the first is translated can be put
behind each other, which is all that the walk over the tree needs to know. -/
theorem translating_exact (current : ScopeId) :
    Translating fun {_ _} f x y => ExactCheck current (f <$> x) y where
  pure h := by
    rw [map_pure, h]
    exact .pure _
  bind hx hk := by
    rw [map_bind]
    exact hx.bind_map hk

/-- Nothing is missing in any part of a check, on expressions of the language. The
exacting checker is like the plain one at every node, so that they are alike on
whole trees. -/
theorem likeness_exacting (alarm : CheckError) (types : TypeTable) :
    Likeness plain (exacting alarm) id id id .same types Expr.IsNative
      fun spot {_ _} f x y => ExactCheck spot.here (f <$> x) y where
  translating spot := translating_exact spot.here
  ofExpression h := h
  root := rfl
  deeper _ := rfl
  faithful := Naming.faithful_same
  members := types.unlabelled_same
  expression h := h
  statement h := h
  look _ _ h := h id id fun note => (Note.relabel_same note).symm
  withScope h := by
    rw [map_withScope]
    exact exact_withScope h
  reject _ cause offset h := by
    rw [CheckCause.rename_same, Option.map_id_apply]
    exact exact_reject h
  wideInteger _ _ _ h := exact_wideInteger h _
  -- An expression that was read from a text is of the language.
  unsupported _ _ _ _ _ h := h.elim
  defineVariable _ symbol cause offset h := by
    rw [VariableSymbol.relabel_same, CheckCause.rename_same, id_map]
    exact exact_defineVariable symbol cause offset h
  defineFunction symbol offset := by
    rw [FunctionSymbol.relabel_same, id_map]
    exact exact_defineFunction symbol offset
  findVariable _ name offset := by
    rw [VariableSymbol.relabel_same, id_map]
    exact exact_findVariable name offset
  findFunction _ key offset := by
    rw [FunctionSymbol.relabel_same, id_map]
    exact exact_findFunction key offset
  -- There is a symbol for each header, so methods and symbols are paired without a rest.
  pair count := exact_before fun symbols _ => by
    show (if count = count then pure () else throw alarm : Check Unit) symbols = _
    rw [if_pos rfl]
    rfl

/-- A program of the language is checked as by the exacting checker, by the walk
over its tree. -/
theorem exact_program (tree : Program Offset) (h : Native tree.exprs) :
    ExactCheck Arena.root (plain.program types tree) ((exacting alarm).program types tree) := by
  have hprogram := (likeness_exacting alarm types).program tree h
  rwa [Program.relabel_id, funext Program.relabel_id, id_map'] at hprogram

/-- On a tree of expressions of the language the alarm is not raised: the exacting
checker accepts what the checker accepts, with the same notes, and rejects the rest
with the same error. -/
theorem alone_exacting_eq (alarm : CheckError) {tree : Program Offset} (h : Native tree.exprs) :
    alone ((exacting alarm).program .builtin tree) = check tree := by
  have hprogram : ExactCheck Arena.root (plain.program .builtin tree)
      ((exacting alarm).program .builtin tree) := exact_program tree h
  rw [check, alone, alone, (hprogram initialSymbols inOrder_root).1]

/-- A tree of expressions of the language is rejected for a rule of the language
only. -/
theorem proper_of_check_eq_error {tree : Program Offset} {e : CheckError}
    (h : Native tree.exprs) (hcheck : check tree = .error e) : e.Proper := by
  -- any alarm will do, since it is not raised
  have hprogram : ExactCheck Arena.root (plain.program .builtin tree)
      ((exacting e).program .builtin tree) := exact_program tree h
  obtain ⟨-, hyields⟩ := hprogram initialSymbols inOrder_root
  unfold check alone at hcheck
  cases hresult : plain.program .builtin tree initialSymbols with
  | ok checked symbols =>
      rw [hresult] at hcheck
      cases hcheck
  | error found symbols =>
      rw [hresult] at hcheck
      obtain rfl : found = e := Except.error.inj hcheck
      exact (hyields.of_error hresult).1

end Checker

end PlcLang
