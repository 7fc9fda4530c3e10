import PlcLang.Proofs.Scoping.Confinement
import PlcLang.Proofs.Scoping.Discipline

/-!
# `PlcLang.Proofs.Scoping.GuardedChecks`: the checker under guard

The guarded checker (`Checker.guarded`) is the checker with a guard at every expression, statement,
block and method, as the guarded interpreter has them.

Besides, it may be told how deeply its recursion goes: from an expression or statement
to its parts the depth goes down by one, and at the end of it the checker gives up with
an error of its own, wherever it is. With `none` for the depth it never does.

The guards see nothing, neither of the checker that goes on to the end nor of one that
gives up: `keeps_guarded_program`.
-/

set_option autoImplicit false

namespace PlcLang.Checker

open Proofs

/-- Where a check under guard is: the current scope, and how much deeper it may go. -/
structure Level where
  scope : ScopeId
  depth : Option Nat

/-- A check under guard. It begins only if there is depth left. -/
def guard {α : Type} (alarm exhausted : CheckError) (level : Level) (x : Check α) : Check α :=
  Proofs.guarded Arena.parents alarm level.scope
    (if level.depth = some 0 then throw exhausted else x)

/-- The checker under guard, within a depth: at every expression and statement, and around and
inside of everything that has a scope of its own. -/
def guarded (alarm exhausted : CheckError) (depth : Option Nat) : Checker Note Level where
  scope level := level.scope
  root := ⟨Arena.root, depth⟩
  deeper level := { level with depth := level.depth.map (· - 1) }
  inside index level := { level with scope := index }
  look _ := pure id
  part level x := guard alarm exhausted level x

variable {α β : Type} {alarm exhausted : CheckError} {depth : Option Nat} {level : Level}

/-- The second check is the first one under guard, within a depth. -/
abbrev KeepsCheck (exhausted : CheckError) (level : Level) (x y : Check α) : Prop :=
  Keeps Arena.parents (level.depth.map fun _ => exhausted) level.scope x y

/-! ### Guards -/

/-- A check is put under guard where it is in order, and gives up where no depth is left. -/
theorem keeps_guard {x y : Check α} (h : KeepsCheck exhausted level x y) :
    KeepsCheck exhausted level x (guard alarm exhausted level y) := by
  refine .guarded alarm ?_
  by_cases hdepth : level.depth = some 0
  · rw [if_pos hdepth]
    exact .give_up (by simp [hdepth])
  · rwa [if_neg hdepth]

/-- Deeper in the tree a check gives up with the same error, if it does. -/
theorem keeps_of_deeper {x y : Check α}
    (h : KeepsCheck exhausted ((guarded alarm exhausted depth).deeper level) x y) :
    KeepsCheck exhausted level x y := by
  have hcut : (level.depth.map (· - 1)).map (fun _ => exhausted)
      = level.depth.map fun _ => exhausted := by
    cases level.depth <;> rfl
  unfold KeepsCheck guarded at h
  rwa [hcut] at h

/-- What changes no symbols needs no guard. -/
theorem keeps_of_confined {x : Check α} (h : ∀ scope, Confined scope x) :
    KeepsCheck exhausted level x x := by
  refine .of_yields fun symbols horder => ?_
  have hsize : 0 < symbols.size := by
    rw [InOrder.size_eq horder]
    exact Nat.succ_pos level.scope
  refine (Confined.yields h hsize).imp ?_ ?_
  · rintro _ _ ⟨rfl, -⟩
    rfl
  · rintro _ _ rfl
    rfl

/-! ### Scopes -/

/-- What is checked in a scope of its own is checked in order if it is begun in order. The scope
that is released in the end is the one that was entered, and nothing below it is touched. -/
theorem keeps_withScope {body : ScopeId → Check α} {body' : Level → Check α}
    (h : ∀ there, KeepsCheck exhausted there (body there.scope) (body' there)) :
    KeepsCheck exhausted level (plain.withScope level.scope body)
      ((guarded alarm exhausted depth).withScope level body') := by
  have hguarded : (guarded alarm exhausted depth).withScope level body'
      = guard alarm exhausted level (plain.withScope level.scope fun index =>
          guard alarm exhausted { level with scope := index }
            (body' { level with scope := index })) := rfl
  rw [hguarded]
  refine keeps_guard fun symbols horder => ?_
  have hsize : symbols.size = symbols.parents.length := (length_parents symbols).symm
  have hentered : (symbols.push level.scope).parents = symbols.parents ++ [some level.scope] :=
    parents_push symbols level.scope
  have hleave {after : Symbols} (hafter : after.parents = symbols.parents ++ [some level.scope]) :
      ((after.release symbols.size).toOption.getD after).parents = symbols.parents := by
    refine parents_release ?_ hafter
    rw [hsize, horder.1]
    exact Nat.succ_ne_zero level.scope
  have hinside : InOrder (symbols.push level.scope).parents symbols.size := by
    rw [hentered, hsize]
    exact InOrder.push horder (Nat.le_refl _)
  obtain ⟨hsame, hparents⟩ := keeps_guard (h { level with scope := symbols.size })
    (symbols.push level.scope) hinside
  rw [hentered] at hparents
  unfold Yields at hparents ⊢
  rw [marking_withScope_apply, marking_withScope_apply]
  rcases hsame with hsame | ⟨e, he, after, hcut⟩
  · rw [hsame] at hparents ⊢
    generalize body symbols.size (symbols.push level.scope) = outcome at hparents ⊢
    cases outcome with
    | ok a after => exact ⟨.inl rfl, hleave hparents⟩
    | error e after => exact ⟨.inl rfl, hleave hparents⟩
  · rw [hcut] at hparents ⊢
    exact ⟨.inr ⟨e, he, _, rfl⟩, hleave hparents⟩

/-- To define something leaves every scope below its parent. -/
theorem parents_define {symbols after : Symbols} {index : ScopeId} {found : Option β}
    {existing? : Scope VariableSymbol FunctionSymbol → Option β}
    (add : Scope VariableSymbol FunctionSymbol → Scope VariableSymbol FunctionSymbol)
    (hadd : ∀ scope, (add scope).parent = scope.parent)
    (h : symbols.define index existing? add = .ok (found, after)) :
    after.parents = symbols.parents := by
  unfold Arena.define at h
  cases hscope : symbols.scope? index with
  | none =>
      rw [hscope] at h
      cases h
  | some scope =>
      rw [hscope] at h
      dsimp only at h
      cases hexisting : existing? scope with
      | some existing =>
          rw [hexisting] at h
          obtain ⟨-, rfl⟩ := Prod.mk.inj (Except.ok.inj h)
          rfl
      | none =>
          rw [hexisting] at h
          obtain ⟨-, rfl⟩ := Prod.mk.inj (Except.ok.inj h)
          exact parents_modify symbols index hadd

/-- Symbols are defined in scopes that are live already. The arena keeps its scopes
and their parents, so whatever the guards look at is untouched. -/
theorem keeps_defineVariable (scope : ScopeId) (symbol : VariableSymbol) (cause : CheckCause)
    (offset : Offset) :
    KeepsCheck exhausted level (plain.defineVariable scope symbol cause offset)
      (plain.defineVariable scope symbol cause offset) := by
  refine .of_yields fun symbols _ => ?_
  unfold Yields
  rw [marking_defineVariable_apply]
  cases hdefine : symbols.defineVariable scope symbol.name symbol with
  | error e => rfl
  | ok answer =>
      obtain ⟨found, after⟩ := answer
      have hparents : after.parents = symbols.parents :=
        parents_define (·.setVariable symbol.name symbol) (fun _ => rfl) hdefine
      cases found <;> exact hparents

/-- The same of the symbol of a method, which goes to the scope of the program. -/
theorem keeps_defineFunction (symbol : FunctionSymbol) (offset : Offset) :
    KeepsCheck exhausted level (plain.defineFunction symbol offset)
      (plain.defineFunction symbol offset) := by
  refine .of_yields fun symbols _ => ?_
  unfold Yields
  rw [marking_defineFunction_apply]
  cases hdefine : symbols.defineFunction Arena.root symbol.key symbol with
  | error e => rfl
  | ok answer =>
      obtain ⟨found, after⟩ := answer
      have hparents : after.parents = symbols.parents :=
        parents_define (·.setFunction symbol.key symbol) (fun _ => rfl) hdefine
      cases found <;> exact hparents

/-! ### The whole -/

/-- The guards are kept by every way in which the checker puts its parts together.
This is what lets one induction over the program, that of `Checker.Likeness`, speak
for the guarded checker: only its parts have to be looked at one by one. -/
theorem translating_keeps (level : Level) :
    Translating fun {_ _} f x y => KeepsCheck exhausted level (f <$> x) y where
  pure h := by
    rw [map_pure, h]
    exact .pure _
  bind hx hk := by
    rw [map_bind]
    exact hx.bind_map hk

/-- The checker checks as it does under guard, in every part of a check, as long as there is
depth. -/
theorem likeness_guarded (alarm exhausted : CheckError) (depth : Option Nat) (types : TypeTable) :
    Likeness plain (guarded alarm exhausted depth) Level.scope id id .same types (fun _ => True)
      fun spot {_ _} f x y => KeepsCheck exhausted spot.here (f <$> x) y where
  translating spot := translating_keeps spot.here
  ofExpression h := h
  root := rfl
  deeper _ := rfl
  faithful := Naming.faithful_same
  members := types.unlabelled_same
  -- At each node there is one level of depth less. Where none is left, the check is cut.
  expression h := keeps_guard (keeps_of_deeper h)
  statement h := keeps_guard (keeps_of_deeper h)
  look _ _ h := h id id fun note => (Note.relabel_same note).symm
  withScope h := by
    rw [map_withScope]
    exact keeps_withScope h
  reject _ cause offset _ := by
    rw [CheckCause.rename_same, Option.map_id_apply]
    exact .throw _
  wideInteger _ _ _ _ := .throw _
  unsupported _ _ _ _ offset _ := by
    rw [Option.map_id_apply]
    exact .throw _
  defineVariable level symbol cause offset _ := by
    rw [VariableSymbol.relabel_same, CheckCause.rename_same, id_map]
    exact keeps_defineVariable level.scope symbol cause offset
  defineFunction symbol offset := by
    rw [FunctionSymbol.relabel_same, id_map]
    exact keeps_defineFunction symbol offset
  findVariable level name offset := by
    rw [VariableSymbol.relabel_same, id_map]
    exact keeps_of_confined fun _ => confined_findVariable level.scope name offset
  findFunction level key offset := by
    rw [FunctionSymbol.relabel_same, id_map]
    exact keeps_of_confined fun _ => confined_findFunction level.scope key offset
  pair _ := .pure ()

/-- The guards see nothing in the check of a program. -/
theorem keeps_guarded_program (types : TypeTable) (tree : Program Offset) :
    KeepsCheck exhausted ⟨Arena.root, depth⟩ (plain.program types tree)
      ((guarded alarm exhausted depth).program types tree) := by
  have hprogram :=
    (likeness_guarded alarm exhausted depth types).program tree fun _ _ => trivial
  rwa [Program.relabel_id, funext Program.relabel_id, id_map'] at hprogram

end PlcLang.Checker
