import PlcLang.Proofs.Execution.Erasure

/-!
# `PlcLang.Proofs.Execution.Returning`: bodies that cannot fall through

A body returns for certain if a `RETURN` stands in it at its own level, or a conditional
both branches of which return for certain (`Stmt.anyReturns`). A loop does not count, since
it may have no round.

Whether a body returns for certain is read off its text. When it is run and comes to its
end, it has come there with a value (`isSome_runAll`), whatever the machine is like before.
-/

set_option autoImplicit false

namespace PlcLang

variable {α β : Type}

namespace Stmt

mutual

/-- The statement returns for certain: it is a `RETURN`, or a conditional both
branches of which return for certain. -/
def returns : Stmt α → Bool
  | result .. => true
  | cond _ _ thenBody elseBody => anyReturns thenBody && anyReturns elseBody
  | expression .. | declare .. | assign .. | forIn .. | whileDo .. | foreign .. => false

/-- Some statement of the list returns for certain. What stands behind it is never
run. -/
def anyReturns : List (Stmt α) → Bool
  | [] => false
  | s :: rest => s.returns || anyReturns rest

end

mutual

/-- Marks say nothing about what returns. -/
theorem returns_map (f : α → β) : ∀ s : Stmt α, (s.map f).returns = s.returns
  | expression .. | declare .. | assign .. | forIn .. | whileDo .. | result .. | foreign .. => rfl
  | cond _ _ thenBody elseBody => by
      rw [map, returns, anyReturns_mapAll f thenBody, anyReturns_mapAll f elseBody, returns]

/-- They say nothing about lists of statements either. -/
theorem anyReturns_mapAll (f : α → β) :
    ∀ list : List (Stmt α), anyReturns (mapAll f list) = anyReturns list
  | [] => rfl
  | s :: rest => by rw [mapAll, anyReturns, returns_map f s, anyReturns_mapAll f rest, anyReturns]

end

end Stmt

/-- The method returns for certain, since its body does. -/
def Method.returns (method : Method α) : Bool :=
  Stmt.anyReturns method.body

/-- Its mark says nothing about that. -/
theorem Method.returns_map (f : α → β) (method : Method α) :
    (method.map f).returns = method.returns :=
  Stmt.anyReturns_mapAll f method.body

namespace Proofs

open Interpreter

/-- The computation stops early, or it ends with a value that is returned. -/
def Returns (x : Watch α (Option Value)) : Prop :=
  ∀ scene, Yields x scene (fun outcome _ => outcome.isSome = true) fun _ _ => True

/-- A statement of the list that returns is come to, unless one before it returns. -/
theorem returns_runAll {execute : Stmt α → Watch α (Option Value)} {body : List (Stmt α)}
    (hexec : ∀ s : Stmt α, s.returns = true → Returns (execute s))
    (hbody : Stmt.anyReturns body = true) : Returns (runAll execute body) := by
  induction body with
  | nil =>
      rw [Stmt.anyReturns] at hbody
      cases hbody
  | cons s rest ih =>
      intro scene
      unfold runAll
      rw [Stmt.anyReturns, Bool.or_eq_true] at hbody
      rcases hbody with hs | hrest
      · refine (hexec s hs scene).bind fun outcome after houtcome => ?_
        cases outcome with
        | some v => exact Yields.pure rfl
        | none => cases houtcome
      · refine Yields.somehow.bind fun outcome after _ => ?_
        cases outcome with
        | some v => exact Yields.pure rfl
        | none => exact ih hrest after

/-- What returns in a scope of its own has returned when the scope is left. -/
theorem returns_withScope (place : α → Offset) {current parent : ScopeId}
    {body : ScopeId → Watch α (Option Value)} (hbody : ∀ scope, Returns (body scope)) :
    Returns ((watched place).withScope current parent body) := by
  intro scene
  have hinner :=
    hbody scene.scopes.size { scene with toMachineOf := scene.toMachineOf.enter parent }
  unfold Yields at hinner ⊢
  rw [withScope_apply (watched place) (fun _ _ => rfl) (fun _ => rfl), watched_machine,
    watched_update]
  cases hrun : body scene.scopes.size
      { scene with toMachineOf := scene.toMachineOf.enter parent } with
  | ok outcome after =>
      rw [hrun] at hinner
      exact hinner
  | error halt after => exact trivial

/-- However deep the evaluation may nest, a statement that returns for certain does.
The induction is on the depth, and the statement is a `RETURN` or a conditional. -/
theorem returns_execute (place : α → Offset) (rounds depth : Nat) (scope : ScopeId)
    {s : Stmt α} (hs : s.returns = true) :
    Returns ((watched place).execute rounds depth scope s) := by
  induction depth generalizing scope s with
  | zero =>
      intro scene
      unfold execute
      exact Yields.somehow.bind fun _ entered _ => Yields.throw trivial
  | succ depth ih =>
      intro scene
      unfold execute
      refine Yields.somehow.bind fun _ entered _ => ?_
      cases s with
      | result m value => exact Yields.somehow.map fun _ _ _ => rfl
      | cond m condition thenBody elseBody =>
          rw [Stmt.returns, Bool.and_eq_true] at hs
          refine Yields.somehow.bind fun value tested _ => ?_
          refine Yields.somehow.bind fun truth chosen _ => ?_
          -- Whichever branch is chosen, it returns for certain.
          refine returns_withScope place (fun inner => ?_) chosen
          cases truth with
          | true => exact returns_runAll (fun s hs => ih inner hs) hs.1
          | false => exact returns_runAll (fun s hs => ih inner hs) hs.2
      | expression | declare | assign | forIn | whileDo | foreign =>
          rw [Stmt.returns] at hs
          cases hs

/-- A body that returns for certain does not fall through. -/
theorem isSome_runAll (place : α → Offset) (rounds depth : Nat) (scope : ScopeId)
    {body : List (Stmt α)} (hbody : Stmt.anyReturns body = true) :
    Returns (runAll ((watched place).execute rounds depth scope) body) :=
  returns_runAll (fun _ hs => returns_execute place rounds depth scope hs) hbody

end Proofs

end PlcLang
