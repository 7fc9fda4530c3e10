import PlcLang.Proofs.Scoping.Discipline

/-!
# `PlcLang.Proofs.Scoping.GuardedRuns`: the interpreter under guard

The guarded interpreter is the interpreter with a guard at every expression, statement,
block and call: when it is come upon, the current scope must be the last one and every
scope must stand behind its parent, and when it is left, in whatever way, the scopes
must be those that it was come upon with. A block has two guards, one around it and
one for what is inside, where the scope of the block is the current one.

The guards see nothing: `keeps_guarded_program`.
-/

set_option autoImplicit false

namespace PlcLang

/-- The parents of a machine's live scopes. -/
def Machine.parents (machine : Machine) : List (Option ScopeId) :=
  machine.scopes.parents

namespace Interpreter

open Proofs

/-- The interpreter under guard: at every expression and statement, and around and inside of
everything that has a scope of its own. -/
def guarded (alarm : Stop) : Interpreter Offset Stop Machine :=
  { plain with
    expression := fun _ scope x => Proofs.guarded Machine.parents alarm scope x
    statement := fun _ scope x => Proofs.guarded Machine.parents alarm scope x
    block := fun scope x => Proofs.guarded Machine.parents alarm scope x }

variable {α : Type} {alarm : Stop} {current : ScopeId}

/-- The second computation is the first one under guard. -/
abbrev KeepsRun (current : ScopeId) (x y : Run α) : Prop :=
  Keeps Machine.parents none current x y

/-- What leaves the scopes alone needs no guard. -/
theorem keeps_of_steady {x : Run α} (h : Steady x) : KeepsRun current x x := by
  refine .of_yields fun machine horder => ?_
  have hlive : machine.scopes.parents ≠ [] := by
    intro hnil
    have hlength := horder.1
    rw [show Machine.parents machine = [] from hnil] at hlength
    cases hlength
  exact (h machine).imp (fun _ _ hafter => hafter.parents_eq hlive)
    fun _ _ hafter => hafter.parents_eq hlive

/-- What runs in a scope of its own is run in order if it is begun in order. The scope that is
released in the end is the one that was entered, and nothing below it is touched. -/
theorem keeps_withScope {parent : ScopeId} {body body' : ScopeId → Run α}
    (hparent : parent ≤ current) (h : ∀ inner, KeepsRun inner (body inner) (body' inner)) :
    KeepsRun current (plain.withScope current parent body)
      ((guarded alarm).withScope current parent body') := by
  have hguarded : (guarded alarm).withScope current parent body'
      = Proofs.guarded Machine.parents alarm current (plain.withScope current parent
          fun inner => Proofs.guarded Machine.parents alarm inner (body' inner)) := rfl
  rw [hguarded]
  refine .guarded alarm fun machine horder => ?_
  have hsize : machine.scopes.size = machine.parents.length := (length_parents machine.scopes).symm
  have hentered : Machine.parents (machine.enter parent) = machine.parents ++ [some parent] :=
    parents_push machine.scopes parent
  have hleave {after : Machine} (hafter : after.parents = machine.parents ++ [some parent]) :
      Machine.parents (after.leave machine.scopes.size) = machine.parents := by
    refine parents_release ?_ hafter
    rw [hsize, horder.1]
    exact Nat.succ_ne_zero current
  have hinside : InOrder (Machine.parents (machine.enter parent)) machine.scopes.size := by
    rw [hentered, hsize]
    exact InOrder.push horder hparent
  have hbody := (h machine.scopes.size).guarded alarm
  have hsame := hbody.eq_of_none hinside
  have hparents := (hbody _ hinside).2
  rw [hentered] at hparents
  unfold Yields at hparents ⊢
  rw [plain_withScope_apply, plain_withScope_apply]
  rw [hsame] at hparents ⊢
  generalize body machine.scopes.size (machine.enter parent) = outcome at hparents ⊢
  cases outcome with
  | ok a after => exact ⟨.inl rfl, hleave hparents⟩
  | error e after => exact ⟨.inl rfl, hleave hparents⟩

/-- What comes after a look-up. -/
theorem keeps_bind_callee {x : Run Callable} {next next' : Callable → Run α} (h : Steady x)
    (hnext : ∀ callee : Callable, True →
      KeepsRun current (next callee) (next' (callee.relabel id .same))) :
    KeepsRun current (x >>= next) (x >>= next') := by
  refine (keeps_of_steady h).bind fun callee => ?_
  have hcallee := hnext callee trivial
  rwa [Callee.relabel_id] at hcallee

/-- The interpreter runs as it does under guard, in every part of a run. -/
theorem likeness_guarded (alarm : Stop) :
    Likeness plain (guarded alarm) id .same (.none Offset)
      fun part {_} x y => KeepsRun part.scope x y where
  compositional _ := Keeps.compositional
  ofExpression h := h
  ofStatement h := h
  expression _ _ _ _ h := h.guarded alarm
  statement _ _ _ _ h := h.guarded alarm
  block h := keeps_withScope (Nat.le_refl _) h
  -- The scope of a method lies below the root, wherever it is called from.
  method h := keeps_withScope (Nat.zero_le _) h
  tooDeep _ := .throw _
  tooLong _ := .throw _
  fault _ _ _ m? _ := by
    rw [Option.map_id]
    exact .throw _
  foreign _ _ _ _ _ _ m? := by
    rw [Option.map_id]
    exact .throw _
  bind _ _ _ := keeps_of_steady (steady_bind _ _ _)
  readVariable _ _ _ := keeps_of_steady (steady_readVariable _ _ _)
  writeVariable _ _ _ _ := keeps_of_steady (steady_writeVariable _ _ _ _)
  readField _ _ _ _ := keeps_of_steady (steady_readField _ _ _)
  writeField _ _ _ _ _ := keeps_of_steady (steady_writeField _ _ _ _)
  findFunction _ _ _ _ _ h := keeps_bind_callee (steady_findFunction _ _ _) h
  findMethod _ _ _ _ _ _ h :=
    (keeps_of_steady (steady_findMethod _ _ _)).bind fun run => h run trivial
  called _ _ _ := .pure ()
  callHost _ _ _ _ := keeps_of_steady (steady_callHost _ _)
  printLine _ _ _ _ _ := keeps_of_steady (steady_printLine _)
  applyOperator _ _ _ _ _ _ _ := keeps_of_steady (steady_applyOperator _ _ _ _ _ _)
  define _ := by
    rw [Method.relabel_id]
    exact keeps_of_steady (steady_defineMethod _)
  findMain h := keeps_bind_callee steady_findMain h
  result value := keeps_of_steady (steady_inRange value.display)

/-- The guards see nothing in a program's run. -/
theorem keeps_guarded_program (limits : Limits) (tree : Program Offset) :
    KeepsRun Arena.root (plain.program limits tree) ((guarded alarm).program limits tree) := by
  have hprogram := (likeness_guarded alarm).program limits tree fun _ _ => trivial
  rwa [Program.relabel_id] at hprogram

end Interpreter

end PlcLang
