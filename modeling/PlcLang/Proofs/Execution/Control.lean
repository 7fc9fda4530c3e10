import PlcLang.Execution.Interpreter
import PlcLang.Proofs.Computations

/-!
# `PlcLang.Proofs.Execution.Control`: control, for whatever is said of two runs

Two interpreters put a run together in the same way, from parts in which they may differ. What
is said of two runs differs, but where it is `Compositional` it is said of what control makes of
parts as soon as it is said of the parts: of statements that are run one after the other
(`runAll`), of rounds (`whileTrue`), of values that must be of some kind (`requireObject`,
`requireBoolean`, `requireSequence`), and of an operator that may leave its right side out
(`disjunction`).
-/

set_option autoImplicit false

namespace PlcLang.Proofs.Compositional

variable {α α' ε ε' σ σ' : Type} {R : ∀ {β : Type}, EStateM ε σ β → EStateM ε' σ' β → Prop}

/-- What comes after a part that has or has not returned. A result is passed on, and
nothing more is run. -/
theorem orElse (h : Compositional R) {x next : EStateM ε σ (Option Value)}
    {y next' : EStateM ε' σ' (Option Value)} (hx : R x y) (hnext : R next next') :
    R (do
        match ← x with
        | some result => pure (some result)
        | none => next)
      (do
        match ← y with
        | some result => pure (some result)
        | none => next') := by
  refine h.bind hx fun outcome => ?_
  cases outcome with
  | some result => exact h.pure (some result)
  | none => exact hnext

/-- Statements one after the other, until one returns. The statements of the second run are
made of those of the first by `f`. -/
theorem runAll (h : Compositional R) {execute : Stmt α → EStateM ε σ (Option Value)}
    {execute' : Stmt α' → EStateM ε' σ' (Option Value)} {f : Stmt α → Stmt α'}
    {list : List (Stmt α)} (hexecute : ∀ s ∈ list, R (execute s) (execute' (f s))) :
    R (Interpreter.runAll execute list) (Interpreter.runAll execute' (list.map f)) := by
  induction list with
  | nil => exact h.pure none
  | cons s rest ih =>
      rw [List.map_cons, Interpreter.runAll, Interpreter.runAll]
      refine h.orElse (hexecute s List.mem_cons_self) (ih fun other hother => ?_)
      exact hexecute other (List.mem_cons_of_mem s hother)

/-- Only what is on the left decides whether the right is evaluated. Both runs
decide alike, since they get the same value. -/
theorem disjunction (h : Compositional R) {left right : EStateM ε σ Value}
    {left' right' : EStateM ε' σ' Value} {require : Value → EStateM ε σ Bool}
    {require' : Value → EStateM ε' σ' Bool}
    (hrequire : ∀ value, R (require value) (require' value)) (hleft : R left left')
    (hright : R right right') :
    R (do
        match ← left with
        | .boolean true => pure (Value.boolean true)
        | _ => do
          let value ← right
          let truth ← require value
          pure (Value.boolean truth))
      (do
        match ← left' with
        | .boolean true => pure (Value.boolean true)
        | _ => do
          let value ← right'
          let truth ← require' value
          pure (Value.boolean truth)) := by
  have hsecond : R
      (do
        let value ← right
        let truth ← require value
        pure (Value.boolean truth))
      (do
        let value ← right'
        let truth ← require' value
        pure (Value.boolean truth)) :=
    h.bind hright fun value => h.bind (hrequire value) fun truth => h.pure (Value.boolean truth)
  -- The right side is evaluated unless the left one is true, also where the left one is no
  -- Boolean.
  refine h.bind hleft fun leftValue => ?_
  cases leftValue with
  | boolean truth =>
      cases truth with
      | true => exact h.pure (Value.boolean true)
      | false => exact hsecond
  | _ => exact hsecond

variable {i : Interpreter α ε σ} {j : Interpreter α' ε' σ'}

/-- Rounds until the test fails or a round returns, or until there have been too
many. The induction is on the rounds that are left. -/
theorem whileTrue (h : Compositional R) {test : EStateM ε σ Bool} {test' : EStateM ε' σ' Bool}
    {body : EStateM ε σ (Option Value)} {body' : EStateM ε' σ' (Option Value)}
    (htooLong : R (i.halt .tooLong : EStateM ε σ (Option Value)) (j.halt .tooLong))
    (htest : R test test') (hbody : R body body') (rounds : Nat) :
    R (i.whileTrue test body rounds) (j.whileTrue test' body' rounds) := by
  induction rounds with
  | zero => exact htooLong
  | succ rounds ih =>
      unfold Interpreter.whileTrue
      refine h.bind htest fun truth => ?_
      cases truth with
      | true => exact h.orElse hbody ih
      | false => exact h.pure none

variable {offset offset' : Offset} {value : Value}

/-- A value that must be an object, or else the same fault in both runs. -/
theorem requireObject (h : Compositional R)
    (hfault : R (i.fault (.noMembers value.tag) offset : EStateM ε σ ObjectRef)
      (j.fault (.noMembers value.tag) offset')) :
    R (i.requireObject value offset) (j.requireObject value offset') := by
  cases value with
  | object ref => exact h.pure ref
  | _ => exact hfault

/-- A value that must be a truth value, or else the same fault in both runs. -/
theorem requireBoolean (h : Compositional R)
    (hfault : R (i.fault (.notBoolean value.tag) offset : EStateM ε σ Bool)
      (j.fault (.notBoolean value.tag) offset')) :
    R (i.requireBoolean value offset) (j.requireBoolean value offset') := by
  cases value with
  | boolean truth => exact h.pure truth
  | _ => exact hfault

/-- A value that must be a sequence, or else the same fault in both runs. -/
theorem requireSequence (h : Compositional R)
    (hfault : R (i.fault (.notIterable value.tag) offset : EStateM ε σ (List Value))
      (j.fault (.notIterable value.tag) offset')) :
    R (i.requireSequence value offset) (j.requireSequence value offset') := by
  cases value with
  | sequence elements => exact h.pure elements
  | _ => exact hfault

end PlcLang.Proofs.Compositional
