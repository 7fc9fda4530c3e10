import PlcLang.Proofs.Execution.Likeness
import PlcLang.Proofs.Execution.Plain
import PlcLang.Proofs.Relabelling.Arenas

/-!
# `PlcLang.Proofs.Relabelling.Running`: the interpreter under other labels

No value holds a place or a name of the program's, and the interpreter reads a name
only to look something up. So a relabelled program runs as the program does: with the
same values and output, and with faults of the same kind at the relabelled places.

* `Interpreter.likeness_relabel`: the parts of a run, one by one.
* `Interpreter.relabels_program`: whole programs.

What a fault says may name a variable or a function, and then it says the new name.
There is one exception. A member is no label, but a fault in an assignment to a
member calls it a variable: the name in such a fault stays as it is
(`Stop.Relabelled`).
-/

set_option autoImplicit false

namespace PlcLang

/-! ### Stops, functions and machines -/

section

variable (place : Offset → Offset) (names : Naming)

/-- The cause with the names that a relabelling gives. -/
def FaultCause.rename : FaultCause → FaultCause
  | .undefinedVariable name => .undefinedVariable (names.ofVariable name)
  | .undefinedFunction key => .undefinedFunction (names.key key)
  | cause => cause

/-- The runs stop for the same reason at corresponding places. The name in a fault
may have stayed as it was, as it does if it is that of a member. -/
inductive Stop.Relabelled : Stop → Stop → Prop where
  | fault {f f' : Fault} (hcause : f'.cause = f.cause ∨ f'.cause = f.cause.rename names)
      (hoffset : f'.offset = f.offset.map place) : Relabelled (.fault f) (.fault f')
  | host (e : HostError) : Relabelled (.host e) (.host e)
  | number (e : NumberError) : Relabelled (.number e) (.number e)
  | tooDeep : Relabelled .tooDeep .tooDeep
  | tooLong : Relabelled .tooLong .tooLong

/-- The machines differ in the names that are bound, and in the places of the
methods. -/
structure Machine.Relabelled (machine machine' : Machine) : Prop where
  scopes : machine.scopes.Renamed names id (Callee.relabel place names) machine'.scopes
  heap : machine'.heap = machine.heap
  methods : machine'.methods = machine.methods
  output : machine'.output = machine.output

end

/-- With all names as they are a cause is the cause. -/
theorem FaultCause.rename_same (cause : FaultCause) : cause.rename .same = cause := by
  cases cause <;> rfl

namespace Interpreter

open Proofs

variable {α β : Type} {place : Offset → Offset} {names : Naming}

/-- The second computation does what the first does, under the new labels: it
answers alike, it stops alike, and it leaves corresponding machines. -/
abbrev Relabels (place : Offset → Offset) (names : Naming) (f : α → β) (x : Run α)
    (y : Run β) : Prop :=
  Simulates (Machine.Relabelled place names) (Stop.Relabelled place names) f x y

/-! ### The parts of a run -/

/-- A fault that names no variable and no function, or something that is not
renamed. -/
theorem relabels_fault {f : α → β} (cause : FaultCause) (offset : Option Offset) :
    Relabels place names f (plain.fault cause offset) (plain.fault cause (offset.map place)) :=
  .throw (.fault (.inl rfl) rfl)

/-- A fault that names something that is renamed. -/
theorem relabels_fault_rename {f : α → β} (cause : FaultCause) (offset : Option Offset) :
    Relabels place names f (plain.fault cause offset)
      (plain.fault (cause.rename names) (offset.map place)) :=
  .throw (.fault (.inr rfl) rfl)

/-- What runs in a scope of its own corresponds if the bodies do. Corresponding
machines have as many scopes, so that corresponding scopes are entered. -/
theorem relabels_withScope {f : α → β} {current parent : ScopeId} {body : ScopeId → Run α}
    {body' : ScopeId → Run β} (h : ∀ scope, Relabels place names f (body scope) (body' scope)) :
    Relabels place names f (plain.withScope current parent body)
      (plain.withScope current parent body') := by
  intro machine machine' hmachine
  have hsize : machine'.scopes.size = machine.scopes.size :=
    Arena.Renamed.size_eq hmachine.scopes
  have hentered : Machine.Relabelled place names (machine.enter parent) (machine'.enter parent) :=
    { hmachine with scopes := Arena.Renamed.push hmachine.scopes parent }
  have hleave (after after' : Machine) (hafter : after.Relabelled place names after') :
      Machine.Relabelled place names (after.leave machine.scopes.size)
        (after'.leave machine.scopes.size) :=
    { hafter with scopes := Arena.Renamed.release hafter.scopes _ }
  have hbody := h machine.scopes.size _ _ hentered
  rw [plain_withScope_apply, plain_withScope_apply, hsize]
  generalize machine.enter parent = entered at hbody ⊢
  cases hresult : body machine.scopes.size entered with
  | ok a after =>
      rw [hresult] at hbody
      obtain ⟨after', hbody', hafter⟩ := hbody
      rw [hbody']
      exact ⟨_, rfl, hleave after after' hafter⟩
  | error e after =>
      rw [hresult] at hbody
      obtain ⟨e', after', hbody', he, hafter⟩ := hbody
      rw [hbody']
      exact ⟨e', _, rfl, he, hleave after after' hafter⟩

/-- A variable is read under its new name. -/
theorem relabels_readVariable (scope : ScopeId) (name : String) (offset : Offset) :
    Relabels place names id (plain.readVariable scope name offset)
      (plain.readVariable scope (names.ofVariable name) (place offset)) := by
  rw [plain_readVariable, plain_readVariable]
  refine .get_bind fun machine machine' hmachine => ?_
  have hbound := Arena.Renamed.boundVariable? hmachine.scopes scope name
  rw [hbound]
  cases machine.scopes.boundVariable? scope name with
  | some value => exact .pure value
  | none => exact relabels_fault_rename (.undefinedVariable name) offset

/-- A field of an object is read under the name that it has. -/
theorem relabels_readField (ref : ObjectRef) (name : String) (offset : Offset) :
    Relabels place names id (plain.readField ref name offset)
      (plain.readField ref name (place offset)) := by
  rw [plain_readField, plain_readField]
  refine .get_bind fun machine machine' hmachine => ?_
  rw [hmachine.heap]
  cases (machine.heap.fields ref).get? name with
  | some value => exact .pure value
  | none => exact relabels_fault (.undefinedField name) offset

/-- What a fault calls a variable is a member here, and keeps its name. -/
theorem relabels_writeField (ref : ObjectRef) (name : String) (value : Value)
    (offset : Offset) :
    Relabels place names id (plain.writeField ref name value offset)
      (plain.writeField ref name value (place offset)) := by
  rw [plain_writeField, plain_writeField]
  refine .get_bind fun machine machine' hmachine => ?_
  rw [hmachine.heap]
  refine .ite Iff.rfl (.modify fun _ _ hmachine => ?_)
    (relabels_fault (.undefinedVariable name) offset)
  exact { hmachine with heap := congrArg (·.setField ref name value) hmachine.heap }

/-- A function is found under its new name. -/
theorem relabels_findFunction (scope : ScopeId) (key : FunctionKey) (offset : Offset) :
    Relabels place names (Callee.relabel place names) (plain.findFunction scope key offset)
      (plain.findFunction scope (names.key key) (place offset)) := by
  rw [plain_findFunction, plain_findFunction]
  refine .get_bind fun machine machine' hmachine => ?_
  have hbound := Arena.Renamed.boundFunction? hmachine.scopes scope key
  rw [hbound]
  cases machine.scopes.boundFunction? scope key with
  | some callee => exact .pure callee
  | none => exact relabels_fault_rename (.undefinedFunction key) offset

/-- A method of an object is found under the name that it has. -/
theorem relabels_findMethod (ref : ObjectRef) (key : FunctionKey) (offset : Offset) :
    Relabels place names id (plain.findMethod ref key offset)
      (plain.findMethod ref key (place offset)) := by
  rw [plain_findMethod, plain_findMethod]
  refine .get_bind fun machine machine' hmachine => ?_
  have hmethod : machine'.method? ref key = machine.method? ref key := by
    unfold MachineOf.method?
    rw [hmachine.methods]
  rw [hmethod]
  cases machine.method? ref key with
  | some run => exact .pure run
  | none => exact relabels_fault (.undefinedMethod key) offset

/-- A function of the host is given the heap and values, which have no labels. -/
theorem relabels_callHost (run : HostFunction) (arguments : List Value) :
    Relabels place names id (plain.callHost run arguments) (plain.callHost run arguments) := by
  rw [plain_callHost]
  refine .get_bind fun machine machine' hmachine => ?_
  rw [hmachine.heap]
  cases run machine.heap arguments with
  | ok result => exact .pure result
  | error e => exact .throw (.host e)

/-- A number that is out of range has no place. -/
theorem relabels_inRange (answer : Except NumberError α) :
    Relabels place names id (plain.inRange answer) (plain.inRange answer) := by
  cases answer with
  | ok a => exact .pure a
  | error e => exact .throw (.number e)

/-- What is printed has no labels. -/
theorem relabels_printLine (arguments : List Value) :
    Relabels place names id (plain.printLine arguments) (plain.printLine arguments) := by
  rw [plain_printLine]
  refine (relabels_inRange _).bind fun text => ?_
  refine Simulates.bind (.modify fun _ _ hmachine => ?_) fun _ => .pure Value.nil
  exact { hmachine with output := congrArg (· ++ text ++ "\n") hmachine.output }

/-- An operator is given values, and a value has no labels. -/
theorem relabels_applyOperator (m : Offset) (op : BinaryOp) (left right : Offset)
    (leftValue rightValue : Value) :
    Relabels place names id (plain.applyOperator m op left right leftValue rightValue)
      (plain.applyOperator (place m) op (place left) (place right) leftValue rightValue) := by
  unfold applyOperator
  cases op.apply leftValue rightValue with
  | ok value => exact .pure value
  | error refusal =>
      cases refusal with
      | fault cause => exact relabels_fault cause (some m)
      | number e => exact .throw (.number e)

section Faithful

variable (hnames : names.Faithful)

include hnames

/-- A variable is bound under its new name. -/
theorem relabels_bind (scope : ScopeId) (name : String) (value : Value) :
    Relabels place names id (plain.bind scope name value)
      (plain.bind scope (names.ofVariable name) value) := by
  rw [plain_bind, plain_bind]
  exact .modify fun _ _ hmachine =>
    { hmachine with scopes := Arena.Renamed.bindVariable hmachine.scopes hnames scope name value }

/-- A variable is assigned to under its new name. -/
theorem relabels_writeVariable (scope : ScopeId) (name : String) (value : Value)
    (offset : Offset) :
    Relabels place names id (plain.writeVariable scope name value offset)
      (plain.writeVariable scope (names.ofVariable name) value (place offset)) := by
  rw [plain_writeVariable, plain_writeVariable]
  refine .get_bind fun machine machine' hmachine => ?_
  have howner := Arena.Renamed.ownerOfVariable? hmachine.scopes scope name
  rw [howner]
  cases machine.scopes.ownerOfVariable? scope name with
  | some owner => exact relabels_bind hnames owner name value
  | none => exact relabels_fault_rename (.undefinedVariable name) offset

/-- A method is bound under its new name, and is relabelled itself. -/
theorem relabels_defineMethod (method : Method Offset) :
    Relabels place names id (plain.defineMethod method)
      (plain.defineMethod (method.relabel place names)) := by
  have hlength : (method.relabel place names).parameters.length = method.parameters.length :=
    List.length_map _
  rw [plain_defineMethod, plain_defineMethod]
  unfold MachineOf.define
  rw [hlength]
  refine .modify fun _ _ hmachine => ?_
  exact { hmachine with
    scopes := Arena.Renamed.bindFunction hmachine.scopes hnames Arena.root
      (method.name, method.parameters.length) (.method method) }

/-- The method to start with is looked up by its name, which is why a faithful naming leaves it
alone. -/
theorem relabels_findMain :
    Relabels place names (Callee.relabel place names) plain.findMain plain.findMain := by
  rw [plain_findMain]
  refine .get_bind fun machine machine' hmachine => ?_
  have hbound := Arena.Renamed.boundFunction? hmachine.scopes Arena.root ("main", 0)
  have hmain : names.key ("main", 0) = ("main", 0) := Prod.ext hnames.main rfl
  rw [hmain] at hbound
  rw [hbound]
  cases machine.scopes.boundFunction? Arena.root ("main", 0) with
  | some main => exact .pure main
  | none => exact relabels_fault .missingMain none

/-! ### Runs -/

/-- Other labels change no part of a run. The interpreter is compared with itself. -/
theorem likeness_relabel :
    Likeness plain plain place names (.none Offset)
      fun _ {_} x y => Relabels place names id x y where
  compositional _ := Simulates.compositional
  ofExpression h := h
  ofStatement h := h
  expression _ _ _ _ h := h
  statement _ _ _ _ h := h
  block h := relabels_withScope h
  method h := relabels_withScope h
  tooDeep _ := .throw .tooDeep
  tooLong _ := .throw .tooLong
  fault _ _ cause m? _ := by cases m? <;> exact relabels_fault cause _
  foreign _ _ _ kind _ _ m? := by cases m? <;> exact relabels_fault (.notEvaluable kind) _
  bind := relabels_bind hnames
  readVariable := relabels_readVariable
  writeVariable := relabels_writeVariable hnames
  readField _ ref name m := relabels_readField ref name m
  writeField _ ref name value m := relabels_writeField ref name value m
  findFunction scope key m _ _ h :=
    (relabels_findFunction scope key m).bind fun callee => h callee trivial
  findMethod _ ref key m _ _ h := (relabels_findMethod ref key m).bind fun run => h run trivial
  called _ _ _ := .pure ()
  callHost _ run _ arguments := relabels_callHost run arguments
  printLine _ _ _ arguments _ := relabels_printLine arguments
  applyOperator _ := relabels_applyOperator
  define _ := relabels_defineMethod hnames _
  findMain h := (relabels_findMain hnames).bind fun callee => h callee trivial
  result value := relabels_inRange value.display

/-- A relabelled program ends as the program does, with the same value or a fault that
corresponds, and the machines correspond afterwards. -/
theorem relabels_program (limits : Limits) (tree : Program Offset) :
    Relabels place names id (plain.program limits tree)
      (plain.program limits (tree.relabel place names)) :=
  (likeness_relabel hnames).program limits tree fun _ _ => trivial

end Faithful

end Interpreter

end PlcLang
