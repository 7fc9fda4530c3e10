import PlcLang.Execution.Interpreter

/-!
# `PlcLang.Proofs.Execution.Plain`: what a run does, part by part

`Interpreter.plain` does nothing besides, so its parts are what every interpreter does. The
equations say so, one for each part that uses the machine; a proof about runs opens a part by its
equation. `Interpreter.withScope_apply` is the equation of a part that runs in a scope of its own,
for every interpreter that does nothing besides at scopes.
-/

set_option autoImplicit false

namespace PlcLang.Interpreter

variable {α ε σ β : Type}

/-- What is run in a fresh scope, where nothing is done besides at scopes: the scope is entered
before and left after it, however it ends. -/
theorem withScope_apply (i : Interpreter α ε σ)
    (hblock : ∀ scope (x : EStateM ε σ β), i.block scope x = x)
    (hrelease : ∀ scope, i.before (.release scope) = pure ()) (current parent : ScopeId)
    (body : ScopeId → EStateM ε σ β) (s : σ) :
    i.withScope current parent body s
      = match body (i.machine s).scopes.size (i.update (·.enter parent) s) with
        | .ok b after => .ok b (i.update (·.leave (i.machine s).scopes.size) after)
        | .error e after => .error e (i.update (·.leave (i.machine s).scopes.size) after) := by
  have hleave (index : ScopeId) : i.leave index = modify (i.update (·.leave index)) := by
    rw [leave, hrelease]
    rfl
  unfold withScope
  rw [hblock]
  show always (i.block _ (body _)) (i.leave _) (i.update (·.enter parent) s) = _
  rw [hblock, hleave]
  unfold always
  cases body (i.machine s).scopes.size (i.update (·.enter parent) s) <;> rfl

section

variable (scope : ScopeId) (name : String) (value : Value) (offset : Offset) (ref : ObjectRef)
  (key : FunctionKey)

/-- The marks of a plain run are places. -/
@[simp] theorem plain_place : plain.place offset = offset := rfl

/-- A mark that may be missing is a place that may be missing. -/
@[simp] theorem map_plain_place (offset? : Option Offset) :
    offset?.map plain.place = offset? :=
  congrFun Option.map_id offset?

/-- The state of a plain run is the machine. -/
@[simp] theorem plain_machine (machine : Machine) : plain.machine machine = machine := rfl

/-- A change of the machine is a change of the state. -/
@[simp] theorem plain_update (f : Machine → Machine) (machine : Machine) :
    plain.update f machine = f machine := rfl

/-- Nothing is done before the machine is used. -/
@[simp] theorem plain_before (moment : Moment Offset) : plain.before moment = pure () := rfl

/-- Nothing is done besides at an expression. -/
@[simp] theorem plain_expression (x : Run Value) : plain.expression offset scope x = x := rfl

/-- Nothing is done besides at a statement. -/
@[simp] theorem plain_statement (x : Run (Option Value)) :
    plain.statement offset scope x = x := rfl

/-- Binding a variable changes the machine. -/
theorem plain_bind : plain.bind scope name value = modify (·.bind scope name value) := rfl

/-- A body is run in a fresh scope, which is left however the body ends. -/
theorem plain_withScope_apply (current parent : ScopeId) (body : ScopeId → Run β)
    (machine : Machine) :
    plain.withScope current parent body machine
      = match body machine.scopes.size (machine.enter parent) with
        | .ok b after => .ok b (after.leave machine.scopes.size)
        | .error e after => .error e (after.leave machine.scopes.size) := by
  rw [withScope_apply plain (fun _ _ => rfl) (fun _ => rfl), plain_machine, plain_update]
  cases body machine.scopes.size (machine.enter parent) <;> rfl

/-- A variable is read from where it is bound, or it is unknown. -/
theorem plain_readVariable :
    plain.readVariable scope name offset = (do
      match (← get).scopes.boundVariable? scope name with
      | some value => pure value
      | none => plain.fault (.undefinedVariable name) offset) := rfl

/-- A variable is written where it is bound, or it is unknown. -/
theorem plain_writeVariable :
    plain.writeVariable scope name value offset = (do
      match (← get).scopes.ownerOfVariable? scope name with
      | some owner => plain.bind owner name value
      | none => plain.fault (.undefinedVariable name) offset) := rfl

/-- A field is read from its object, or the object has none of this name. -/
theorem plain_readField :
    plain.readField ref name offset = (do
      match ((← get).heap.fields ref).get? name with
      | some value => pure value
      | none => plain.fault (.undefinedField name) offset) := rfl

/-- A field is written in its object, or the object has none of this name. -/
theorem plain_writeField :
    plain.writeField ref name value offset = (do
      if ((← get).heap.fields ref).contains name then
        modify fun machine => { machine with heap := machine.heap.setField ref name value }
      else plain.fault (.undefinedVariable name) offset) := rfl

/-- A function is found where it is bound, or it is unknown. -/
theorem plain_findFunction :
    plain.findFunction scope key offset = (do
      match (← get).scopes.boundFunction? scope key with
      | some callee => pure callee
      | none => plain.fault (.undefinedFunction key) offset) := by
  rw [findFunction, plain_before, pure_bind]
  refine bind_congr fun machine => ?_
  rw [plain_machine]
  cases machine.scopes.boundFunction? scope key <;> rfl

/-- The method that a program begins with is one without parameters among the
program's own names. -/
theorem plain_findMain :
    plain.findMain = (do
      match (← get).scopes.boundFunction? Arena.root ("main", 0) with
      | some main => pure main
      | none => plain.fault .missingMain none) := by
  rw [findMain, plain_before, pure_bind]
  refine bind_congr fun machine => ?_
  rw [plain_machine]
  cases machine.scopes.boundFunction? Arena.root ("main", 0) <;> rfl

/-- A method of an object is found among those of its own, or it is unknown. -/
theorem plain_findMethod :
    plain.findMethod ref key offset = (do
      match (← get).method? ref key with
      | some run => pure run
      | none => plain.fault (.undefinedMethod key) offset) := rfl

/-- A function of the host sees the heap and the arguments, and changes nothing. Its
error stops the run. -/
theorem plain_callHost (run : HostFunction) (arguments : List Value) :
    plain.callHost run arguments = (do
      match run (← get).heap arguments with
      | .ok result => pure result
      | .error e => plain.halt (.host e)) := rfl

/-- A line is printed if the first argument can be written out. -/
theorem plain_printLine (arguments : List Value) :
    plain.printLine arguments = (do
      let text ← plain.inRange (arguments.headD .nil).display
      modify (·.print text)
      pure .nil) := rfl

/-- Defining a method changes the machine. -/
theorem plain_defineMethod (method : Method Offset) :
    plain.defineMethod method = modify (·.define method) := rfl

end

end PlcLang.Interpreter
