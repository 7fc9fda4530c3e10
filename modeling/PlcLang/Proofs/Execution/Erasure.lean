import PlcLang.Proofs.Execution.Likeness
import PlcLang.Proofs.Execution.Plain
import PlcLang.Proofs.Execution.Watched
import PlcLang.Proofs.Scoping.Relabelling
import PlcLang.Session

/-!
# `PlcLang.Proofs.Execution.Erasure`: watching changes nothing

Without the events, and with places for marks, the watched interpreter is the interpreter that
runs programs: `erases_program`. A session therefore runs a program as it is watched to
(`Session.execute_eq_watch`), and what is said of all events of watched runs is said of the
moments of the runs of a session.
-/

set_option autoImplicit false

namespace PlcLang

variable {α β γ : Type}

/-- The machine with other marks on the methods that are bound. All else on it has
no marks. -/
def MachineOf.relabel (mark : α → β) (machine : MachineOf α) : MachineOf β where
  scopes := machine.scopes.mapFunctions (Callee.relabel mark .same)
  heap := machine.heap
  methods := machine.methods
  output := machine.output

namespace MachineOf

variable (mark : α → β) (machine : MachineOf α)

/-! ### What is done to a machine is done to the machine with other marks -/

/-- A scope is entered alike. -/
theorem relabel_enter (parent : ScopeId) :
    (machine.relabel mark).enter parent = (machine.enter parent).relabel mark := by
  show MachineOf.mk _ _ _ _ = MachineOf.mk _ _ _ _
  congr 1
  exact Arena.push_mapFunctions _ _ parent

/-- A scope is left alike. -/
theorem relabel_leave (index : ScopeId) :
    (machine.relabel mark).leave index = (machine.leave index).relabel mark := by
  show MachineOf.mk _ _ _ _ = MachineOf.mk _ _ _ _
  congr 1
  exact Arena.release_mapFunctions _ _ index

/-- A variable is bound alike. -/
theorem relabel_bind (scope : ScopeId) (name : String) (value : Value) :
    (machine.relabel mark).bind scope name value
      = (machine.bind scope name value).relabel mark := by
  show MachineOf.mk _ _ _ _ = MachineOf.mk _ _ _ _
  congr 1
  exact Arena.bindVariable_mapFunctions _ _ scope name value

/-- A method is defined alike, with its marks changed. -/
theorem relabel_define (method : Method α) :
    (machine.relabel mark).define (method.relabel mark .same)
      = (machine.define method).relabel mark := by
  have hparameters : (method.relabel mark .same).parameters = method.parameters := List.map_id _
  unfold MachineOf.define
  rw [hparameters]
  show MachineOf.mk _ _ _ _ = MachineOf.mk _ _ _ _
  congr 1
  exact Arena.bindFunction_mapFunctions (Callee.relabel mark .same) machine.scopes Arena.root
    (method.name, method.parameters.length) (.method method)

/-- Marks that are changed and changed back leave the machine as it is. -/
theorem relabel_relabel {back : β → α} (h : ∀ m, back (mark m) = m) :
    (machine.relabel mark).relabel back = machine := by
  show MachineOf.mk _ _ _ _ = machine
  congr 1
  exact Arena.mapFunctions_mapFunctions _ _ (Callee.relabel_relabel mark h)

end MachineOf

namespace Interpreter

open Proofs

variable (place : α → Offset)

/-- What the interpreter that runs programs has of a watched run: the machine, with
places for marks, and why the run has stopped. The events are not seen. -/
def watchedView : View (Halt α) (Scene α) Stop Machine :=
  ⟨Halt.stop, fun scene => scene.toMachineOf.relabel place⟩

variable {place}

/-- The second computation is the first one, unwatched, with the same answer. -/
abbrev Unwatched (place : α → Offset) (x : Watch α β) (y : Run β) : Prop :=
  Erases (watchedView place) id x y

/-- A watched run works on a machine like any other. -/
theorem watched_machine (scene : Scene α) : (watched place).machine scene = scene.toMachineOf := rfl

/-- What it does to the machine leaves the events alone. -/
theorem watched_update (f : MachineOf α → MachineOf α) (scene : Scene α) :
    (watched place).update f scene = { scene with toMachineOf := f scene.toMachineOf } := rfl

/-- Variables are bound to the same, since they have no marks. -/
theorem boundVariable?_watchedView (scene : Scene α) (scope : ScopeId) (name : String) :
    ((watchedView place).state scene).scopes.boundVariable? scope name
      = scene.scopes.boundVariable? scope name :=
  Arena.boundVariable?_mapFunctions _ _ scope name

/-! ### The parts of the interpreter -/

/-- What is noted is not seen, so noting something first makes no difference. -/
theorem unwatched_note {event : Event α} {k : Unit → Watch α β} {y : Run β}
    (hk : Unwatched place (k ()) y) : Unwatched place (note event >>= k) y :=
  fun scene => hk { scene with events := event :: scene.events }

/-- So it is with what is noted where a node is entered. -/
theorem unwatched_noteEnter {mark : α} {scope : ScopeId} {k : Unit → Watch α β}
    {y : Run β} (hk : Unwatched place (k ()) y) :
    Unwatched place (noteEnter mark scope >>= k) y :=
  fun scene => hk { scene with events := .enter mark scope scene.scopes :: scene.events }

/-- So it is with what is noted where a variable is looked up. -/
theorem unwatched_noteAccess {mark : α} {name : String} {scope : ScopeId}
    {k : Unit → Watch α β} {y : Run β} (hk : Unwatched place (k ()) y) :
    Unwatched place (noteAccess mark name scope >>= k) y :=
  fun scene => hk { scene with events := .access mark name scope scene.scopes :: scene.events }

/-- What is noted of an answer does not change it. -/
theorem unwatched_answer {x : Watch α Value} {y : Run Value} {mark : α}
    (h : Unwatched place x y) : Unwatched place (answer mark x) y := by
  have hy : y = y >>= pure := (bind_pure y).symm
  rw [hy]
  exact h.bind fun value => unwatched_note (Erases.pure value)

/-- A fault is raised in both runs, and is the same. -/
theorem unwatched_fault (cause : FaultCause) (offset : Option Offset) :
    Unwatched place ((watched place).fault cause offset : Watch α β)
      (plain.fault cause offset) :=
  .throw _

/-- A variable is bound in both runs. -/
theorem unwatched_bind (scope : ScopeId) (name : String) (value : Value) :
    Unwatched place ((watched place).bind scope name value) (plain.bind scope name value) := by
  rw [plain_bind]
  refine Erases.modify fun scene => ?_
  exact MachineOf.relabel_bind place (Scene.toMachineOf scene) scope name value

/-- A scope is entered and left in both runs. -/
theorem unwatched_withScope {current parent : ScopeId} {body : ScopeId → Watch α β}
    {body' : ScopeId → Run β} (h : ∀ scope, Unwatched place (body scope) (body' scope)) :
    Unwatched place ((watched place).withScope current parent body)
      (plain.withScope current parent body') := by
  intro scene
  have hsize : (scene.toMachineOf.relabel place).scopes.size = scene.scopes.size :=
    Arena.size_mapFunctions _ _
  have hbody := h scene.scopes.size { scene with toMachineOf := scene.toMachineOf.enter parent }
  have hleave (after : Scene α) := MachineOf.relabel_leave place after.toMachineOf scene.scopes.size
  rw [plain_withScope_apply, withScope_apply (watched place) (fun _ _ => rfl) (fun _ => rfl),
    watched_machine, watched_update]
  dsimp only [watchedView] at hbody ⊢
  rw [hsize, MachineOf.relabel_enter, hbody]
  cases body scene.scopes.size { scene with toMachineOf := scene.toMachineOf.enter parent } with
  | ok b after => exact congrArg (EStateM.Result.ok b) (hleave after)
  | error e after => exact congrArg (EStateM.Result.error e.stop) (hleave after)

/-- A variable is read in both runs. The watched one notes the moment. -/
theorem unwatched_readVariable (scope : ScopeId) (name : String) (mark : α) :
    Unwatched place ((watched place).readVariable scope name mark)
      (plain.readVariable scope name (place mark)) := by
  rw [plain_readVariable]
  refine unwatched_noteAccess (Erases.get_bind fun scene => ?_)
  rw [watched_machine, boundVariable?_watchedView]
  cases scene.scopes.boundVariable? scope name with
  | some value => exact Erases.pure value
  | none => exact unwatched_fault _ _

/-- A variable is written in both runs. The watched one notes the moment. -/
theorem unwatched_writeVariable (scope : ScopeId) (name : String) (value : Value) (mark : α) :
    Unwatched place ((watched place).writeVariable scope name value mark)
      (plain.writeVariable scope name value (place mark)) := by
  rw [plain_writeVariable]
  refine unwatched_noteAccess (Erases.get_bind fun scene => ?_)
  have howner : ((watchedView place).state scene).scopes.ownerOfVariable? scope name
      = scene.scopes.ownerOfVariable? scope name :=
    Arena.ownerOfVariable?_mapFunctions _ _ scope name
  rw [watched_machine, howner]
  cases scene.scopes.ownerOfVariable? scope name with
  | some owner => exact unwatched_bind owner name value
  | none => exact unwatched_fault _ _

/-- A field is read in both runs. -/
theorem unwatched_readField (ref : ObjectRef) (name : String) (offset : Offset) :
    Unwatched place ((watched place).readField ref name offset)
      (plain.readField ref name offset) := by
  rw [plain_readField]
  refine Erases.get_bind fun scene => ?_
  have hheap : ((watchedView place).state scene).heap = scene.heap := rfl
  rw [watched_machine, hheap]
  cases (scene.heap.fields ref).get? name with
  | some value => exact Erases.pure value
  | none => exact unwatched_fault _ _

/-- A field is written in both runs. -/
theorem unwatched_writeField (ref : ObjectRef) (name : String) (value : Value)
    (offset : Offset) :
    Unwatched place ((watched place).writeField ref name value offset)
      (plain.writeField ref name value offset) := by
  rw [plain_writeField]
  refine Erases.get_bind fun scene => .ite (Erases.modify fun scene => rfl) ?_
  exact unwatched_fault _ _

/-- A function's name is bound alike, but for the marks. -/
theorem boundFunction?_watchedView (scene : Scene α) (scope : ScopeId) (key : FunctionKey) :
    ((watchedView place).state scene).scopes.boundFunction? scope key
      = (scene.scopes.boundFunction? scope key).map (Callee.relabel place .same) :=
  Arena.boundFunction?_mapFunctions _ _ scope key

/-- A function is found in both runs, and what comes next is given it with its marks
or with places for them. -/
theorem unwatched_findFunction (scope : ScopeId) (key : FunctionKey) (offset : Offset)
    {next : Callee α → Watch α β} {next' : Callable → Run β}
    (h : ∀ callee, Unwatched place (next callee) (next' (callee.relabel place .same))) :
    Unwatched place ((watched place).findFunction scope key offset >>= next)
      (plain.findFunction scope key offset >>= next') := by
  rw [plain_findFunction]
  refine Erases.bind (f := Callee.relabel place .same) ?_ h
  refine Erases.get_bind fun scene => ?_
  rw [watched_machine, boundFunction?_watchedView]
  cases scene.scopes.boundFunction? scope key with
  | some callee => exact Erases.pure callee
  | none => exact .throw _

/-- So is the method that a program begins with. -/
theorem unwatched_findMain {next : Callee α → Watch α β} {next' : Callable → Run β}
    (h : ∀ callee, Unwatched place (next callee) (next' (callee.relabel place .same))) :
    Unwatched place ((watched place).findMain >>= next) (plain.findMain >>= next') := by
  rw [plain_findMain]
  refine Erases.bind (f := Callee.relabel place .same) ?_ h
  refine Erases.get_bind fun scene => ?_
  rw [watched_machine, boundFunction?_watchedView]
  cases scene.scopes.boundFunction? Arena.root ("main", 0) with
  | some main => exact Erases.pure main
  | none => exact .throw _

/-- A method of an object is found in both runs. It is the host's, and has no marks. -/
theorem unwatched_findMethod (ref : ObjectRef) (key : FunctionKey) (offset : Offset) :
    Unwatched place ((watched place).findMethod ref key offset)
      (plain.findMethod ref key offset) := by
  rw [plain_findMethod]
  refine Erases.get_bind fun scene => ?_
  have hmethod : ((watchedView place).state scene).method? ref key = scene.method? ref key := rfl
  rw [watched_machine, hmethod]
  cases scene.method? ref key with
  | some run => exact Erases.pure run
  | none => exact unwatched_fault _ _

/-- A function of the host answers alike in both runs, since it sees nothing of the
events. -/
theorem unwatched_callHost (run : HostFunction) (arguments : List Value) :
    Unwatched place ((watched place).callHost run arguments)
      (plain.callHost run arguments) := by
  rw [plain_callHost]
  refine Erases.get_bind fun scene => ?_
  have hheap : ((watchedView place).state scene).heap = scene.heap := rfl
  rw [watched_machine, hheap]
  cases run scene.heap arguments with
  | ok result => exact Erases.pure result
  | error e => exact .throw _

/-- A number that is out of range stops both runs. -/
theorem unwatched_inRange (answer : Except NumberError β) :
    Unwatched place ((watched place).inRange answer) (plain.inRange answer) := by
  cases answer with
  | ok b => exact Erases.pure b
  | error e => exact .throw _

/-- A line is printed in both runs. -/
theorem unwatched_printLine (arguments : List Value) :
    Unwatched place ((watched place).printLine arguments) (plain.printLine arguments) := by
  rw [plain_printLine]
  refine (unwatched_inRange _).bind fun text => ?_
  exact Erases.bind (.modify fun scene => rfl) fun _ => Erases.pure _

/-- An operator is applied in both runs, to the same values. -/
theorem unwatched_applyOperator (m : α) (op : BinaryOp) (left right : α)
    (leftValue rightValue : Value) :
    Unwatched place ((watched place).applyOperator m op left right leftValue rightValue)
      (plain.applyOperator (place m) op (place left) (place right) leftValue rightValue) := by
  unfold applyOperator
  cases op.apply leftValue rightValue with
  | ok value => exact Erases.pure value
  | error refusal => exact .throw _

/-! ### Runs -/

/-- Watching changes no part of a run, so that runs as a whole are alike. -/
theorem likeness_watched (place : α → Offset) :
    Likeness (watched place) plain place .same (.none α) fun _ {_} x y => Unwatched place x y where
  compositional _ := Erases.compositional
  ofExpression h := h
  ofStatement h := h
  expression _ _ _ _ h := unwatched_noteEnter (unwatched_answer h)
  statement _ _ _ _ h := unwatched_noteEnter h
  block h := unwatched_withScope h
  method h := unwatched_withScope h
  tooDeep _ := .throw _
  tooLong _ := .throw _
  fault _ _ _ _ _ := by
    rw [Option.map_map]
    exact .throw _
  foreign _ _ _ _ _ _ _ := by
    rw [Option.map_map]
    exact .throw _
  bind := unwatched_bind
  readVariable := unwatched_readVariable
  writeVariable := unwatched_writeVariable
  readField _ _ _ _ := unwatched_readField _ _ _
  writeField _ _ _ _ _ := unwatched_writeField _ _ _ _
  findFunction _ _ _ _ _ h := unwatched_findFunction _ _ _ fun callee => h callee trivial
  findMethod _ _ _ _ _ _ h := (unwatched_findMethod _ _ _).bind fun run => h run trivial
  called _ _ _ := unwatched_note (Erases.pure ())
  callHost _ _ _ _ := unwatched_callHost _ _
  printLine _ _ _ _ _ := unwatched_printLine _
  applyOperator _ := unwatched_applyOperator
  define _ := Erases.modify fun scene => MachineOf.relabel_define place scene.toMachineOf _
  findMain h := unwatched_findMain fun callee => h callee trivial
  result value := unwatched_inRange value.display

/-- Without the events, and with places for marks, a watched run is the run. -/
theorem erases_program (limits : Limits) (tree : Program α) :
    Unwatched place ((watched place).program limits tree)
      (plain.program limits (tree.map place)) := by
  rw [← Program.relabel_same]
  exact (likeness_watched place).program limits tree fun _ _ => trivial

end Interpreter

/-! ### Sessions -/

open Proofs

variable {mark : Offset → α} {place : α → Offset}

/-- A machine before a watched run: nothing has been noted yet. -/
def Machine.scene (mark : Offset → α) (machine : Machine) : Scene α where
  toMachineOf := machine.relabel mark

/-- What a session does with a program, watched, and the scene that it leaves. -/
def Session.watch (session : Session) (mark : Offset → α) (place : α → Offset) (limits : Limits)
    (tree : Program α) : Except (Halt α) Value × Scene α :=
  match (Interpreter.watched place).program limits tree (session.quiet.machine.scene mark) with
  | .ok value scene => (.ok value, scene)
  | .error halt scene => (.error halt, scene)

/-- A session runs a program as it is watched to: with the same result, and the same machine
in the end. -/
theorem Session.execute_eq_watch (session : Session)
    (h : ∀ offset, place (mark offset) = offset) (limits : Limits) (tree : Program α) :
    session.execute limits (tree.map place)
      = ((session.watch mark place limits tree).1.mapError Halt.stop,
          { session with
            machine := (session.watch mark place limits tree).2.toMachineOf.relabel place }) := by
  have hwatched : Interpreter.Unwatched place
      ((Interpreter.watched place).program limits tree)
      (Interpreter.plain.program limits (tree.map place)) :=
    Interpreter.erases_program limits tree
  have herases := hwatched (session.quiet.machine.scene mark)
  dsimp only [Interpreter.watchedView, Machine.scene] at herases
  rw [MachineOf.relabel_relabel mark session.quiet.machine h] at herases
  rw [Session.execute, Session.ran, herases, Session.watch, Machine.scene]
  cases (Interpreter.watched place).program limits tree
    { toMachineOf := session.quiet.machine.relabel mark } <;> rfl

end PlcLang
