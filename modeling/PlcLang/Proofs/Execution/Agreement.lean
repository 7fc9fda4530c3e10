import PlcLang.Proofs.Execution.Operators
import PlcLang.Proofs.Execution.Returning
import PlcLang.Proofs.Typing.Soundness

/-!
# `PlcLang.Proofs.Execution.Agreement`: what the checker knows of a machine

At every moment of the run of a typed program the scopes of the machine are those of
a table of symbols, one by one: they bind the same names, each variable to a value
that its symbol's type allows and each function to what its symbol declares
(`Expectation.Agrees`).

What a type allows, and which faults may come of it, is left open (`Reading`); all that
the proofs need of it is that the operators, the literals and the assignments of the
language keep to it (`Reading.Sound`). So one run is looked at several times: where types
allow everything only the names are left, and where they allow what they say there are the
values as well.

Nil comes from two places that no type tells of: a declaration without a value and a method
that falls through. A reading in which nil is good for every type (`Reading.Closed`) is one
of all typed programs; one in which it is not asks more of a program than to be typed
(`Reading.PermitsProgram`).
-/

set_option autoImplicit false

namespace PlcLang

variable {V F V' F' : Type}

/-- Two frames bind the same names, to whatever they bind them. -/
structure Frame.SameNames (frame : Frame V F) (frame' : Frame V' F') : Prop where
  onVariables : ∀ name,
    frame.variableTable.contains name = frame'.variableTable.contains name
  onFunctions : ∀ key, frame.functionTable.contains key = frame'.functionTable.contains key

/-- What is called is what the symbol declares: the method of the program that the symbol
was noted for, or a function of the host. -/
def Callee.DeclaredBy (methods : List (Method Sight)) (symbol : FunctionSymbol) :
    Callee Sight → Prop
  | .method m => m ∈ methods ∧ m.mark.note.symbol = some (.function symbol)
    ∧ symbol.offset = some m.mark.offset
  | .print | .host _ => symbol.offset = none

namespace Event

/-- At this moment names stand for what the checker took them for: the scopes that
can be seen have the names that it knew, a variable is found at the level where it
found it, and what is called is what the symbol declares. -/
def Resolves (methods : List (Method Sight)) : Event Sight → Prop
  | enter mark scope scopes =>
    List.Forall₂ Frame.SameNames mark.chain (scopes.chain scope)
  | value _ _ => True
  | access mark name scope scopes =>
    ∃ level frame symbol, level? name mark.chain = some level
      ∧ level? name (scopes.chain scope) = some level ∧ mark.chain[level]? = some frame
      ∧ frame.variableTable.get? name = some symbol
      ∧ mark.note.symbol = some (.variable symbol)
  | called mark callee =>
    ∃ symbol, mark.note.symbol = some (.function symbol) ∧ callee.DeclaredBy methods symbol

/-- A value that an expression has at this moment is good for the type noted of it.
The other moments have no value. -/
def Typed (good : Ty → Value → Prop) : Event Sight → Prop
  | value mark v => ∃ type, mark.note.type = some type ∧ good type v
  | _ => True

end Event

namespace Proofs

/-- What types are taken to mean: the values that are good for a type, how a run may stop,
and what a program is expected to keep to beyond the rules: which types the operands of an
operator have, and which decimals are written. -/
structure Reading where
  good : Ty → Value → Prop
  accepts : Halt Sight → Prop
  operands : BinaryOp → Ty → Ty → Prop := fun _ _ _ => True
  literals : Decimal → Prop := fun _ => True

/-- The language keeps to what types are taken to mean: its literals and operators
give values that are good for the types that the rules give them, and stop only as
they may. -/
structure Reading.Sound (x : Reading) : Prop where
  nilLiteral : x.good .nil .nil
  boolean : ∀ truth, x.good .boolean (.boolean truth)
  integer : ∀ number, x.good .integer (.integer number)
  decimal : ∀ number, x.literals number → x.good .decimal (.decimal number)
  character : ∀ text, x.good .character (.character text)
  string : ∀ text, x.good .string (.string text)
  fits : ∀ {target source : Ty} {v : Value}, Fits target source → x.good source v →
    x.good target v
  elements : ∀ {elements : List Value}, x.good .integerIterable (.sequence elements) →
    ∀ element ∈ elements, x.good .integer element
  operator : ∀ {op : BinaryOp} {leftType rightType type : Ty} {left right : Sight}
    {v w : Value}, OperatorType op leftType rightType type →
    x.operands op leftType rightType → op ≠ .or →
    left.note.type = some leftType → right.note.type = some rightType →
    x.good leftType v → x.good rightType w →
    match op.apply v w with
    | .ok result => x.good type result
    | .error refusal => ∀ offset, x.accepts ⟨refusal.stop offset, some (left, right)⟩
  condition : ∀ {v : Value}, x.good .boolean v → (∀ truth, v ≠ .boolean truth) →
    ∀ offset, x.accepts { stop := .fault ⟨.notBoolean v.tag, offset⟩ }
  iterated : ∀ {v : Value}, x.good .integerIterable v → (∀ list, v ≠ .sequence list) →
    ∀ offset, x.accepts { stop := .fault ⟨.notIterable v.tag, offset⟩ }
  /-- A value that is written out may have a number in it that cannot be. -/
  number : ∀ {e : NumberError}, e.Proper → x.accepts { stop := .number e }
  tooDeep : x.accepts { stop := .tooDeep }
  tooLong : x.accepts { stop := .tooLong }

/-- The language keeps to what types are taken to mean in every program, since nil is good for
all of them. -/
structure Reading.Closed (x : Reading) : Prop extends x.Sound where
  nil : ∀ type, x.good type .nil
  anyOperands : ∀ op leftType rightType, x.operands op leftType rightType
  anyLiterals : ∀ number, x.literals number

/-! ### What a reading asks of a program -/

/-- The expression is no operator on operands of other types than expected. -/
def Reading.Takes (x : Reading) (e : Expr Sight) : Prop :=
  ∀ (m : Sight) (op : BinaryOp) (left right : Expr Sight), e = .binary m op left right →
    ∀ leftType rightType, left.mark.note.type = some leftType →
      right.mark.note.type = some rightType → x.operands op leftType rightType

/-- What a reading asks of a part of a program with these expressions and
declarations: its operators, its literals, and the declarations that leave their
variable nil. -/
structure Reading.Permits (x : Reading) (exprs : List (Expr Sight))
    (declarations : List (Declaration Sight)) : Prop where
  operands : ∀ e ∈ exprs, x.Takes e
  literals : ∀ m number, Expr.decimal m number ∈ exprs → x.literals number
  initial : ∀ d ∈ declarations, d.value = none → ∀ type, x.good type .nil

/-- The method returns for certain, or nil is good where it is called. -/
def Reading.Returns (x : Reading) (method : Method Sight) : Prop :=
  method.returns = true ∨ ∀ symbol : FunctionSymbol,
    method.mark.note.symbol = some (.function symbol) → x.good symbol.result .nil

/-- What a reading asks of a method: of the parts of its body, and of how it ends. -/
structure Reading.PermitsMethod (x : Reading) (method : Method Sight) : Prop where
  body : x.Permits method.exprs method.declarations
  returns : x.Returns method

/-- What a reading asks of a program: of all of its parts, and of how each method
ends. -/
structure Reading.PermitsProgram (x : Reading) (tree : Program Sight) : Prop where
  parts : x.Permits tree.exprs tree.declarations
  returns : ∀ method ∈ tree.methods, x.Returns method

namespace Reading

variable {x : Reading} {exprs exprs' : List (Expr Sight)}
  {declarations declarations' : List (Declaration Sight)}

/-- A part of a part is a part. -/
theorem Permits.mono (h : x.Permits exprs declarations) (hexprs : exprs' ⊆ exprs)
    (hdeclarations : declarations' ⊆ declarations) : x.Permits exprs' declarations' :=
  ⟨fun e he => h.operands e (hexprs he), fun m number he => h.literals m number (hexprs he),
    fun d hd => h.initial d (hdeclarations hd)⟩

/-- Where nil is good for every type there is nothing to ask for. -/
theorem Closed.permits (hx : x.Closed) : x.Permits exprs declarations :=
  ⟨fun _ _ _ op _ _ _ leftType rightType _ _ => hx.anyOperands op leftType rightType,
    fun _ number _ => hx.anyLiterals number, fun _ _ _ => hx.nil⟩

/-- So every program is permitted then. -/
theorem Closed.permitsProgram (hx : x.Closed) (tree : Program Sight) : x.PermitsProgram tree :=
  ⟨hx.permits, fun _ _ => .inr fun symbol _ => hx.nil symbol.result⟩

namespace PermitsProgram

variable {tree : Program Sight}

/-- A program that is permitted has fields that are. -/
theorem field (h : x.PermitsProgram tree) {field : Field Sight} (hfield : field ∈ tree.fields) :
    x.Permits field.exprs [field.declaration] := by
  refine h.parts.mono (fun e he => ?_) fun d hd => ?_
  · exact List.mem_append_left _ (List.mem_flatMap.mpr ⟨field, hfield, he⟩)
  · rw [List.mem_singleton] at hd
    rw [hd]
    exact List.mem_append_left _ (List.mem_map_of_mem hfield)

/-- It has methods that are. -/
theorem method (h : x.PermitsProgram tree) {method : Method Sight}
    (hmethod : method ∈ tree.methods) : x.PermitsMethod method := by
  refine ⟨h.parts.mono (fun e he => ?_) fun d hd => ?_, h.returns method hmethod⟩
  · exact List.mem_append_right _ (List.mem_flatMap.mpr ⟨method, hmethod, he⟩)
  · exact List.mem_append_right _ (List.mem_flatMap.mpr ⟨method, hmethod, hd⟩)

end PermitsProgram

end Reading

/-- The interpreter of programs as the checker has seen them, watched. -/
abbrev sighted : Interpreter Sight (Halt Sight) (Scene Sight) :=
  Interpreter.watched Sight.offset

/-- What is expected of a run: what types mean, the methods of the program, and which of
them a symbol's name may be bound to. -/
structure Expectation extends Reading where
  methods : List (Method Sight)
  allowed : FunctionSymbol → Method Sight → Prop

namespace Expectation

variable (x : Expectation)

/-- What a symbol's name may be bound to: a method that is allowed for it, or a
function of the host that answers with what is good for its result. The latter is
asked of the pure function that `HostFunction` is. -/
def GoodCallee (symbol : FunctionSymbol) : Callee Sight → Prop
  | .method m => x.allowed symbol m
  | .print => symbol.offset = none ∧ x.good symbol.result .nil
  | .host run => symbol.offset = none ∧ ∀ heap arguments,
    match run heap arguments with
    | .ok v => x.good symbol.result v
    | .error e => x.accepts { stop := .host e }

/-- A frame of symbols and a frame of the machine bind the same names, and what the machine
binds is good for the symbols. -/
structure GoodFrame (frame : Frame VariableSymbol FunctionSymbol)
    (frame' : Frame Value (Callee Sight)) : Prop where
  onVariables : ∀ name, Option.Rel (fun symbol v => x.good symbol.type v)
    (frame.variableTable.get? name) (frame'.variableTable.get? name)
  onFunctions : ∀ key, Option.Rel x.GoodCallee
    (frame.functionTable.get? key) (frame'.functionTable.get? key)

/-- What is kept of a moment is as expected: its names and its value. -/
def Fine (event : Event Sight) : Prop :=
  event.Resolves x.methods ∧ event.Typed x.good

/-- The machine is as the symbols say, and so has it been at every moment before. -/
structure Agrees (symbols : Symbols) (scene : Scene Sight) : Prop where
  scopes : Arena.Corresponds x.GoodFrame symbols scene.scopes
  events : ∀ event ∈ scene.events, x.Fine event

/-- The run has stopped as it may, and until then everything was as expected. -/
def Failed (halt : Halt Sight) (scene : Scene Sight) : Prop :=
  x.accepts halt ∧ ∀ event ∈ scene.events, x.Fine event

variable {x}

/-! ### Frames -/

/-- Frames that bind nothing agree. -/
theorem GoodFrame.empty : x.GoodFrame .empty .empty :=
  ⟨fun _ => .none, fun _ => .none⟩

/-- Frames that agree bind the same names. -/
theorem GoodFrame.sameNames {frame : Frame VariableSymbol FunctionSymbol}
    {frame' : Frame Value (Callee Sight)} (h : x.GoodFrame frame frame') :
    frame.SameNames frame' := by
  have hsome {α β : Type} {R : α → β → Prop} {a : Option α} {b : Option β}
      (h : Option.Rel R a b) : a.isSome = b.isSome := by
    cases h <;> rfl
  exact ⟨fun name => hsome (h.onVariables name), fun key => hsome (h.onFunctions key)⟩

/-- They do so after a variable has been bound in both, to a symbol and to what is
good for it. -/
theorem GoodFrame.setVariable {frame : Frame VariableSymbol FunctionSymbol}
    {frame' : Frame Value (Callee Sight)} {name : String} {symbol : VariableSymbol} {v : Value}
    (h : x.GoodFrame frame frame') (hv : x.good symbol.type v) :
    x.GoodFrame (frame.setVariable name symbol) (frame'.setVariable name v) := by
  refine ⟨fun other => ?_, h.onFunctions⟩
  rw [Frame.setVariable, Frame.setVariable, Bindings.get?_set, Bindings.get?_set]
  split
  · exact .some hv
  · exact h.onVariables other

/-- They do so after a function has been bound in both. -/
theorem GoodFrame.setFunction {frame : Frame VariableSymbol FunctionSymbol}
    {frame' : Frame Value (Callee Sight)} {key : FunctionKey} {symbol : FunctionSymbol}
    {callee : Callee Sight} (h : x.GoodFrame frame frame')
    (hcallee : x.GoodCallee symbol callee) :
    x.GoodFrame (frame.setFunction key symbol) (frame'.setFunction key callee) := by
  refine ⟨h.onVariables, fun other => ?_⟩
  rw [Frame.setFunction, Frame.setFunction, Bindings.get?_set, Bindings.get?_set]
  split
  · exact .some hcallee
  · exact h.onFunctions other

/-- What the nearest frames of two chains bind a variable to is good, or neither has
it. The induction is on the two chains. -/
theorem nearestVariable_good {chain : Context} {chain' : List (Frame Value (Callee Sight))}
    (h : List.Forall₂ x.GoodFrame chain chain') (name : String) :
    Option.Rel (fun symbol v => x.good symbol.type v) (nearestVariable? name chain)
      (nearestVariable? name chain') := by
  induction h with
  | nil => exact .none
  | @cons frame frame' _ _ hframe _ ih =>
      rw [nearestVariable?, nearestVariable?, List.findSome?_cons, List.findSome?_cons]
      have hvariable := hframe.onVariables name
      revert hvariable
      cases frame.variableTable.get? name <;> cases frame'.variableTable.get? name <;>
        intro hvariable
      · exact ih
      · cases hvariable
      · cases hvariable
      · exact hvariable

/-- So it is with what they bind a function to. -/
theorem nearestFunction_good {chain : Context} {chain' : List (Frame Value (Callee Sight))}
    (h : List.Forall₂ x.GoodFrame chain chain') (key : FunctionKey) :
    Option.Rel x.GoodCallee (nearestFunction? key chain) (nearestFunction? key chain') := by
  induction h with
  | nil => exact .none
  | @cons frame frame' _ _ hframe _ ih =>
      rw [nearestFunction?, nearestFunction?, List.findSome?_cons, List.findSome?_cons]
      have hfunction := hframe.onFunctions key
      revert hfunction
      cases frame.functionTable.get? key <;> cases frame'.functionTable.get? key <;>
        intro hfunction
      · exact ih
      · cases hfunction
      · cases hfunction
      · exact hfunction

/-- Frames with the same names have a name at the same level. -/
theorem level?_eq_of_sameNames {chain : List (Frame V F)} {chain' : List (Frame V' F')}
    (h : List.Forall₂ Frame.SameNames chain chain') (name : String) :
    level? name chain' = level? name chain := by
  induction h with
  | nil => rfl
  | cons hframe _ ih =>
      rw [level?, level?] at ih ⊢
      rw [List.findIdx?_cons, List.findIdx?_cons, hframe.onVariables name, ih]

end Expectation

end Proofs

end PlcLang
