import PlcLang.Proofs.Execution.Control
import PlcLang.Proofs.Relabelling.Trees
import PlcLang.Proofs.Syntax.Subexpressions

/-!
# `PlcLang.Proofs.Execution.Likeness`: two interpreters, and one relation between their runs

Several things are shown of a run by comparing it with another one: of an interpreter that also
notes what happens, of one that looks whether the scopes are in order, of one that takes nothing
for granted, or of the same interpreter on a program with other labels. How a run is put together
is the same in each of them, so that the comparison is made once. `Interpreter.Likeness` lists
what is to be shown of the parts in which two interpreters differ. From it follows what is said of
expressions (`Likeness.evaluate`), of statements (`Likeness.execute`) and of programs
(`Likeness.program`).
-/

set_option autoImplicit false

namespace PlcLang

/-- The parts of a run. What is said of two runs may depend on the scope that is the current one,
and on whether the program's own statements are run by now. -/
inductive Part where
  /-- An expression that is seen from this scope. -/
  | expression (scope : ScopeId)
  /-- Statements in this scope. -/
  | statement (scope : ScopeId)
  /-- The program as a whole. -/
  | program

/-- The scope that is the current one in a part of a run. A program is run in the
program's scope. -/
def Part.scope : Part → ScopeId
  | expression scope | statement scope => scope
  | program => Arena.root

/-- What can be taken for granted of the code that a run comes upon: of expressions, of what the
names of functions are bound to, and of the functions of the host. -/
structure Grounds (α : Type) where
  expression : Expr α → Prop
  callee : FunctionKey → Callee α → Prop
  host : HostFunction → Prop
  ofMethod : ∀ {key : FunctionKey} {method : Method α}, callee key (.method method) →
    ∀ e ∈ method.exprs, expression e
  ofHost : ∀ {key : FunctionKey} {run : HostFunction}, callee key (.host run) → host run

/-- Nothing is taken for granted. This is enough where the two interpreters differ
in nothing that depends on the code. -/
def Grounds.none (α : Type) : Grounds α where
  expression _ := True
  callee _ _ := True
  host _ := True
  ofMethod _ _ _ := trivial
  ofHost _ := trivial

/-- The interpreters `i` and `j` differ in what is done besides, and `j` runs the code that `i`
runs with other labels. In each part of a run they have `R`, as long as `grounds` hold. -/
structure Interpreter.Likeness {α α' ε ε' σ σ' : Type} (i : Interpreter α ε σ)
    (j : Interpreter α' ε' σ') (mark : α → α') (names : Naming) (grounds : Grounds α)
    (R : Part → ∀ {β : Type}, EStateM ε σ β → EStateM ε' σ' β → Prop) : Prop where
  compositional : ∀ part, Proofs.Compositional (R part)
  /-- An expression may stand where a statement is executed. -/
  ofExpression : ∀ {scope : ScopeId} {β : Type} {x : EStateM ε σ β} {y : EStateM ε' σ' β},
    R (.expression scope) x y → R (.statement scope) x y
  /-- A program is run in the program's scope. -/
  ofStatement : ∀ {β : Type} {x : EStateM ε σ β} {y : EStateM ε' σ' β},
    R (.statement Arena.root) x y → R .program x y
  expression : ∀ (m : α) (scope : ScopeId) {x : EStateM ε σ Value} {y : EStateM ε' σ' Value},
    R (.expression scope) x y →
      R (.expression scope) (i.expression m scope x) (j.expression (mark m) scope y)
  statement : ∀ (m : α) (scope : ScopeId) {x : EStateM ε σ (Option Value)}
    {y : EStateM ε' σ' (Option Value)},
    R (.statement scope) x y →
      R (.statement scope) (i.statement m scope x) (j.statement (mark m) scope y)
  /-- A block runs in a scope below the current one. -/
  block : ∀ {scope : ScopeId} {body : ScopeId → EStateM ε σ (Option Value)}
    {body' : ScopeId → EStateM ε' σ' (Option Value)},
    (∀ inner, R (.statement inner) (body inner) (body' inner)) →
      R (.statement scope) (i.withScope scope scope body) (j.withScope scope scope body')
  /-- A method runs in a scope below the program's. -/
  method : ∀ {scope : ScopeId} {body : ScopeId → EStateM ε σ Value}
    {body' : ScopeId → EStateM ε' σ' Value},
    (∀ inner, R (.statement inner) (body inner) (body' inner)) →
      R (.expression scope) (i.withScope scope Arena.root body)
        (j.withScope scope Arena.root body')
  tooDeep : ∀ part {β : Type}, R part (i.halt .tooDeep : EStateM ε σ β) (j.halt .tooDeep)
  tooLong : ∀ part {β : Type}, R part (i.halt .tooLong : EStateM ε σ β) (j.halt .tooLong)
  /-- A fault that names no variable and no function. -/
  fault : ∀ part {β : Type} (cause : FaultCause) (m? : Option α),
    (∀ kind, cause ≠ .notEvaluable kind) →
      R part (i.fault cause (m?.map i.place) : EStateM ε σ β)
        (j.fault cause ((m?.map mark).map j.place))
  /-- What is no expression at all. -/
  foreign : ∀ part {β : Type} (m : α) (kind : NodeKind) (written : String),
    grounds.expression (.foreign m kind written) →
      ∀ m? : Option α, R part (i.fault (.notEvaluable kind) (m?.map i.place) : EStateM ε σ β)
        (j.fault (.notEvaluable kind) ((m?.map mark).map j.place))
  bind : ∀ (scope : ScopeId) (name : String) (value : Value),
    R (.statement scope) (i.bind scope name value) (j.bind scope (names.ofVariable name) value)
  readVariable : ∀ (scope : ScopeId) (name : String) (m : α),
    R (.expression scope) (i.readVariable scope name m)
      (j.readVariable scope (names.ofVariable name) (mark m))
  writeVariable : ∀ (scope : ScopeId) (name : String) (value : Value) (m : α),
    R (.statement scope) (i.writeVariable scope name value m)
      (j.writeVariable scope (names.ofVariable name) value (mark m))
  readField : ∀ (scope : ScopeId) (ref : ObjectRef) (name : String) (m : α),
    R (.expression scope) (i.readField ref name (i.place m))
      (j.readField ref name (j.place (mark m)))
  writeField : ∀ (scope : ScopeId) (ref : ObjectRef) (name : String) (value : Value) (m : α),
    R (.statement scope) (i.writeField ref name value (i.place m))
      (j.writeField ref name value (j.place (mark m)))
  /-- What comes next may know what a function's name is bound to. -/
  findFunction : ∀ (scope : ScopeId) (key : FunctionKey) (m : α)
    {next : Callee α → EStateM ε σ Value} {next' : Callee α' → EStateM ε' σ' Value},
    (∀ callee, grounds.callee key callee →
      R (.expression scope) (next callee) (next' (callee.relabel mark names))) →
      R (.expression scope) (i.findFunction scope key (i.place m) >>= next)
        (j.findFunction scope (names.key key) (j.place (mark m)) >>= next')
  /-- What comes next may know what the method of an object is. -/
  findMethod : ∀ (scope : ScopeId) (ref : ObjectRef) (key : FunctionKey) (m : α)
    {next : HostFunction → EStateM ε σ Value} {next' : HostFunction → EStateM ε' σ' Value},
    (∀ run, grounds.host run → R (.expression scope) (next run) (next' run)) →
      R (.expression scope) (i.findMethod ref key (i.place m) >>= next)
        (j.findMethod ref key (j.place (mark m)) >>= next')
  called : ∀ (scope : ScopeId) (m : α) (callee : Callee α),
    R (.expression scope) (i.before (.call m callee))
      (j.before (.call (mark m) (callee.relabel mark names)))
  callHost : ∀ (scope : ScopeId) {run : HostFunction}, grounds.host run →
    ∀ arguments, R (.expression scope) (i.callHost run arguments) (j.callHost run arguments)
  printLine : ∀ (scope : ScopeId) {key : FunctionKey}, grounds.callee key .print →
    ∀ {arguments}, arguments.length = key.2 →
      R (.expression scope) (i.printLine arguments) (j.printLine arguments)
  applyOperator : ∀ (scope : ScopeId) (m : α) (op : BinaryOp) (left right : α)
    (leftValue rightValue : Value),
    R (.expression scope) (i.applyOperator m op left right leftValue rightValue)
      (j.applyOperator (mark m) op (mark left) (mark right) leftValue rightValue)
  define : ∀ {method : Method α}, (∀ e ∈ method.exprs, grounds.expression e) →
    R .program (i.defineMethod method) (j.defineMethod (method.relabel mark names))
  /-- The method to start with is looked up like a function, but it is a fault of its own if
  there is none. -/
  findMain : ∀ {next : Callee α → EStateM ε σ Value} {next' : Callee α' → EStateM ε' σ' Value},
    (∀ callee, grounds.callee ("main", 0) callee →
      R .program (next callee) (next' (callee.relabel mark names))) →
      R .program (i.findMain >>= next) (j.findMain >>= next')
  result : ∀ value : Value, R .program (i.inRange value.display) (j.inRange value.display)

namespace Interpreter.Likeness

variable {α α' ε ε' σ σ' : Type} {i : Interpreter α ε σ} {j : Interpreter α' ε' σ'}
  {mark : α → α'} {names : Naming} {grounds : Grounds α}
  {R : Part → ∀ {β : Type}, EStateM ε σ β → EStateM ε' σ' β → Prop}

/-! ### Control -/

/-- Variables that are bound in order, under other names in the second run. -/
theorem bindAll (h : Likeness i j mark names grounds R) (scope : ScopeId)
    (pairs : List (String × Value)) :
    R (.statement scope) (i.bindAll scope pairs)
      (j.bindAll scope (pairs.map fun pair => (names.ofVariable pair.1, pair.2))) := by
  induction pairs with
  | nil => exact (h.compositional _).pure ()
  | cons pair rest ih =>
      rw [List.map_cons, Interpreter.bindAll, Interpreter.bindAll]
      exact (h.compositional _).bind (h.bind scope pair.1 pair.2) fun _ => ih

/-- A round for each element, in a scope that binds it. The induction is on the
elements. -/
theorem forEach (h : Likeness i j mark names grounds R) (scope : ScopeId) {name : String}
    {body : ScopeId → EStateM ε σ (Option Value)} {body' : ScopeId → EStateM ε' σ' (Option Value)}
    (hbody : ∀ inner, R (.statement inner) (body inner) (body' inner)) (elements : List Value) :
    R (.statement scope) (i.forEach scope name body elements)
      (j.forEach scope (names.ofVariable name) body' elements) := by
  induction elements with
  | nil => exact (h.compositional _).pure none
  | cons element rest ih =>
      unfold Interpreter.forEach
      refine (h.compositional _).orElse (h.block fun inner => ?_) ih
      exact (h.compositional _).bind (h.bind inner name element) fun _ => hbody inner

/-- Statements one after the other, until one returns. What is known of the
expressions of a list is known of those of each statement. -/
theorem runAll (h : Likeness i j mark names grounds R) (scope : ScopeId)
    {execute : Stmt α → EStateM ε σ (Option Value)}
    {execute' : Stmt α' → EStateM ε' σ' (Option Value)}
    (hexecute : ∀ s, (∀ e ∈ s.exprs, grounds.expression e) →
      R (.statement scope) (execute s) (execute' (s.relabel mark names)))
    {list : List (Stmt α)} (hlist : ∀ e ∈ Stmt.exprsAll list, grounds.expression e) :
    R (.statement scope) (Interpreter.runAll execute list)
      (Interpreter.runAll execute' (Stmt.relabelAll mark names list)) := by
  rw [Stmt.relabelAll_eq_map]
  exact (h.compositional _).runAll fun s hs =>
    hexecute s fun e he => hlist e (Stmt.mem_exprsAll hs he)

/-- What a function's name is bound to is called with as many arguments as its key
says. A method leads to the statements of its body, of which `grounds` speak as
well. -/
theorem call (h : Likeness i j mark names grounds R) (scope : ScopeId) (key : FunctionKey)
    {execute : ScopeId → Stmt α → EStateM ε σ (Option Value)}
    {execute' : ScopeId → Stmt α' → EStateM ε' σ' (Option Value)}
    (hexecute : ∀ inner s, (∀ e ∈ s.exprs, grounds.expression e) →
      R (.statement inner) (execute inner s) (execute' inner (s.relabel mark names)))
    {callee : Callee α} (hcallee : grounds.callee key callee) {arguments : List Value}
    (hlength : arguments.length = key.2) :
    R (.expression scope) (i.call scope execute callee arguments)
      (j.call scope execute' (callee.relabel mark names) arguments) := by
  cases callee with
  | host run => exact h.callHost scope (grounds.ofHost hcallee) arguments
  | print => exact h.printLine scope hcallee hlength
  | method method =>
      have hbody := grounds.ofMethod hcallee
      have hzip : (method.relabel mark names).parameters.zip arguments
          = (method.parameters.zip arguments).map
            fun parameter => (names.ofVariable parameter.1, parameter.2) :=
        List.zip_map_left ..
      simp only [Callee.relabel, Interpreter.call, Interpreter.runMethod]
      refine h.method fun inner => ?_
      rw [hzip]
      refine (h.compositional _).bind (h.bindAll inner _) fun _ => ?_
      exact (h.compositional _).bind (h.runAll inner (hexecute inner) hbody) fun outcome =>
        (h.compositional _).pure _

/-- A value that must be a truth value, asked for in both runs. -/
theorem requireBoolean (h : Likeness i j mark names grounds R) (part : Part) (value : Value)
    (m : α) :
    R part (i.requireBoolean value (i.place m)) (j.requireBoolean value (j.place (mark m))) :=
  (h.compositional part).requireBoolean (h.fault part (.notBoolean value.tag) (some m) nofun)

/-- A value that must be a sequence, asked for in both runs. -/
theorem requireSequence (h : Likeness i j mark names grounds R) (part : Part) (value : Value)
    (m : α) :
    R part (i.requireSequence value (i.place m)) (j.requireSequence value (j.place (mark m))) :=
  (h.compositional part).requireSequence (h.fault part (.notIterable value.tag) (some m) nofun)

/-- A value that must be an object, asked for in both runs. -/
theorem requireObject (h : Likeness i j mark names grounds R) (part : Part) (value : Value)
    (m : α) :
    R part (i.requireObject value (i.place m)) (j.requireObject value (j.place (mark m))) :=
  (h.compositional part).requireObject (h.fault part (.noMembers value.tag) (some m) nofun)

/-! ### Expressions and statements -/

mutual

/-- What is said of the parts is said of every expression. The recursion is that on the depth, in
both theorems: the call of a method leads to statements that are no part of the expression. -/
theorem evaluate (h : Likeness i j mark names grounds R) (rounds depth : Nat) (scope : ScopeId)
    (e : Expr α) (hgrounds : ∀ sub ∈ e.subs, grounds.expression sub) :
    R (.expression scope) (i.evaluate rounds depth scope e)
      (j.evaluate rounds depth scope (e.relabel mark names)) := by
  have hR := h.compositional (.expression scope)
  cases depth with
  | zero =>
      rw [Interpreter.evaluate, Interpreter.evaluate, Expr.mark_relabel]
      exact h.expression e.mark scope (h.tooDeep _)
  | succ depth =>
      have hpart (e : Expr α) (he : ∀ sub ∈ e.subs, grounds.expression sub) :=
        evaluate h rounds depth scope e he
      cases e with
      | nil m | boolean m value | integer m value | decimal m value | character m text
      | string m text =>
          simp only [Expr.relabel, Interpreter.evaluate]
          exact h.expression m scope (hR.pure _)
      | group m inner =>
          obtain ⟨-, hinner⟩ := List.forall_mem_cons.mp hgrounds
          simp only [Expr.relabel, Interpreter.evaluate]
          exact h.expression m scope (hpart inner hinner)
      | binary m op left right =>
          obtain ⟨-, hboth⟩ := List.forall_mem_cons.mp hgrounds
          obtain ⟨hleft, hright⟩ := List.forall_mem_append.mp hboth
          have hoperation := hR.bind (hpart left hleft) fun leftValue =>
            hR.bind (hpart right hright) fun rightValue =>
              h.applyOperator scope m op left.mark right.mark leftValue rightValue
          -- `OR` has an arm of its own in the interpreter, all other operators share one.
          cases op with
          | or =>
              simp only [Expr.relabel, Interpreter.evaluate, Expr.mark_relabel]
              exact h.expression m scope (hR.disjunction
                (fun value => h.requireBoolean _ value right.mark) (hpart left hleft)
                (hpart right hright))
          | _ =>
              simp only [Expr.relabel, Interpreter.evaluate, Expr.mark_relabel]
              exact h.expression m scope hoperation
      | var m name =>
          simp only [Expr.relabel, Interpreter.evaluate]
          exact h.expression m scope (h.readVariable scope name m)
      | field m receiver name =>
          obtain ⟨-, hreceiver⟩ := List.forall_mem_cons.mp hgrounds
          simp only [Expr.relabel, Interpreter.evaluate, Expr.mark_relabel]
          refine h.expression m scope (hR.bind (hpart receiver hreceiver) fun value => ?_)
          refine hR.bind (h.requireObject _ value receiver.mark) fun ref => ?_
          exact h.readField scope ref name m
      | call m name arguments =>
          obtain ⟨-, harguments⟩ := List.forall_mem_cons.mp hgrounds
          simp only [Expr.relabel, Interpreter.evaluate, Expr.length_relabelAll]
          refine h.expression m scope (h.findFunction scope (name, arguments.length) m
            fun callee hcallee => ?_)
          rw [Expr.relabelAll_eq_map]
          refine hR.mapM_bind (fun e he => hpart e fun sub hsub =>
            harguments sub (Expr.mem_subsAll he hsub)) fun values hlength => ?_
          refine hR.bind (h.called scope m callee) fun _ => ?_
          exact h.call scope (name, arguments.length) (execute h rounds depth) hcallee hlength
      | methodCall m receiver name arguments =>
          obtain ⟨-, hboth⟩ := List.forall_mem_cons.mp hgrounds
          obtain ⟨hreceiver, harguments⟩ := List.forall_mem_append.mp hboth
          simp only [Expr.relabel, Interpreter.evaluate, Expr.mark_relabel,
            Expr.length_relabelAll]
          refine h.expression m scope (hR.bind (hpart receiver hreceiver) fun value => ?_)
          refine hR.bind (h.requireObject _ value receiver.mark) fun ref => ?_
          refine h.findMethod scope ref (name, arguments.length) m fun run hrun => ?_
          rw [Expr.relabelAll_eq_map]
          refine hR.mapM_bind (fun e he => hpart e fun sub hsub =>
            harguments sub (Expr.mem_subsAll he hsub)) fun values _ => ?_
          exact h.callHost scope hrun (.object ref :: values)
      | foreign m kind written =>
          have hplace := Expr.place?_relabel mark names (.foreign m kind written)
          rw [Expr.relabel] at hplace
          simp only [Expr.relabel, Interpreter.evaluate, hplace]
          exact h.expression m scope (h.foreign _ m kind written
            (hgrounds _ List.mem_cons_self) _)

/-- What is said of the parts is said of every statement. It goes with `evaluate`,
by the same recursion. -/
theorem execute (h : Likeness i j mark names grounds R) (rounds depth : Nat) (scope : ScopeId)
    (s : Stmt α) (hgrounds : ∀ e ∈ s.exprs, grounds.expression e) :
    R (.statement scope) (i.execute rounds depth scope s)
      (j.execute rounds depth scope (s.relabel mark names)) := by
  have hR := h.compositional (.statement scope)
  cases depth with
  | zero =>
      rw [Interpreter.execute, Interpreter.execute, Stmt.mark_relabel]
      exact h.statement s.mark scope (h.tooDeep _)
  | succ depth =>
      have hpart (e : Expr α) (he : ∀ sub ∈ e.subs, grounds.expression sub) :=
        h.ofExpression (evaluate h rounds depth scope e he)
      have hbody (inner : ScopeId) (body : List (Stmt α))
          (hbody : ∀ e ∈ Stmt.exprsAll body, grounds.expression e) :
          R (.statement inner) (Interpreter.runAll (i.execute rounds depth inner) body)
            (Interpreter.runAll (j.execute rounds depth inner)
              (Stmt.relabelAll mark names body)) :=
        h.runAll inner (execute h rounds depth inner) hbody
      cases s with
      | expression m value =>
          simp only [Stmt.relabel, Interpreter.execute]
          exact h.statement m scope (hR.bind (hpart value hgrounds) fun _ => hR.pure none)
      | declare m d =>
          obtain ⟨name, typeName, value⟩ := d
          have hbind (value : Value) := hR.bind (h.bind scope name value) fun _ =>
            hR.pure (none : Option Value)
          simp only [Stmt.relabel, Interpreter.execute, Declaration.relabel]
          refine h.statement m scope ?_
          cases value with
          | none => exact hbind .nil
          | some value => exact hR.bind (hpart value hgrounds) hbind
      | assign m target value =>
          obtain ⟨htarget, hvalue⟩ := List.forall_mem_append.mp hgrounds
          cases target with
          | var m' name =>
              simp only [Stmt.relabel, Expr.relabel, Interpreter.execute]
              refine h.statement m scope (hR.bind (hpart value hvalue) fun value => ?_)
              exact hR.bind (h.writeVariable scope name value m') fun _ => hR.pure none
          | field m' receiver name =>
              obtain ⟨-, hreceiver⟩ := List.forall_mem_cons.mp htarget
              simp only [Stmt.relabel, Expr.relabel, Interpreter.execute, Expr.mark_relabel]
              refine h.statement m scope (hR.bind (hpart value hvalue) fun value => ?_)
              refine hR.bind (hpart receiver hreceiver) fun target => ?_
              refine hR.bind (h.requireObject _ target receiver.mark) fun ref => ?_
              exact hR.bind (h.writeField scope ref name value m') fun _ => hR.pure none
          -- Nothing else can be assigned to, and that is found out before anything is evaluated.
          | foreign m' kind written =>
              have hplace := Expr.place?_relabel mark names (.foreign m' kind written)
              rw [Expr.relabel] at hplace
              simp only [Stmt.relabel, Expr.relabel, Interpreter.execute, hplace]
              exact h.statement m scope (h.fault _ .notAssignable _ nofun)
          | _ =>
              simp only [Stmt.relabel, Expr.relabel, Interpreter.execute]
              exact h.statement m scope (h.fault _ .notAssignable (some _) nofun)
      | cond m condition thenBody elseBody =>
          obtain ⟨hcondition, hbodies⟩ := List.forall_mem_append.mp hgrounds
          obtain ⟨hthen, helse⟩ := List.forall_mem_append.mp hbodies
          simp only [Stmt.relabel, Interpreter.execute, Expr.mark_relabel]
          refine h.statement m scope (hR.bind (hpart condition hcondition) fun value => ?_)
          refine hR.bind (h.requireBoolean _ value condition.mark) fun truth => ?_
          refine h.block fun inner => ?_
          cases truth with
          | true => exact hbody inner thenBody hthen
          | false => exact hbody inner elseBody helse
      | forIn m name value body =>
          obtain ⟨hvalue, hstatements⟩ := List.forall_mem_append.mp hgrounds
          simp only [Stmt.relabel, Interpreter.execute, Expr.mark_relabel]
          refine h.statement m scope (hR.bind (hpart value hvalue) fun iterated => ?_)
          refine hR.bind (h.requireSequence _ iterated value.mark) fun elements => ?_
          exact h.forEach scope (fun inner => hbody inner body hstatements) elements
      | whileDo m condition body =>
          obtain ⟨hcondition, hstatements⟩ := List.forall_mem_append.mp hgrounds
          simp only [Stmt.relabel, Interpreter.execute, Expr.mark_relabel]
          refine h.statement m scope (hR.whileTrue (h.tooLong _) ?_
            (h.block fun inner => hbody inner body hstatements) rounds)
          exact hR.bind (hpart condition hcondition) fun value =>
            h.requireBoolean _ value condition.mark
      | result m value =>
          simp only [Stmt.relabel, Interpreter.execute]
          exact h.statement m scope (hR.map some (hpart value hgrounds))
      | foreign m kind written =>
          simp only [Stmt.relabel, Interpreter.execute]
          exact h.statement m scope (hR.pure none)

end

/-! ### Programs -/

/-- The fields of a program, one after the other. The induction is on the list of
the fields. -/
theorem defineFields (h : Likeness i j mark names grounds R) (limits : Limits)
    (fields : List (Field α)) (hgrounds : ∀ field ∈ fields, ∀ e ∈ field.exprs,
      grounds.expression e) :
    R .program (i.defineFields limits fields)
      (j.defineFields limits (fields.map (Field.relabel mark names))) := by
  have hR := h.compositional .program
  induction fields with
  | nil => exact hR.pure ()
  | cons field rest ih =>
      have hfield := hgrounds field List.mem_cons_self
      have hrest := ih fun other hother => hgrounds other (List.mem_cons_of_mem field hother)
      obtain ⟨m, name, typeName, value⟩ := field
      have hbind (value : Value) :=
        hR.bind (h.ofStatement (h.bind Arena.root name value)) fun _ => hrest
      rw [List.map_cons, Interpreter.defineFields, Interpreter.defineFields]
      cases value with
      | none => exact hbind .nil
      | some value =>
          exact hR.bind (h.ofStatement (h.ofExpression
            (h.evaluate limits.rounds limits.depth Arena.root value hfield))) hbind

/-- The methods of a program, one after the other. Nothing of them is run yet. -/
theorem defineMethods (h : Likeness i j mark names grounds R) (methods : List (Method α))
    (hgrounds : ∀ method ∈ methods, ∀ e ∈ method.exprs, grounds.expression e) :
    R .program (methods.forM i.defineMethod)
      ((methods.map (Method.relabel mark names)).forM j.defineMethod) := by
  have hR := h.compositional .program
  induction methods with
  | nil => exact hR.pure ()
  | cons method rest ih =>
      refine hR.bind (h.define (hgrounds method List.mem_cons_self)) fun _ =>
        ih fun other hother => ?_
      exact hgrounds other (List.mem_cons_of_mem method hother)

/-- What is said of the parts is said of every program: of its fields, of its
methods, and of the call of the method that it begins with. -/
theorem program (h : Likeness i j mark names grounds R) (limits : Limits) (tree : Program α)
    (hgrounds : ∀ e ∈ tree.exprs, grounds.expression e) :
    R .program (i.program limits tree) (j.program limits (tree.relabel mark names)) := by
  obtain ⟨hfields, hmethods⟩ := List.forall_mem_append.mp hgrounds
  have hR := h.compositional .program
  unfold Interpreter.program
  refine hR.bind (h.defineFields limits tree.fields fun field hfield e he =>
    hfields e (List.mem_flatMap.mpr ⟨field, hfield, he⟩)) fun _ => ?_
  refine hR.bind ?_ fun _ => hR.bind ?_ fun result => ?_
  · exact h.defineMethods tree.methods fun method hmethod e he =>
      hmethods e (List.mem_flatMap.mpr ⟨method, hmethod, he⟩)
  · unfold Interpreter.runMain
    refine h.findMain fun main hmain => h.ofStatement (h.ofExpression ?_)
    exact h.call _ ("main", 0) (h.execute limits.rounds limits.depth) hmain rfl
  · exact hR.bind (h.result result) fun _ => hR.pure result

end Interpreter.Likeness

end PlcLang
