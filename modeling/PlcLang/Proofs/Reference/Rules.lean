import PlcLang.Proofs.Reference.Runs

/-!
# `PlcLang.Proofs.Reference.Rules`: the rules of the reference in runs

Every rule of the reference has a lemma that says so of the interpreter with limits that are
given: what the parts of a run attain the whole attains, with one level more of nesting where
the interpreter takes one. A lemma has the name of its rule and the rule's premises, with
*attains* for the judgements.
-/

set_option autoImplicit false

namespace PlcLang.Reference

open Interpreter Proofs

/-! ### What is attained

With limits that are given, a part of a program attains an outcome and a memory if a run of
the part has come to them, whatever machine it begins with that mirrors the memory before, in
whatever scope that views the environment.
-/

section

variable (env : Environment) (mem : Memory)

/-- What evaluating an expression attains, on all machines that mirror the memory
and in all scopes that view the environment. -/
def EvaluateAttains (e : Expr Offset) (o : Outcome Value) (after : Memory)
    (rounds depth : Nat) : Prop :=
  ∀ (machine : Machine) (layout : Layout) (scope : Nat), Mirrors machine layout mem →
    Views layout scope env →
      Attains (Settles layout) o after (plain.evaluate rounds depth scope e machine)

/-- What evaluating a list of arguments attains, from left to right. -/
def ArgumentsAttain (list : List (Expr Offset)) (o : Outcome (List Value)) (after : Memory)
    (rounds depth : Nat) : Prop :=
  ∀ (machine : Machine) (layout : Layout) (scope : Nat), Mirrors machine layout mem →
    Views layout scope env →
      Attains (Settles layout) o after (list.mapM (plain.evaluate rounds depth scope) machine)

/-- What calling a function attains, from whichever scope. -/
def CallAttains (callable : Callable) (arguments : List Value) (o : Outcome Value)
    (after : Memory) (rounds depth : Nat) : Prop :=
  ∀ (machine : Machine) (layout : Layout) (scope : Nat), Mirrors machine layout mem →
    Views layout scope env →
      Attains (Settles layout) o after
        (plain.call scope (plain.execute rounds depth) callable arguments machine)

/-- The first value of what is declared: nil if nothing is said of it. -/
def firstValue (rounds depth : Nat) (scope : ScopeId) : Option (Expr Offset) → Run Value
  | none => pure .nil
  | some e => plain.evaluate rounds depth scope e

/-- What the first value of a declaration attains. -/
def InitialAttains (value : Option (Expr Offset)) (o : Outcome Value) (after : Memory)
    (rounds depth : Nat) : Prop :=
  ∀ (machine : Machine) (layout : Layout) (scope : Nat), Mirrors machine layout mem →
    Views layout scope env →
      Attains (Settles layout) o after (firstValue rounds depth scope value machine)

/-- What executing a statement attains. The scope may have one more variable
afterwards. -/
def ExecuteAttains (s : Stmt Offset) (o : Outcome (Option Value × Environment))
    (after : Memory) (rounds depth : Nat) : Prop :=
  ∀ (machine : Machine) (layout : Layout) (scope : Nat), Mirrors machine layout mem →
    Views layout scope env →
      Attains (Leaves scope layout) o after (plain.execute rounds depth scope s machine)

/-- What executing statements one after the other attains. -/
def AllAttain (list : List (Stmt Offset)) (o : Outcome (Option Value)) (after : Memory)
    (rounds depth : Nat) : Prop :=
  ∀ (machine : Machine) (layout : Layout) (scope : Nat), Mirrors machine layout mem →
    Views layout scope env →
      Attains (Within scope layout) o after (runAll (plain.execute rounds depth scope) list machine)

/-- What a loop over values attains. -/
def ForAttains (name : String) (body : List (Stmt Offset)) (elements : List Value)
    (o : Outcome (Option Value)) (after : Memory) (rounds depth : Nat) : Prop :=
  ∀ (machine : Machine) (layout : Layout) (scope : Nat), Mirrors machine layout mem →
    Views layout scope env →
      Attains (Settles layout) o after
        (plain.forEach scope name (fun inner => runAll (plain.execute rounds depth inner) body)
          elements machine)

/-- What a loop attains that goes round no more than `turns` times. -/
def WhileAttains (c : Expr Offset) (body : List (Stmt Offset)) (o : Outcome (Option Value))
    (after : Memory) (turns rounds depth : Nat) : Prop :=
  ∀ (machine : Machine) (layout : Layout) (scope : Nat), Mirrors machine layout mem →
    Views layout scope env →
      Attains (Settles layout) o after
        (plain.whileTrue
          (do
            let value ← plain.evaluate rounds depth scope c
            plain.requireBoolean value c.mark)
          (plain.withScope scope scope fun inner => runAll (plain.execute rounds depth inner) body)
          turns machine)

end

variable {env env' : Environment} {mem between before after : Memory} {rounds depth : Nat}
  {α : Type}

/-- A demand that is met or not is one of the two: the value that is wanted, or a
fault at the expression. -/
theorem EvaluateAttains.demand {e : Expr Offset} {o : Outcome Value}
    (h : EvaluateAttains env mem e o after rounds depth) {machine : Machine} {layout : Layout}
    {scope : Nat} (hm : Mirrors machine layout mem) (hviews : Views layout scope env)
    {want : Value → Except FaultCause α} {require : Value → Run α}
    (hrequire : ∀ value, require value = (Outcome.ofExcept e.mark (want value)).run) :
    Attains (Settles layout) (o.demand want e) after
      ((plain.evaluate rounds depth scope e >>= require) machine) := by
  refine (h _ _ _ hm hviews).tail (fun value => .ofExcept e.mark (want value)) ?_ ?_
  · intro value last _
    rw [hrequire]
  · intro value
    rw [hrequire]
    exact steady_run _

/-! ### What follows a part that is cut

Where a derivation is cut the run goes on. Whatever it comes to then, it takes nothing back that
it has printed.
-/

/-- Statements one after the other run beside themselves, since each of them does. -/
theorem beside_block (rounds depth : Nat) (scope : ScopeId) (list : List (Stmt Offset)) :
    Steady.Beside (runAll (plain.execute rounds depth scope) list)
      (runAll (plain.execute rounds depth scope) (Stmt.relabelAll id .same list)) :=
  likeness_steady.runAll scope (likeness_steady.execute rounds depth scope) fun _ _ => trivial

/-- Statements one after the other keep what has been printed. -/
theorem steady_block (rounds depth : Nat) (scope : ScopeId) (list : List (Stmt Offset)) :
    Steady (runAll (plain.execute rounds depth scope) list) :=
  (beside_block rounds depth scope list).left

/-- So do arguments. -/
theorem steady_arguments (rounds depth : Nat) (scope : ScopeId) (list : List (Expr Offset)) :
    Steady (list.mapM (plain.evaluate rounds depth scope)) := by
  induction list with
  | nil => exact .pure []
  | cons e rest ih =>
      rw [List.mapM_cons]
      exact (steady_evaluate rounds depth scope e).bind fun value =>
        ih.bind fun values => .pure (value :: values)

/-- To ask for a truth value prints nothing. -/
theorem steady_requireBoolean (value : Value) (m : Offset) :
    Steady (plain.requireBoolean value m) :=
  (likeness_steady.requireBoolean .program value m).left

/-- To ask for an object prints nothing. -/
theorem steady_requireObject (value : Value) (m : Offset) :
    Steady (plain.requireObject value m) :=
  (likeness_steady.requireObject .program value m).left

/-- What goes on where nothing is returned keeps what has been printed, if both
parts do. -/
theorem steady_orElse {x next : Run (Option Value)} (hx : Steady x) (hnext : Steady next) :
    Steady (do
      match ← x with
      | some result => pure (some result)
      | none => next) :=
  (Steady.compositional.orElse (⟨hx⟩ : Steady.Beside x x) (⟨hnext⟩ : Steady.Beside next next)).left

/-- A loop over values keeps what has been printed. -/
theorem steady_forEach (rounds depth : Nat) (scope : ScopeId) (name : String)
    (body : List (Stmt Offset)) (elements : List Value) :
    Steady (plain.forEach scope name (fun inner => runAll (plain.execute rounds depth inner) body)
      elements) :=
  (likeness_steady.forEach scope (fun inner => beside_block rounds depth inner body) elements).left

/-- A call keeps what has been printed. -/
theorem steady_call (rounds depth : Nat) (scope : ScopeId) (callable : Callable)
    (arguments : List Value) :
    Steady (plain.call scope (plain.execute rounds depth) callable arguments) :=
  (likeness_steady.call scope ("", arguments.length) (likeness_steady.execute rounds depth)
    trivial rfl).left

/-! ### Rules of expressions -/

namespace EvaluateAttains

variable {m : Offset} {e left right receiver : Expr Offset} {value : Value} {o : Outcome Value}
  {why : Break} {name : String} {arguments : List (Expr Offset)}

/-- A literal is its value. -/
theorem literal (hvalue : literal? e = some value) :
    EvaluateAttains env mem e (.done value) mem rounds (depth + 1) := by
  intro machine layout scope hm hviews
  cases e <;> cases hvalue <;> simp only [evaluate, plain_expression] <;> exact .done ⟨rfl, hm⟩

/-- Parentheses are what is in them. -/
theorem group (h : EvaluateAttains env mem e o after rounds depth) :
    EvaluateAttains env mem (.group m e) o after rounds (depth + 1) := by
  intro machine layout scope hm hviews
  simp only [evaluate, plain_expression]
  exact h _ _ _ hm hviews

/-- The right side of an `OR`, where it is come to, keeps what has been printed. -/
theorem steady_orRight (rounds depth : Nat) (scope : ScopeId) (right : Expr Offset) :
    Steady (do
      let value ← plain.evaluate rounds depth scope right
      let truth ← plain.requireBoolean value right.mark
      pure (Value.boolean truth)) :=
  (steady_evaluate rounds depth scope right).bind fun value =>
    (steady_requireBoolean value _).bind fun _ => .pure _

/-- An `OR` whose left side is true does not come to its right side. -/
theorem orTrue (h : EvaluateAttains env mem left (.done (.boolean true)) after rounds depth) :
    EvaluateAttains env mem (.binary m .or left right) (.done (.boolean true)) after rounds
      (depth + 1) := by
  intro machine layout scope hm hviews
  simp only [evaluate, plain_expression, plain_place]
  refine (h _ _ _ hm hviews).seq ?_
  rintro _ last ⟨rfl, hlast⟩
  exact .done ⟨rfl, hlast⟩

/-- An `OR` whose left side is anything else is its right side, which must be a
truth value. -/
theorem orRight (hfirst : EvaluateAttains env mem left (.done value) between rounds depth)
    (hne : value ≠ .boolean true)
    (hsecond : EvaluateAttains env between right o after rounds depth) :
    EvaluateAttains env mem (.binary m .or left right) ((o.demand wantBoolean right).map .boolean)
      after rounds (depth + 1) := by
  intro machine layout scope hm hviews
  simp only [evaluate, plain_expression, plain_place]
  refine (hfirst _ _ _ hm hviews).seq ?_
  rintro value last ⟨rfl, hlast⟩
  have hright : Attains (Settles layout) ((o.demand wantBoolean right).map .boolean) after
      ((do
        let other ← plain.evaluate rounds depth scope right
        let truth ← plain.requireBoolean other right.mark
        pure (Value.boolean truth)) last) := by
    rw [← bind_assoc]
    exact (hsecond.demand hlast hviews fun other => requireBoolean_eq other right).map
      fun truth _ _ htruth => ⟨congrArg Value.boolean htruth.1, htruth.2⟩
  cases value with
  | boolean truth =>
      cases truth with
      | true => exact absurd rfl hne
      | false => exact hright
  | _ => exact hright

/-- Any other operator evaluates both its operands, and makes a value of theirs or
refuses them. -/
theorem binary {op : BinaryOp} (hop : op ≠ .or)
    (hfirst : EvaluateAttains env mem left (.done value) between rounds depth)
    (hsecond : EvaluateAttains env between right o after rounds depth) :
    EvaluateAttains env mem (.binary m op left right)
      (o.bind fun other => .ofOperator m (op.apply value other)) after rounds (depth + 1) := by
  intro machine layout scope hm hviews
  rw [evaluate_binary_eq rounds depth scope m hop left right]
  refine (hfirst _ _ _ hm hviews).seq ?_
  rintro value last ⟨rfl, hlast⟩
  exact (hsecond _ _ _ hlast hviews).tail (fun other => .ofOperator m (op.apply value other))
    (fun _ _ _ => rfl) fun other => steady_run _

/-- Where the left operand has no value there is none. -/
theorem binaryBroken {op : BinaryOp}
    (h : EvaluateAttains env mem left (.broken why) after rounds depth) :
    EvaluateAttains env mem (.binary m op left right) (.broken why) after rounds (depth + 1) := by
  intro machine layout scope hm hviews
  by_cases hop : op = .or
  · subst hop
    simp only [evaluate, plain_expression, plain_place]
    refine (h _ _ _ hm hviews).broken fun value => ?_
    cases value with
    | boolean truth =>
        cases truth with
        | true => exact .pure _
        | false => exact steady_orRight rounds depth scope right
    | _ => exact steady_orRight rounds depth scope right
  · rw [evaluate_binary_eq rounds depth scope m hop left right]
    exact (h _ _ _ hm hviews).broken fun value =>
      (steady_evaluate rounds depth scope right).bind fun other => steady_run _

/-- A variable has the value in its cell, if it is bound. -/
theorem var : EvaluateAttains env mem (.var m name)
    (.ofOption (.undefinedVariable name) m (mem.lookup? env name)) mem rounds (depth + 1) := by
  intro machine layout scope hm hviews
  simp only [evaluate, plain_expression]
  rw [readVariable_eq hm hviews name m]
  exact .run hm

/-- A field is looked up in the heap after the receiver has been evaluated. -/
theorem field (h : EvaluateAttains env mem receiver o after rounds depth) :
    EvaluateAttains env mem (.field m receiver name)
      ((o.demand wantObject receiver).bind fun ref =>
        .ofOption (.undefinedField name) m ((after.heap.fields ref).get? name))
      after rounds (depth + 1) := by
  intro machine layout scope hm hviews
  simp only [evaluate, plain_expression, plain_place]
  rw [← bind_assoc]
  exact (h.demand hm hviews fun value => requireObject_eq value receiver).tail
    (fun ref => .ofOption (.undefinedField name) m ((after.heap.fields ref).get? name))
    (fun ref _ hlast => readField_eq hlast ref name m) fun ref => steady_readField ref name m

/-- A function is looked up before its arguments are evaluated. -/
theorem evaluate_call_eq (scope : ScopeId) (m : Offset) (name : String)
    (arguments : List (Expr Offset)) :
    plain.evaluate rounds (depth + 1) scope (.call m name arguments)
      = (do
          let callee ← plain.findFunction scope (name, arguments.length) m
          let values ← arguments.mapM (plain.evaluate rounds depth scope)
          plain.call scope (plain.execute rounds depth) callee values) := by
  simp only [evaluate, plain_expression, plain_place, plain_before, pure_bind]

/-- A call evaluates the arguments and then runs what is bound to the name. -/
theorem call {callable : Callable} {values : List Value}
    (hcallable : env.functions.get? (name, arguments.length) = some callable)
    (hvalues : ArgumentsAttain env mem arguments (.done values) between rounds depth)
    (hcalled : CallAttains env between callable values o after rounds depth) :
    EvaluateAttains env mem (.call m name arguments) o after rounds (depth + 1) := by
  intro machine layout scope hm hviews
  rw [evaluate_call_eq]
  have hfind := findFunction_eq hm hviews (name, arguments.length) m
  rw [hcallable] at hfind
  rw [bind_eq_of_ok hfind]
  refine (hvalues _ _ _ hm hviews).seq ?_
  rintro _ last ⟨rfl, hlast⟩
  exact hcalled _ _ _ hlast hviews

/-- Where an argument has no value nothing is called. -/
theorem callBroken {callable : Callable}
    (hcallable : env.functions.get? (name, arguments.length) = some callable)
    (h : ArgumentsAttain env mem arguments (.broken why) after rounds depth) :
    EvaluateAttains env mem (.call m name arguments) (.broken why) after rounds (depth + 1) := by
  intro machine layout scope hm hviews
  rw [evaluate_call_eq]
  have hfind := findFunction_eq hm hviews (name, arguments.length) m
  rw [hcallable] at hfind
  rw [bind_eq_of_ok hfind]
  exact (h _ _ _ hm hviews).broken fun values =>
    steady_call rounds depth _ callable values

/-- Where nothing is bound to the name, the arguments are not evaluated. -/
theorem callUndefined (hcallable : env.functions.get? (name, arguments.length) = none) :
    EvaluateAttains env mem (.call m name arguments)
      (.broken (.fault ⟨.undefinedFunction (name, arguments.length), some m⟩)) mem rounds
      (depth + 1) := by
  intro machine layout scope hm hviews
  rw [evaluate_call_eq]
  have hfind := findFunction_eq hm hviews (name, arguments.length) m
  rw [hcallable] at hfind
  rw [bind_eq_of_error hfind]
  exact .fault hm.output_eq

/-- A method of an object is looked up before its arguments are evaluated, and is
given the object first. -/
theorem methodCall {ref : ObjectRef} {run : HostFunction} {values : Outcome (List Value)}
    (hfirst : EvaluateAttains env mem receiver (.done (.object ref)) between rounds depth)
    (hrun : between.method? ref (name, arguments.length) = some run)
    (hsecond : ArgumentsAttain env between arguments values after rounds depth) :
    EvaluateAttains env mem (.methodCall m receiver name arguments)
      (values.bind fun values => .ofHost (run after.heap (.object ref :: values))) after rounds
      (depth + 1) := by
  intro machine layout scope hm hviews
  simp only [evaluate, plain_expression, plain_place]
  rw [← bind_assoc]
  have hobject := hfirst.demand hm hviews fun value => requireObject_eq value receiver
  refine hobject.seq ?_
  rintro ref found ⟨rfl, hfound⟩
  have hfind := findMethod_eq hfound ref (name, arguments.length) m
  rw [hrun] at hfind
  rw [bind_eq_of_ok hfind]
  exact (hsecond _ _ _ hfound hviews).tail
    (fun values => .ofHost (run after.heap (.object ref :: values)))
    (fun values _ hlast => callHost_eq hlast run (.object ref :: values))
    fun values => steady_callHost run (.object ref :: values)

/-- Where the receiver has no value, is no object or has no such method, the
arguments are not evaluated. -/
theorem methodBroken (h : EvaluateAttains env mem receiver o after rounds depth)
    (hwhy : ((o.demand wantObject receiver).bind fun ref =>
      .ofOption (.undefinedMethod (name, arguments.length)) m
        (after.method? ref (name, arguments.length))) = .broken why) :
    EvaluateAttains env mem (.methodCall m receiver name arguments) (.broken why) after rounds
      (depth + 1) := by
  intro machine layout scope hm hviews
  simp only [evaluate, plain_expression, plain_place]
  rw [← bind_assoc]
  have hobject := h.demand hm hviews fun value => requireObject_eq value receiver
  refine hobject.bindBroken hwhy (fun ref found hfound hmethod => ?_) fun ref => ?_
  · obtain ⟨hnone, rfl⟩ := ofOption_eq_broken hmethod
    have hfind := findMethod_eq hfound ref (name, arguments.length) m
    rw [hnone] at hfind
    rw [bind_eq_of_error hfind]
    exact .fault hfound.output_eq
  · exact (steady_findMethod ref _ m).bind fun run =>
      (steady_arguments rounds depth scope arguments).bind fun values =>
        steady_callHost run (.object ref :: values)

/-- A node that is no expression has no value. -/
theorem foreign {kind : NodeKind} {written : String} :
    EvaluateAttains env mem (.foreign m kind written)
      (.broken (.fault ⟨.notEvaluable kind, (Expr.foreign m kind written).place?⟩)) mem rounds
      (depth + 1) := by
  intro machine layout scope hm hviews
  simp only [evaluate, plain_expression, map_plain_place]
  exact .fault hm.output_eq

/-- Any evaluation can be looked at before it has begun. -/
theorem cut : EvaluateAttains env mem e (.broken .cut) mem rounds depth :=
  fun _ _ _ hm _ => .cut_of_steady hm (steady_evaluate rounds depth _ e)

end EvaluateAttains

namespace ArgumentsAttain

variable {e : Expr Offset} {rest : List (Expr Offset)}

/-- No arguments have no values. -/
theorem nil : ArgumentsAttain env mem [] (.done []) mem rounds depth :=
  fun _ _ _ hm _ => .done ⟨rfl, hm⟩

/-- The first argument is evaluated before the others. -/
theorem cons {value : Value} {o : Outcome (List Value)}
    (hfirst : EvaluateAttains env mem e (.done value) between rounds depth)
    (hsecond : ArgumentsAttain env between rest o after rounds depth) :
    ArgumentsAttain env mem (e :: rest) (o.map (value :: ·)) after rounds depth := by
  intro machine layout scope hm hviews
  rw [List.mapM_cons]
  refine (hfirst _ _ _ hm hviews).seq ?_
  rintro value last ⟨rfl, hlast⟩
  exact (hsecond _ _ _ hlast hviews).map fun values _ _ hvalues =>
    ⟨congrArg (value :: ·) hvalues.1, hvalues.2⟩

/-- Where the first argument has no value the others are not evaluated. -/
theorem broken {why : Break} (h : EvaluateAttains env mem e (.broken why) after rounds depth) :
    ArgumentsAttain env mem (e :: rest) (.broken why) after rounds depth := by
  intro machine layout scope hm hviews
  rw [List.mapM_cons]
  exact (h _ _ _ hm hviews).broken fun value =>
    (steady_arguments rounds depth scope rest).bind fun values => .pure (value :: values)

end ArgumentsAttain

/-! ### Rules of calls -/

namespace CallAttains

variable {arguments : List Value}

/-- A method runs in a fresh frame on top of the program's, with its parameters
declared there. Without a result its value is nil. -/
theorem method {m : Method Offset} {inner : Environment × Memory} {o : Outcome (Option Value)}
    (hinner : inner = declareAll env.outermost.enter mem (m.parameters.zip arguments))
    (h : AllAttain inner.1 inner.2 m.body o after rounds depth) :
    CallAttains env mem (.method m) arguments (o.map (·.getD .nil)) after rounds depth := by
  intro machine layout scope hm hviews
  subst hinner
  unfold Interpreter.call runMethod
  refine Attains.withScope hm hviews.outermost fun pushed hpushed hfresh => ?_
  obtain ⟨bound, layout', hrun, hgrown, hbound, hviews'⟩ :=
    bindAll_eq_ok hpushed hfresh (m.parameters.zip arguments)
  rw [bind_eq_of_ok hrun]
  refine (h _ _ _ hbound hviews').map ?_
  rintro returned _ last ⟨rfl, layout'', hgrown', hlast⟩
  exact ⟨rfl, layout'', hgrown.trans hgrown', hlast⟩

/-- What can be shown is printed. -/
theorem print {text : String} (htext : (arguments.headD .nil).display = .ok text) :
    CallAttains env mem .print arguments (.done .nil) (mem.print text) rounds depth := by
  intro machine layout scope hm hviews
  unfold Interpreter.call
  dsimp only
  rw [plain_printLine, htext]
  exact .done ⟨rfl, hm.print text⟩

/-- What cannot be shown is not printed. -/
theorem printBroken {e : NumberError} (htext : (arguments.headD .nil).display = .error e) :
    CallAttains env mem .print arguments (.broken (.number e)) mem rounds depth := by
  intro machine layout scope hm hviews
  unfold Interpreter.call
  dsimp only
  rw [plain_printLine, htext]
  exact .of_why rfl hm.output_eq

/-- A function of the host answers or fails, and changes nothing. -/
theorem host {run : HostFunction} :
    CallAttains env mem (.host run) arguments (.ofHost (run mem.heap arguments)) mem rounds
      depth := by
  intro machine layout scope hm hviews
  unfold Interpreter.call
  dsimp only
  rw [callHost_eq hm run arguments]
  exact .run hm

end CallAttains

/-! ### Rules of statements -/

/-- Where nothing is said of it the first value is nil. -/
theorem InitialAttains.none :
    InitialAttains env mem none (.done .nil) mem rounds depth :=
  fun _ _ _ hm _ => .done ⟨rfl, hm⟩

/-- Where it is said, the first value is that of the expression. -/
theorem InitialAttains.some {e : Expr Offset} {o : Outcome Value}
    (h : EvaluateAttains env mem e o after rounds depth) :
    InitialAttains env mem (some e) o after rounds depth :=
  fun _ _ _ hm hviews => h _ _ _ hm hviews

namespace ExecuteAttains

variable {m place : Offset} {e c receiver target : Expr Offset} {d : Declaration Offset}
  {value : Value} {why : Break} {name : String} {body : List (Stmt Offset)}

/-- An expression as a statement returns nothing. -/
theorem expression {o : Outcome Value} (h : EvaluateAttains env mem e o after rounds depth) :
    ExecuteAttains env mem (.expression m e) (o.map fun _ => (none, env)) after rounds
      (depth + 1) := by
  intro machine layout scope hm hviews
  simp only [execute, plain_statement]
  exact (h _ _ _ hm hviews).map fun _ _ _ hvalue => Settles.leaves ⟨rfl, hvalue.2⟩ hviews

/-- A declaration gives its variable the first value, however it comes to it. -/
theorem execute_declare_eq (scope : ScopeId) (m : Offset) (d : Declaration Offset) :
    plain.execute rounds (depth + 1) scope (.declare m d)
      = (do
          let value ← firstValue rounds depth scope d.value
          plain.bind scope d.name value
          pure none) := by
  obtain ⟨name, typeName, value⟩ := d
  simp only [execute, plain_statement]
  cases value <;> rfl

/-- A declaration binds a fresh cell in the innermost frame. -/
theorem declare (h : InitialAttains env mem d.value (.done value) after rounds depth) :
    ExecuteAttains env mem (.declare m d) (.done (none, env.bind d.name after.fresh))
      (after.alloc value) rounds (depth + 1) := by
  intro machine layout scope hm hviews
  rw [execute_declare_eq]
  refine (h _ _ _ hm hviews).seq ?_
  rintro value last ⟨rfl, hlast⟩
  rw [bind_eq_of_ok (bind_eq scope d.name value last)]
  exact .done ⟨rfl, _, .bindVariable scope layout d.name after.fresh,
    hlast.bind scope d.name value, hviews.bind hm.ordered d.name after.fresh⟩

/-- Where there is no first value nothing is bound. -/
theorem declareBroken (h : InitialAttains env mem d.value (.broken why) after rounds depth) :
    ExecuteAttains env mem (.declare m d) (.broken why) after rounds (depth + 1) := by
  intro machine layout scope hm hviews
  rw [execute_declare_eq]
  exact (h _ _ _ hm hviews).broken fun value =>
    (steady_bind scope d.name value).bind fun _ => .pure _

/-- An assignment puts the value into the cell that the nearest frame has for the
name. -/
theorem assign {cell : Cell} (h : EvaluateAttains env mem e (.done value) after rounds depth)
    (hcell : env.cell? name = some cell) :
    ExecuteAttains env mem (.assign m (.var place name) e) (.done (none, env))
      (after.write cell value) rounds (depth + 1) := by
  intro machine layout scope hm hviews
  simp only [execute, plain_statement]
  refine (h _ _ _ hm hviews).seq ?_
  rintro value last ⟨rfl, hlast⟩
  obtain ⟨written, hrun, hwritten⟩ := writeVariable_eq_ok hlast hviews hcell value place
  rw [bind_eq_of_ok hrun]
  exact .done (Settles.leaves ⟨rfl, hwritten⟩ hviews)

/-- A name that no frame has cannot be assigned to, and that is known after the
value only. -/
theorem assignUndefined (h : EvaluateAttains env mem e (.done value) after rounds depth)
    (hcell : env.cell? name = none) :
    ExecuteAttains env mem (.assign m (.var place name) e)
      (.broken (.fault ⟨.undefinedVariable name, some place⟩)) after rounds (depth + 1) := by
  intro machine layout scope hm hviews
  simp only [execute, plain_statement]
  refine (h _ _ _ hm hviews).seq ?_
  rintro value last ⟨rfl, hlast⟩
  rw [bind_eq_of_error (writeVariable_eq_error hlast hviews hcell value place)]
  exact .fault hlast.output_eq

/-- An assignment to a field changes the object, whose receiver is evaluated after
the value. -/
theorem assignField {ref : ObjectRef}
    (hfirst : EvaluateAttains env mem e (.done value) between rounds depth)
    (hsecond : EvaluateAttains env between receiver (.done (.object ref)) after rounds depth)
    (hcontains : (after.heap.fields ref).contains name = true) :
    ExecuteAttains env mem (.assign m (.field place receiver name) e) (.done (none, env))
      (after.setField ref name value) rounds (depth + 1) := by
  intro machine layout scope hm hviews
  simp only [execute, plain_statement, plain_place]
  refine (hfirst _ _ _ hm hviews).seq ?_
  rintro value last ⟨rfl, hlast⟩
  rw [← bind_assoc]
  have hobject := hsecond.demand hlast hviews fun value => requireObject_eq value receiver
  refine hobject.seq ?_
  rintro ref found ⟨rfl, hfound⟩
  obtain ⟨written, hrun, hwritten⟩ := writeField_eq_ok hfound hcontains value place
  rw [bind_eq_of_ok hrun]
  exact .done (Settles.leaves ⟨rfl, hwritten⟩ hviews)

/-- It fails where the receiver has no value, is no object or has no such field. -/
theorem assignFieldBroken {o : Outcome Value}
    (hfirst : EvaluateAttains env mem e (.done value) between rounds depth)
    (hsecond : EvaluateAttains env between receiver o after rounds depth)
    (hwhy : ((o.demand wantObject receiver).bind fun ref =>
      .ofOption (.undefinedVariable name) place ((after.heap.fields ref).get? name))
        = .broken why) :
    ExecuteAttains env mem (.assign m (.field place receiver name) e) (.broken why) after rounds
      (depth + 1) := by
  intro machine layout scope hm hviews
  simp only [execute, plain_statement, plain_place]
  refine (hfirst _ _ _ hm hviews).seq ?_
  rintro value last ⟨rfl, hlast⟩
  rw [← bind_assoc]
  have hobject := hsecond.demand hlast hviews fun value => requireObject_eq value receiver
  refine hobject.bindBroken hwhy (fun ref found hfound hfield => ?_) fun ref => ?_
  · obtain ⟨hnone, rfl⟩ := ofOption_eq_broken hfield
    rw [bind_eq_of_error (writeField_eq_error hfound hnone value place)]
    exact .fault hfound.output_eq
  · exact (steady_writeField ref name value place).bind fun _ => .pure _

/-- Where there is no value nothing is assigned. -/
theorem assignBroken (htarget : assignable target = true)
    (h : EvaluateAttains env mem e (.broken why) after rounds depth) :
    ExecuteAttains env mem (.assign m target e) (.broken why) after rounds (depth + 1) := by
  intro machine layout scope hm hviews
  cases target with
  | var place name =>
      simp only [execute, plain_statement]
      exact (h _ _ _ hm hviews).broken fun value =>
        (steady_writeVariable scope name value place).bind fun _ => .pure _
  | field place receiver name =>
      simp only [execute, plain_statement, plain_place]
      exact (h _ _ _ hm hviews).broken fun value =>
        (steady_evaluate rounds depth scope receiver).bind fun target =>
          (steady_requireObject target _).bind fun ref =>
            (steady_writeField ref name value place).bind fun _ => .pure _
  | _ => cases htarget

/-- Nothing else can be assigned to, and the value is not even evaluated. -/
theorem assignOther (htarget : assignable target = false) :
    ExecuteAttains env mem (.assign m target e)
      (.broken (.fault ⟨.notAssignable, target.place?⟩)) mem rounds (depth + 1) := by
  intro machine layout scope hm hviews
  cases target with
  | var place name => cases htarget
  | field place receiver name => cases htarget
  | _ =>
      simp only [execute, plain_statement, map_plain_place]
      exact .fault hm.output_eq

/-- Statements in a scope of their own run in an environment with a fresh frame. -/
theorem block {o : Outcome (Option Value)} (h : AllAttain env.enter mem body o after rounds depth)
    {machine : Machine} {layout : Layout} {scope : Nat} (hm : Mirrors machine layout mem)
    (hviews : Views layout scope env) :
    Attains (Settles layout) o after
      (plain.withScope scope scope
        (fun inner => runAll (plain.execute rounds depth inner) body) machine) :=
  Attains.withScope hm hviews fun _ hpushed hinner => h _ _ _ hpushed hinner

/-- A conditional runs one of its branches, in a frame of its own. -/
theorem cond {thenBody elseBody : List (Stmt Offset)} {truth : Bool}
    {o : Outcome (Option Value)}
    (hfirst : EvaluateAttains env mem c (.done (.boolean truth)) between rounds depth)
    (hsecond : AllAttain env.enter between (if truth then thenBody else elseBody) o after rounds
      depth) :
    ExecuteAttains env mem (.cond m c thenBody elseBody) (o.map (·, env)) after rounds
      (depth + 1) := by
  intro machine layout scope hm hviews
  simp only [execute, plain_statement, plain_place]
  rw [← bind_assoc]
  have htruth := hfirst.demand hm hviews fun value => requireBoolean_eq value c
  refine htruth.seq ?_
  rintro _ last ⟨rfl, hlast⟩
  exact (block hsecond hlast hviews).leaves hviews

/-- Where the condition has no value or is no truth value no branch is run. -/
theorem condBroken {thenBody elseBody : List (Stmt Offset)} {o : Outcome Value}
    (h : EvaluateAttains env mem c o after rounds depth)
    (hwhy : o.demand wantBoolean c = .broken why) :
    ExecuteAttains env mem (.cond m c thenBody elseBody) (.broken why) after rounds
      (depth + 1) := by
  intro machine layout scope hm hviews
  simp only [execute, plain_statement, plain_place]
  rw [← bind_assoc]
  have htruth := h.demand hm hviews fun value => requireBoolean_eq value c
  rw [hwhy] at htruth
  exact htruth.broken fun truth => steady_withScope fun inner => steady_block rounds depth inner _

/-- A loop over values goes through the elements of a sequence. -/
theorem forIn {elements : List Value} {o : Outcome (Option Value)}
    (hfirst : EvaluateAttains env mem e (.done (.sequence elements)) between rounds depth)
    (hsecond : ForAttains env between name body elements o after rounds depth) :
    ExecuteAttains env mem (.forIn m name e body) (o.map (·, env)) after rounds (depth + 1) := by
  intro machine layout scope hm hviews
  simp only [execute, plain_statement, plain_place]
  rw [← bind_assoc]
  have helements := hfirst.demand hm hviews fun value => requireSequence_eq value e
  refine helements.seq ?_
  rintro _ last ⟨rfl, hlast⟩
  exact (hsecond _ _ _ hlast hviews).leaves hviews

/-- Where there is no sequence the loop does not begin. -/
theorem forBroken {o : Outcome Value} (h : EvaluateAttains env mem e o after rounds depth)
    (hwhy : o.demand wantSequence e = .broken why) :
    ExecuteAttains env mem (.forIn m name e body) (.broken why) after rounds (depth + 1) := by
  intro machine layout scope hm hviews
  simp only [execute, plain_statement, plain_place]
  rw [← bind_assoc]
  have helements := h.demand hm hviews fun value => requireSequence_eq value e
  rw [hwhy] at helements
  exact helements.broken fun elements =>
    steady_forEach rounds depth scope name body elements

/-- A loop on a condition may go round as often as the limits allow. -/
theorem whileDo {o : Outcome (Option Value)}
    (h : WhileAttains env mem c body o after rounds rounds depth) :
    ExecuteAttains env mem (.whileDo m c body) (o.map (·, env)) after rounds (depth + 1) := by
  intro machine layout scope hm hviews
  simp only [execute, plain_statement, plain_place]
  exact (h _ _ _ hm hviews).leaves hviews

/-- A statement with a result returns its value. -/
theorem result {o : Outcome Value} (h : EvaluateAttains env mem e o after rounds depth) :
    ExecuteAttains env mem (.result m e) (o.map fun value => (some value, env)) after rounds
      (depth + 1) := by
  intro machine layout scope hm hviews
  simp only [execute, plain_statement, ← bind_pure_comp]
  refine (h _ _ _ hm hviews).map ?_
  rintro returned _ last ⟨rfl, hlast⟩
  exact Settles.leaves ⟨rfl, hlast⟩ hviews

/-- A node that is no statement does nothing. -/
theorem foreign {kind : NodeKind} {written : String} :
    ExecuteAttains env mem (.foreign m kind written) (.done (none, env)) mem rounds
      (depth + 1) := by
  intro machine layout scope hm hviews
  simp only [execute, plain_statement]
  exact .done (Settles.leaves ⟨rfl, hm⟩ hviews)

/-- Any statement can be looked at before it has begun. -/
theorem cut {s : Stmt Offset} : ExecuteAttains env mem s (.broken .cut) mem rounds depth :=
  fun _ _ _ hm _ => .cut_of_steady hm (steady_execute rounds depth _ s)

end ExecuteAttains

namespace AllAttain

variable {s : Stmt Offset} {rest : List (Stmt Offset)}

/-- No statements return nothing. -/
theorem nil : AllAttain env mem [] (.done none) mem rounds depth :=
  fun _ layout scope hm _ => .done ⟨rfl, layout, .refl scope layout, hm⟩

/-- After a statement that does not return, the others run in the environment that
it leaves. -/
theorem next {o : Outcome (Option Value)}
    (hfirst : ExecuteAttains env mem s (.done (none, env')) between rounds depth)
    (hsecond : AllAttain env' between rest o after rounds depth) :
    AllAttain env mem (s :: rest) o after rounds depth := by
  intro machine layout scope hm hviews
  unfold runAll
  refine (hfirst _ _ _ hm hviews).seq ?_
  rintro _ last ⟨rfl, layout', hgrown, hlast, hviews'⟩
  exact (hsecond _ _ _ hlast hviews').imp fun _ _ _ hrest => hrest.grown hgrown

/-- After one that returns, no other runs. -/
theorem returned {value : Value}
    (h : ExecuteAttains env mem s (.done (some value, env')) after rounds depth) :
    AllAttain env mem (s :: rest) (.done (some value)) after rounds depth := by
  intro machine layout scope hm hviews
  unfold runAll
  refine (h _ _ _ hm hviews).seq ?_
  rintro _ last ⟨rfl, layout', hgrown, hlast, -⟩
  exact .done ⟨rfl, layout', hgrown, hlast⟩

/-- After one that breaks off, no other runs. -/
theorem broken {why : Break} (h : ExecuteAttains env mem s (.broken why) after rounds depth) :
    AllAttain env mem (s :: rest) (.broken why) after rounds depth := by
  intro machine layout scope hm hviews
  unfold runAll
  refine (h _ _ _ hm hviews).broken fun returned => ?_
  cases returned with
  | some value => exact .pure _
  | none => exact steady_block rounds depth scope rest

end AllAttain

/-! ### Rules of loops -/

/-- A round of a loop that does not return is followed by what follows it; any other is the
last. -/
theorem Attains.orElse {x next : Run (Option Value)} {machine : Machine} {layout : Layout}
    {o : Outcome (Option Value)} (h : Attains (Settles layout) o after (x machine))
    (ho : o ≠ .done none) (hnext : Steady next) :
    Attains (Settles layout) o after
      ((do
        match ← x with
        | some result => pure (some result)
        | none => next) machine) := by
  cases o with
  | broken why =>
      refine h.broken fun returned => ?_
      cases returned with
      | some value => exact .pure _
      | none => exact hnext
  | done returned =>
      cases returned with
      | none => exact absurd rfl ho
      | some value =>
          refine h.seq ?_
          rintro _ last ⟨rfl, hlast⟩
          exact .done ⟨rfl, hlast⟩

namespace ForAttains

variable {name : String} {body : List (Stmt Offset)} {element : Value} {rest : List Value}
  {o : Outcome (Option Value)}

/-- A loop over no values is over. -/
theorem finished : ForAttains env mem name body [] (.done none) mem rounds depth :=
  fun _ _ _ hm _ => .done ⟨rfl, hm⟩

/-- What the body attains the round attains, which binds the value in its own scope. -/
theorem round
    (h : AllAttain (env.enter.bind name mem.fresh) (mem.alloc element) body o after rounds depth)
    {machine : Machine} {layout : Layout} {scope : Nat} (hm : Mirrors machine layout mem)
    (hviews : Views layout scope env) :
    Attains (Settles layout) o after
      (plain.withScope scope scope
        (fun inner => do
          plain.bind inner name element
          runAll (plain.execute rounds depth inner) body) machine) := by
  refine Attains.withScope hm hviews fun pushed hpushed hinner => ?_
  rw [bind_eq_of_ok (bind_eq layout.size name element pushed)]
  refine (h _ _ _ (hpushed.bind layout.size name element)
    (hinner.bind hpushed.ordered name mem.fresh)).imp fun _ _ _ hafter => ?_
  exact hafter.grown (.bindVariable layout.size _ name mem.fresh)

/-- After a round that does not return the loop goes on with the other values. -/
theorem next
    (hround : AllAttain (env.enter.bind name mem.fresh) (mem.alloc element) body (.done none)
      between rounds depth)
    (hothers : ForAttains env between name body rest o after rounds depth) :
    ForAttains env mem name body (element :: rest) o after rounds depth := by
  intro machine layout scope hm hviews
  unfold Interpreter.forEach
  refine (round hround hm hviews).seq ?_
  rintro _ last ⟨rfl, hlast⟩
  exact hothers _ _ _ hlast hviews

/-- Any other round is the last. -/
theorem last
    (hround : AllAttain (env.enter.bind name mem.fresh) (mem.alloc element) body o after rounds
      depth)
    (ho : o ≠ .done none) :
    ForAttains env mem name body (element :: rest) o after rounds depth := by
  intro machine layout scope hm hviews
  unfold Interpreter.forEach
  exact (round hround hm hviews).orElse ho
    (steady_forEach rounds depth scope name body rest)

end ForAttains

namespace WhileAttains

variable {c : Expr Offset} {body : List (Stmt Offset)} {o : Outcome (Option Value)} {turns : Nat}

/-- The rounds of a loop on a condition keep what has been printed. -/
theorem steady_rounds (rounds depth turns : Nat) (scope : ScopeId) (c : Expr Offset)
    (body : List (Stmt Offset)) :
    Steady (plain.whileTrue
      (do
        let value ← plain.evaluate rounds depth scope c
        plain.requireBoolean value c.mark)
      (plain.withScope scope scope fun inner => runAll (plain.execute rounds depth inner) body)
      turns) := by
  have htest := Steady.compositional.bind
    (likeness_steady.evaluate rounds depth scope c fun _ _ => trivial) fun value =>
      likeness_steady.requireBoolean .program value c.mark
  have hround : Steady.Beside
      (plain.withScope scope scope fun inner => runAll (plain.execute rounds depth inner) body) _ :=
    likeness_steady.block fun inner => beside_block rounds depth inner body
  exact (Steady.compositional.whileTrue (likeness_steady.tooLong .program) htest hround turns).left

/-- A loop whose condition is false is over. -/
theorem finished (h : EvaluateAttains env mem c (.done (.boolean false)) after rounds depth) :
    WhileAttains env mem c body (.done none) after (turns + 1) rounds depth := by
  intro machine layout scope hm hviews
  unfold Interpreter.whileTrue
  have htest := h.demand hm hviews fun value => requireBoolean_eq value c
  refine htest.seq ?_
  rintro _ last ⟨rfl, hlast⟩
  exact .done ⟨rfl, hlast⟩

/-- A loop whose condition is true goes round, and goes on if the round does not
return. -/
theorem next (htest : EvaluateAttains env mem c (.done (.boolean true)) between rounds depth)
    (hround : AllAttain env.enter between body (.done none) before rounds depth)
    (hothers : WhileAttains env before c body o after turns rounds depth) :
    WhileAttains env mem c body o after (turns + 1) rounds depth := by
  intro machine layout scope hm hviews
  unfold Interpreter.whileTrue
  have htruth := htest.demand hm hviews fun value => requireBoolean_eq value c
  refine htruth.seq ?_
  rintro _ tested ⟨rfl, htested⟩
  refine Attains.seq (ExecuteAttains.block hround htested hviews) ?_
  rintro _ last ⟨rfl, hlast⟩
  exact hothers _ _ _ hlast hviews

/-- A round that returns or breaks off is the last. -/
theorem last (htest : EvaluateAttains env mem c (.done (.boolean true)) between rounds depth)
    (hround : AllAttain env.enter between body o after rounds depth) (ho : o ≠ .done none) :
    WhileAttains env mem c body o after (turns + 1) rounds depth := by
  intro machine layout scope hm hviews
  unfold Interpreter.whileTrue
  have htruth := htest.demand hm hviews fun value => requireBoolean_eq value c
  refine htruth.seq ?_
  rintro _ tested ⟨rfl, htested⟩
  exact (ExecuteAttains.block hround htested hviews).orElse ho
    (steady_rounds rounds depth turns scope c body)

/-- Where the condition has no value or is no truth value the loop breaks off. -/
theorem broken {o : Outcome Value} {why : Break}
    (h : EvaluateAttains env mem c o after rounds depth)
    (hwhy : o.demand wantBoolean c = .broken why) :
    WhileAttains env mem c body (.broken why) after (turns + 1) rounds depth := by
  intro machine layout scope hm hviews
  unfold Interpreter.whileTrue
  have htruth := h.demand hm hviews fun value => requireBoolean_eq value c
  rw [hwhy] at htruth
  refine htruth.broken fun truth => ?_
  cases truth with
  | false => exact .pure _
  | true =>
      exact steady_orElse (steady_withScope fun inner => steady_block rounds depth inner body)
        (steady_rounds rounds depth turns scope c body)

/-- Any loop can be looked at before it has begun. -/
theorem cut : WhileAttains env mem c body (.broken .cut) mem turns rounds depth :=
  fun _ _ _ hm _ => .cut_of_steady hm (steady_rounds rounds depth turns _ c body)

end WhileAttains

end PlcLang.Reference
