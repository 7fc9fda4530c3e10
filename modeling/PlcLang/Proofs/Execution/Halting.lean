import PlcLang.Proofs.Breakdowns.Exactness
import PlcLang.Proofs.Diagnostics.Anchors
import PlcLang.Proofs.Execution.CallGraph
import PlcLang.Proofs.Execution.Operators
import PlcLang.Proofs.Execution.Steady

/-!
# `PlcLang.Proofs.Execution.Halting`: programs that come to an end

Only two things let a run go on and on: a loop on a condition, and methods that call each other in
a circle. A program with neither ends, whatever the functions of the host answer, as long as they
do answer. A run that does not end is one that every limit cuts off, so to end is to get by with
some depth, whatever the number of rounds (`acyclic_programs_halt`).

The depth that a part of a program needs is made up of two. The part itself needs no more than it
has expressions and statements in it, since evaluation goes down by one from a part to its own
parts, and a loop over a sequence needs no more for many elements than for one. To this comes the
depth that the calls in it need (`halts_evaluate`, `halts_execute`). For these there is an induction
along the call graph, which has no endless descent: what a key needs is made up of the bodies of all
methods that it may come to mean, and of what their calls need (`exists_callsEnd`).

Which function a key means is looked up at each call. Methods may hide functions of the host, and a
later method an earlier one, but what is found is always a method of the program that goes by that
key, or a function that ends by itself (`Machine.Offers`).
-/

set_option autoImplicit false

namespace PlcLang

open Proofs

/-- The function always answers: whatever the heap and the arguments are, it raises
no error. -/
def HostFunction.Returns (run : HostFunction) : Prop :=
  ∀ heap arguments, ∃ answer, run heap arguments = .ok answer

/-- What a key may be bound to where these methods can be called: one of them that goes by the key,
a function of the host that always answers, or the built-in function. -/
def Callee.IsAmong (methods : List (Method Offset)) (key : FunctionKey) : Callable → Prop
  | .method defined => defined ∈ methods ∧ defined.calledBy = key
  | .host run => run.Returns
  | .print => True

/-- Nothing can be called on the machine but these methods, functions of the host that always
answer, and the built-in function. -/
structure Machine.Offers (methods : List (Method Offset)) (machine : Machine) : Prop where
  functions : Binds (Callee.IsAmong methods) machine.scopes
  natives : ∀ table ∈ machine.methods, ∀ key run, table.get? key = some run →
    HostFunction.Returns run

/-- The program itself has stopped its run: by a fault, or at a number that is out
of range. It was neither the host nor a limit. -/
def Stop.OfProgram : Stop → Prop
  | .fault _ => True
  | .number e => e.Proper
  | _ => False

/-- The statement is a loop on a condition. What is inside of it does not count. -/
def Stmt.isWhile {α : Type} : Stmt α → Bool
  | .whileDo .. => true
  | _ => false

/-- The program has no loops on conditions, in whatever method and however deep. -/
def Program.Loopless {α : Type} (program : Program α) : Prop :=
  ∀ s ∈ program.statements, s.isWhile = false

namespace Proofs

open Interpreter

variable {α β : Type} {methods : List (Method Offset)}

/-- Begun where `methods` can be called, the computation ends there, with an answer or by itself.
(It is its own exacting twin: what matters is how it ends.) -/
abbrev Halts (methods : List (Method Offset)) (x : Run α) : Prop :=
  Exact (Machine.Offers methods) Stop.OfProgram x x

/-! ### The machine -/

/-- A fault is raised at once. -/
theorem halts_fault (cause : FaultCause) (offset : Option Offset) :
    Halts methods (plain.fault cause offset : Run α) :=
  .throw trivial

/-- Binding a variable takes no calls. -/
theorem halts_bind (scope : ScopeId) (name : String) (value : Value) :
    Halts methods (plain.bind scope name value) :=
  .modify fun _ h => ⟨h.functions.bindVariable scope name value, h.natives⟩

/-- Nor does binding several. -/
theorem halts_bindAll (scope : ScopeId) (pairs : List (String × Value)) :
    Halts methods (plain.bindAll scope pairs) := by
  induction pairs with
  | nil => exact .pure ()
  | cons pair rest ih => exact (halts_bind scope pair.1 pair.2).bind fun _ => ih

/-- Entering a scope and leaving it offers nothing new, so the body ends as it
would. -/
theorem halts_withScope {current parent : ScopeId} {body : ScopeId → Run α}
    (h : ∀ scope, Halts methods (body scope)) :
    Halts methods (plain.withScope current parent body) := by
  have hleave {machine : Machine} (hmachine : machine.Offers methods) (index : ScopeId) :
      Machine.Offers methods (machine.leave index) := by
    refine ⟨?_, hmachine.natives⟩
    unfold MachineOf.leave Arena.release
    by_cases hroot : index = Arena.root
    · rw [if_pos hroot]
      exact hmachine.functions
    · rw [if_neg hroot]
      exact hmachine.functions.take index
  intro machine hmachine
  have hinside := (h machine.scopes.size (machine.enter parent)
    ⟨hmachine.functions.push parent, hmachine.natives⟩).2
  refine ⟨rfl, ?_⟩
  unfold Yields at hinside ⊢
  rw [plain_withScope_apply]
  cases hbody : body machine.scopes.size (machine.enter parent) with
  | ok a after =>
      rw [hbody] at hinside
      exact hleave hinside _
  | error stop after =>
      rw [hbody] at hinside
      exact ⟨hinside.1, hleave hinside.2 _⟩

/-- Reading a variable takes no calls. -/
theorem halts_readVariable (scope : ScopeId) (name : String) (offset : Offset) :
    Halts methods (plain.readVariable scope name offset) := by
  rw [plain_readVariable]
  refine .get_bind fun machine _ => ?_
  cases machine.scopes.boundVariable? scope name with
  | some value => exact .pure value
  | none => exact halts_fault _ _

/-- Writing a variable takes no calls. -/
theorem halts_writeVariable (scope : ScopeId) (name : String) (value : Value)
    (offset : Offset) : Halts methods (plain.writeVariable scope name value offset) := by
  rw [plain_writeVariable]
  refine .get_bind fun machine _ => ?_
  cases machine.scopes.ownerOfVariable? scope name with
  | some owner => exact halts_bind owner name value
  | none => exact halts_fault _ _

/-- Reading a field takes no calls. -/
theorem halts_readField (ref : ObjectRef) (name : String) (offset : Offset) :
    Halts methods (plain.readField ref name offset) := by
  rw [plain_readField]
  refine .get_bind fun machine _ => ?_
  cases (machine.heap.fields ref).get? name with
  | some value => exact .pure value
  | none => exact halts_fault _ _

/-- Writing a field takes no calls. -/
theorem halts_writeField (ref : ObjectRef) (name : String) (value : Value) (offset : Offset) :
    Halts methods (plain.writeField ref name value offset) := by
  rw [plain_writeField]
  exact .get_bind fun _ _ => .ite (.modify fun _ h => ⟨h.functions, h.natives⟩) (halts_fault _ _)

/-- Asking for an object is answered at once, or at fault. -/
theorem halts_requireObject (value : Value) (offset : Offset) :
    Halts methods (plain.requireObject value offset) :=
  Exact.compositional.requireObject (halts_fault _ offset)

/-- So is asking for a truth value. -/
theorem halts_requireBoolean (value : Value) (offset : Offset) :
    Halts methods (plain.requireBoolean value offset) :=
  Exact.compositional.requireBoolean (halts_fault _ offset)

/-- So is asking for a sequence. -/
theorem halts_requireSequence (value : Value) (offset : Offset) :
    Halts methods (plain.requireSequence value offset) :=
  Exact.compositional.requireSequence (halts_fault _ offset)

/-- What a look-up finds is on offer, since all that is bound is. -/
theorem isAmong_of_bound {machine : Machine} (h : machine.Offers methods) {scope : ScopeId}
    {key : FunctionKey} {callee : Callable}
    (hbound : machine.scopes.boundFunction? scope key = some callee) :
    callee.IsAmong methods key := by
  unfold Arena.boundFunction? at hbound
  cases hlookup : machine.scopes.lookupFunction scope key with
  | error e =>
      rw [hlookup] at hbound
      cases hbound
  | ok found =>
      rw [hlookup] at hbound
      obtain rfl : found = some callee := hbound
      exact h.functions.of_lookup hlookup

/-- What comes after a look-up may take what is found to be on offer. A look-up that
finds nothing stops the run by a fault. -/
theorem halts_found_bind (scope : ScopeId) {key : FunctionKey} {find : Run Callable}
    {stop : Stop} (hstop : stop.OfProgram)
    (hfind : ∀ machine, find machine = match machine.scopes.boundFunction? scope key with
      | some callee => .ok callee machine
      | none => .error stop machine)
    {k : Callable → Run β} (hk : ∀ callee : Callable, callee.IsAmong methods key →
      Halts methods (k callee)) : Halts methods (find >>= k) := by
  refine .of_state fun machine hmachine => ?_
  have hfound := hfind machine
  cases hbound : machine.scopes.boundFunction? scope key with
  | some callee =>
      rw [hbound] at hfound
      exact ⟨_, _, hk callee (isAmong_of_bound hmachine hbound), bind_eq_of_ok hfound _,
        bind_eq_of_ok hfound _⟩
  | none =>
      rw [hbound] at hfound
      exact ⟨throw stop, throw stop, .throw hstop, bind_eq_of_error hfound _,
        bind_eq_of_error hfound _⟩

/-- So it is with a function that is called by its name. -/
theorem halts_findFunction_bind (scope : ScopeId) (key : FunctionKey) (offset : Offset)
    {k : Callable → Run β}
    (hk : ∀ callee : Callable, callee.IsAmong methods key → Halts methods (k callee)) :
    Halts methods (plain.findFunction scope key offset >>= k) := by
  have hfault : Stop.OfProgram (.fault ⟨.undefinedFunction key, offset⟩) := trivial
  refine halts_found_bind scope hfault (fun machine => ?_) hk
  rw [plain_findFunction, get_bind_eq]
  cases machine.scopes.boundFunction? scope key <;> rfl

/-- So it is with the method that a program begins with. -/
theorem halts_findMain_bind {k : Callable → Run β}
    (hk : ∀ callee : Callable, callee.IsAmong methods ("main", 0) → Halts methods (k callee)) :
    Halts methods (plain.findMain >>= k) := by
  have hfault : Stop.OfProgram (.fault ⟨.missingMain, none⟩) := trivial
  refine halts_found_bind Arena.root hfault (fun machine => ?_) hk
  rw [plain_findMain, get_bind_eq]
  cases machine.scopes.boundFunction? Arena.root ("main", 0) <;> rfl

/-- A function of the host that always answers is done with at once. It is a pure
function, so it runs no program of its own. -/
theorem halts_callHost {run : HostFunction} (h : run.Returns) (arguments : List Value) :
    Halts methods (plain.callHost run arguments) := by
  rw [plain_callHost]
  refine .get_bind fun machine _ => ?_
  obtain ⟨answer, hanswer⟩ := h machine.heap arguments
  rw [hanswer]
  exact .pure answer

/-- A method of an object is looked up, and it always answers. -/
theorem halts_findMethod_bind (ref : ObjectRef) (key : FunctionKey) (offset : Offset)
    {k : HostFunction → Run β} (hk : ∀ run : HostFunction, run.Returns → Halts methods (k run)) :
    Halts methods (plain.findMethod ref key offset >>= k) := by
  refine .of_state fun machine hmachine => ?_
  cases hmethod : machine.method? ref key with
  | none =>
      have hfault : Stop.OfProgram (.fault ⟨.undefinedMethod key, offset⟩) := trivial
      have hfind : plain.findMethod ref key offset machine
          = .error (.fault ⟨.undefinedMethod key, offset⟩) machine := by
        rw [plain_findMethod, get_bind_eq, hmethod]
        rfl
      exact ⟨throw _, throw _, .throw hfault, bind_eq_of_error hfind _,
        bind_eq_of_error hfind _⟩
  | some run =>
      have hfind : plain.findMethod ref key offset machine = .ok run machine := by
        rw [plain_findMethod, get_bind_eq, hmethod]
        rfl
      obtain ⟨table, htable, hrun⟩ := Option.bind_eq_some_iff.mp hmethod
      have hreturns := hmachine.natives table (List.mem_of_getElem? htable) key run hrun
      exact ⟨_, _, hk run hreturns, bind_eq_of_ok hfind _, bind_eq_of_ok hfind _⟩

/-- A value is written out, unless there is a number in it that cannot be. -/
theorem halts_display (value : Value) : Halts methods (plain.inRange value.display) := by
  cases htext : value.display with
  | ok text => exact .pure text
  | error e => exact .throw (proper_of_display_eq_error htext)

/-- A line is printed, unless there is a number in it that cannot be written out. -/
theorem halts_printLine (arguments : List Value) :
    Halts methods (plain.printLine arguments) := by
  rw [plain_printLine]
  refine (halts_display _).bind fun text => ?_
  exact (Exact.modify fun _ h => ⟨h.functions, h.natives⟩).bind fun _ => .pure _

/-- An operator answers, or it is at fault, or a number is out of range. -/
theorem halts_applyOperator (m : Offset) (op : BinaryOp) (left right : Offset)
    (leftValue rightValue : Value) :
    Halts methods (plain.applyOperator m op left right leftValue rightValue) := by
  unfold applyOperator
  cases happly : op.apply leftValue rightValue with
  | ok value => exact .pure value
  | error refusal =>
      cases refusal_cases happly with
      | operands => exact halts_fault _ (some m)
      | zero => exact halts_fault _ (some m)
      | number he => exact .throw he

/-! ### Control -/

/-- Statements that end, end one after the other. -/
theorem halts_runAll {execute : Stmt Offset → Run (Option Value)} {list : List (Stmt Offset)}
    (h : ∀ s ∈ list, Halts methods (execute s)) : Halts methods (runAll execute list) := by
  have hsame := Exact.compositional.runAll (f := id) h
  rwa [List.map_id] at hsame

/-- There are as many rounds as elements, and each of them ends. -/
theorem halts_forEach {scope : ScopeId} {name : String} {body : ScopeId → Run (Option Value)}
    (h : ∀ inner, Halts methods (body inner)) (elements : List Value) :
    Halts methods (plain.forEach scope name body elements) := by
  induction elements with
  | nil => exact .pure none
  | cons element rest ih =>
      unfold forEach
      refine Exact.compositional.orElse (halts_withScope fun inner => ?_) ih
      exact (halts_bind inner name element).bind fun _ => h inner

/-- A method halts if its body does. -/
theorem halts_runMethod {current : ScopeId} {execute : ScopeId → Stmt Offset → Run (Option Value)}
    {method : Method Offset} (h : ∀ scope, ∀ s ∈ method.body, Halts methods (execute scope s))
    (arguments : List Value) :
    Halts methods (plain.runMethod current execute method arguments) := by
  unfold runMethod
  refine halts_withScope fun scope => (halts_bindAll scope _).bind fun _ => ?_
  exact (halts_runAll (h scope)).bind fun outcome => .pure (outcome.getD .nil)

/-! ### Calls -/

/-- From the depth `floor` on, calls of the key end, whatever it is bound to. -/
def CallsEnd (methods : List (Method Offset)) (floor : Nat) (key : FunctionKey) : Prop :=
  ∀ callee : Callable, callee.IsAmong methods key → ∀ rounds depth, floor ≤ depth →
    ∀ current arguments,
      Halts methods (plain.call current (plain.execute rounds depth) callee arguments)

/-- From a greater depth on they end as well. -/
theorem CallsEnd.mono {floor floor' : Nat} {key : FunctionKey} (h : CallsEnd methods floor key)
    (hle : floor ≤ floor') : CallsEnd methods floor' key :=
  fun callee hamong rounds depth hdepth => h callee hamong rounds depth (hle.trans hdepth)

/-- What holds of each of finitely many things from some number on holds of all of them from some
number on. -/
theorem exists_common_bound {P : α → Nat → Prop} (list : List α)
    (hmono : ∀ a n n', n ≤ n' → P a n → P a n') (h : ∀ a ∈ list, ∃ n, P a n) :
    ∃ n, ∀ a ∈ list, P a n := by
  induction list with
  | nil => exact ⟨0, fun _ ha => absurd ha List.not_mem_nil⟩
  | cons first rest ih =>
      obtain ⟨n, hfirst⟩ := h first List.mem_cons_self
      obtain ⟨n', hrest⟩ := ih fun a ha => h a (List.mem_cons_of_mem first ha)
      refine ⟨max n n', List.forall_mem_cons.mpr ⟨hmono _ _ _ (Nat.le_max_left ..) hfirst, ?_⟩⟩
      exact fun a ha => hmono a _ _ (Nat.le_max_right ..) (hrest a ha)

/-! ### Expressions and statements -/

section

variable {floor : Nat}

/-- An expression has itself for a part. -/
theorem subs_length_pos (e : Expr α) : 0 < e.subs.length := by
  cases e <;> exact Nat.succ_pos _

/-- The parts of an argument are among the parts of all arguments. -/
theorem subs_sublist_subsAll {e : Expr α} {list : List (Expr α)} (h : e ∈ list) :
    e.subs.Sublist (Expr.subsAll list) := by
  induction list with
  | nil => cases h
  | cons first rest ih =>
      rcases List.mem_cons.mp h with rfl | h
      · exact List.sublist_append_left ..
      · exact (ih h).trans (List.sublist_append_right ..)

/-- An expression needs no more depth than it has parts, above what its calls need.
The induction is on the expression, and the depth falls by one from a part to its
own parts. -/
theorem halts_evaluate (rounds depth : Nat) (scope : ScopeId) {e : Expr Offset}
    (hcalls : ∀ key ∈ callees e.subs, CallsEnd methods floor key)
    (hdepth : floor + e.subs.length ≤ depth) :
    Halts methods (plain.evaluate rounds depth scope e) := by
  induction depth generalizing e with
  | zero =>
      have := subs_length_pos e
      omega
  | succ depth ih =>
      -- what is inside the expression has fewer parts and no other calls
      have hpart {inner : Expr Offset} {outer : List (Expr Offset)}
          (hsublist : inner.subs.Sublist outer) (hsubset : outer ⊆ e.subs)
          (hshorter : outer.length < e.subs.length) :
          Halts methods (plain.evaluate rounds depth scope inner) := by
        have hlength := hsublist.length_le
        have hinner : inner.subs ⊆ e.subs := List.Subset.trans hsublist.subset hsubset
        exact ih (fun key hkey => hcalls key (callees_subset hinner hkey)) (by omega)
      cases e with
      | nil m | boolean m value | integer m value | decimal m value | character m text
      | string m text =>
          unfold evaluate
          exact .pure _
      | foreign m kind written =>
          unfold evaluate
          exact halts_fault _ _
      | var m name =>
          unfold evaluate
          exact halts_readVariable scope name m
      | group m inner =>
          unfold evaluate
          exact hpart (List.Sublist.refl _) (List.subset_cons_self ..) (Nat.lt_succ_self _)
      | binary m op left right =>
          have hleft := hpart (List.sublist_append_left left.subs right.subs)
            (List.subset_cons_self ..) (Nat.lt_succ_self _)
          have hright := hpart (List.sublist_append_right left.subs right.subs)
            (List.subset_cons_self ..) (Nat.lt_succ_self _)
          have hboth := hleft.bind fun leftValue => hright.bind fun rightValue =>
            halts_applyOperator m op left.mark right.mark leftValue rightValue
          cases op with
          | or =>
              unfold evaluate
              exact Exact.compositional.disjunction (fun value => halts_requireBoolean value _)
                hleft hright
          | _ =>
              unfold evaluate
              exact hboth
      | field m receiver name =>
          unfold evaluate
          refine (hpart (List.Sublist.refl _) (List.subset_cons_self ..)
            (Nat.lt_succ_self _)).bind fun value => ?_
          exact (halts_requireObject value _).bind fun ref => halts_readField ref name m
      | call m name arguments =>
          have hkey : (name, arguments.length) ∈ callees (Expr.call m name arguments).subs :=
            List.mem_filterMap.mpr ⟨_, List.mem_cons_self, rfl⟩
          -- the call itself is a part of the expression, so the method has one level less
          have hfloor : floor ≤ depth := by
            simp only [Expr.subs, List.length_cons] at hdepth
            omega
          unfold evaluate
          refine halts_findFunction_bind scope _ m fun callee hamong => ?_
          refine Exact.bind (.mapM fun e he => ?_) fun values => ?_
          · exact hpart (subs_sublist_subsAll he) (List.subset_cons_self ..) (Nat.lt_succ_self _)
          · exact hcalls _ hkey callee hamong rounds depth hfloor scope values
      | methodCall m receiver name arguments =>
          unfold evaluate
          refine (hpart (List.sublist_append_left receiver.subs (Expr.subsAll arguments))
            (List.subset_cons_self ..) (Nat.lt_succ_self _)).bind fun value => ?_
          refine (halts_requireObject value _).bind fun ref => ?_
          refine halts_findMethod_bind ref _ m fun run hrun => ?_
          refine Exact.bind (.mapM fun e he => ?_) fun values => halts_callHost hrun _
          exact hpart ((subs_sublist_subsAll he).trans (List.sublist_append_right ..))
            (List.subset_cons_self ..) (Nat.lt_succ_self _)

/-- A statement has itself for a part. -/
theorem stmt_subs_length_pos (s : Stmt α) : 0 < s.subs.length := by
  cases s <;> exact Nat.succ_pos _

/-- The parts of a statement are among the parts of its block. -/
theorem stmt_subs_sublist_subsAll {s : Stmt α} {list : List (Stmt α)} (h : s ∈ list) :
    s.subs.Sublist (Stmt.subsAll list) := by
  induction list with
  | nil => cases h
  | cons first rest ih =>
      rcases List.mem_cons.mp h with rfl | h
      · exact List.sublist_append_left ..
      · exact (ih h).trans (List.sublist_append_right ..)

/-- The expressions of a statement are among those of its block. -/
theorem exprs_sublist_exprsAll {s : Stmt α} {list : List (Stmt α)} (h : s ∈ list) :
    s.exprs.Sublist (Stmt.exprsAll list) := by
  induction list with
  | nil => cases h
  | cons first rest ih =>
      rcases List.mem_cons.mp h with rfl | h
      · exact List.sublist_append_left ..
      · exact (ih h).trans (List.sublist_append_right ..)

/-- A statement without loops on conditions needs no more depth than it has statements and
expressions in it, above what its calls need. -/
theorem halts_execute (rounds depth : Nat) (scope : ScopeId) {s : Stmt Offset}
    (hloops : ∀ inner ∈ s.subs, inner.isWhile = false)
    (hcalls : ∀ key ∈ callees s.exprs, CallsEnd methods floor key)
    (hdepth : floor + (s.subs.length + s.exprs.length) ≤ depth) :
    Halts methods (plain.execute rounds depth scope s) := by
  induction depth generalizing scope s with
  -- A statement counts itself, so it never gets by with no depth at all.
  | zero =>
      have := stmt_subs_length_pos s
      omega
  | succ depth ih =>
      -- The expressions of a statement come one level below it.
      have hvalue {e : Expr Offset} (hsublist : e.subs.Sublist s.exprs) :
          Halts methods (plain.evaluate rounds depth scope e) := by
        have hlength := hsublist.length_le
        have hpos := stmt_subs_length_pos s
        exact halts_evaluate rounds depth scope
          (fun key hkey => hcalls key (callees_subset hsublist.subset hkey)) (by omega)
      -- a block inside the statement is shorter by the statement itself
      have hblock {body rest : List (Stmt Offset)} (hs : s.subs = s :: rest)
          (hsubs : (Stmt.subsAll body).Sublist rest)
          (hexprs : (Stmt.exprsAll body).Sublist s.exprs) (inner : ScopeId) :
          Halts methods (runAll (plain.execute rounds depth inner) body) := by
        refine halts_runAll fun part hpart => ?_
        have hpartSubs := (stmt_subs_sublist_subsAll hpart).trans hsubs
        have hpartExprs := (exprs_sublist_exprsAll hpart).trans hexprs
        have hshorter := hpartSubs.length_le
        have hlength := hpartExprs.length_le
        rw [hs] at hdepth hloops
        rw [List.length_cons] at hdepth
        exact ih inner
          (fun other hother => hloops other (List.mem_cons_of_mem s (hpartSubs.subset hother)))
          (fun key hkey => hcalls key (callees_subset hpartExprs.subset hkey)) (by omega)
      cases s with
      | expression m value =>
          unfold execute
          exact (hvalue (List.Sublist.refl _)).bind fun _ => .pure none
      | declare m d =>
          unfold execute
          dsimp only
          have hbound (value : Value) :
              Halts methods (do plain.bind scope d.name value; pure (none : Option Value)) :=
            (halts_bind scope d.name value).bind fun _ => .pure none
          cases hd : d.value with
          | none => exact Exact.bind (.pure Value.nil) hbound
          | some value =>
              refine Exact.bind (hvalue ?_) hbound
              simp only [Stmt.exprs, Declaration.exprs, hd]
              exact List.Sublist.refl _
      | assign m target value =>
          have hassigned := hvalue (e := value) (List.sublist_append_right target.subs value.subs)
          cases target with
          | var place name =>
              unfold execute
              exact hassigned.bind fun value =>
                (halts_writeVariable scope name value place).bind fun _ => .pure none
          | field place receiver name =>
              have hreceiver := hvalue (e := receiver)
                ((List.sublist_cons_self _ receiver.subs).trans (List.sublist_append_left ..))
              unfold execute
              refine hassigned.bind fun value => hreceiver.bind fun owner => ?_
              refine (halts_requireObject owner _).bind fun ref => ?_
              exact (halts_writeField ref name value place).bind fun _ => .pure none
          | _ =>
              unfold execute
              exact halts_fault _ _
      | cond m condition thenBody elseBody =>
          unfold execute
          refine (hvalue (List.sublist_append_left ..)).bind fun value => ?_
          refine (halts_requireBoolean value _).bind fun truth => ?_
          refine halts_withScope fun inner => ?_
          cases truth with
          | true =>
              exact hblock rfl (List.sublist_append_left ..)
                ((List.sublist_append_left ..).trans (List.sublist_append_right ..)) inner
          | false =>
              exact hblock rfl (List.sublist_append_right ..)
                ((List.sublist_append_right ..).trans (List.sublist_append_right ..)) inner
      | forIn m name value body =>
          unfold execute
          refine (hvalue (List.sublist_append_left ..)).bind fun iterated => ?_
          refine (halts_requireSequence iterated _).bind fun elements => ?_
          exact halts_forEach
            (hblock rfl (List.Sublist.refl _) (List.sublist_append_right ..)) elements
      -- The only place where the run could go on for ever.
      | whileDo m condition body => cases hloops _ List.mem_cons_self
      | result m value =>
          unfold execute
          exact (hvalue (List.Sublist.refl _)).map
      | foreign m kind written =>
          unfold execute
          exact .pure none

end

/-- The body of a method ends from some depth on, if the calls in it do. -/
theorem exists_body_floor {method : Method Offset}
    (hloops : ∀ s ∈ Stmt.subsAll method.body, s.isWhile = false)
    (hcalls : ∃ floor, ∀ key ∈ callees method.exprs, CallsEnd methods floor key) :
    ∃ floor, ∀ rounds depth, floor ≤ depth → ∀ current arguments,
      Halts methods (plain.runMethod current (plain.execute rounds depth) method arguments) := by
  obtain ⟨floor, hfloor⟩ := hcalls
  refine ⟨floor + ((Stmt.subsAll method.body).length + method.exprs.length),
    fun rounds depth hdepth current arguments => halts_runMethod (fun scope s hs => ?_) arguments⟩
  have hsubs := stmt_subs_sublist_subsAll hs
  have hexprs : s.exprs.Sublist method.exprs := exprs_sublist_exprsAll hs
  have hshorter := hsubs.length_le
  have hlength := hexprs.length_le
  exact halts_execute rounds depth scope (fun inner hinner => hloops inner (hsubs.subset hinner))
    (fun key hkey => hfloor key (callees_subset hexprs.subset hkey)) (by omega)

/-- Where no calls go round in a circle, all calls of a key end from some depth on. The induction
is along the call graph. -/
theorem exists_callsEnd {program : Program Offset} (hloops : program.Loopless)
    (hcalls : program.Acyclic) (key : FunctionKey) :
    ∃ floor, CallsEnd program.methods floor key := by
  induction acc_of_acyclic hcalls key with
  | intro key _ ih =>
      -- the key may come to mean any method that goes by it, so all of them must end
      have hbodies : ∃ floor, ∀ method ∈ program.methods, method.calledBy = key →
          ∀ rounds depth, floor ≤ depth → ∀ current arguments,
            Halts program.methods
              (plain.runMethod current (plain.execute rounds depth) method arguments) := by
        refine exists_common_bound program.methods ?_ ?_
        · intro method floor floor' hle h hkey rounds depth hdepth
          exact h hkey rounds depth (hle.trans hdepth)
        · intro method hmethod
          by_cases hkey : method.calledBy = key
          · obtain ⟨floor, hfloor⟩ := exists_body_floor
              (fun s hs => hloops s (List.mem_flatMap.mpr ⟨method, hmethod, hs⟩))
              (exists_common_bound _ (fun _ _ _ hle h => h.mono hle)
                fun callee hcallee => ih callee ⟨method, hmethod, hkey, hcallee⟩)
            exact ⟨floor, fun _ => hfloor⟩
          · exact ⟨0, fun h => absurd h hkey⟩
      obtain ⟨floor, hfloor⟩ := hbodies
      refine ⟨floor, fun callee hamong rounds depth hdepth current arguments => ?_⟩
      -- nothing of the host and no printing calls back
      cases callee with
      | method defined =>
          exact hfloor defined hamong.1 hamong.2 rounds depth hdepth current arguments
      | host run => exact halts_callHost hamong arguments
      | print => exact halts_printLine arguments

/-! ### Programs -/

/-- The fields of a program are worked out, one after the other. -/
theorem halts_defineFields {floor : Nat} (limits : Limits) {fields : List (Field Offset)}
    (hcalls : ∀ key ∈ callees (fields.flatMap Field.exprs), CallsEnd methods floor key)
    (hdepth : floor + (fields.flatMap Field.exprs).length ≤ limits.depth) :
    Halts methods (plain.defineFields limits fields) := by
  induction fields with
  | nil => exact .pure ()
  | cons field rest ih =>
      rw [List.flatMap_cons] at hcalls hdepth
      rw [List.length_append] at hdepth
      have hrest := ih
        (fun key hkey => hcalls key (callees_subset (List.subset_append_right ..) hkey)) (by omega)
      have hbound (value : Value) : Halts methods (do
          plain.bind Arena.root field.declaration.name value
          plain.defineFields limits rest) :=
        (halts_bind Arena.root field.declaration.name value).bind fun _ => hrest
      unfold defineFields
      dsimp only
      cases hd : field.declaration.value with
      | none => exact Exact.bind (.pure Value.nil) hbound
      | some value =>
          have hexprs : field.exprs = value.subs := by
            simp only [Field.exprs, Declaration.exprs, hd]
          rw [hexprs] at hcalls hdepth
          exact (halts_evaluate limits.rounds limits.depth Arena.root
            (fun key hkey => hcalls key (callees_subset (List.subset_append_left ..) hkey))
            (by omega)).bind hbound

/-- A method that is on offer may be defined. -/
theorem halts_defineMethod {method : Method Offset} (h : method ∈ methods) :
    Halts methods (plain.defineMethod method) :=
  .modify fun _ hmachine => ⟨hmachine.functions.bindFunction Arena.root ⟨h, rfl⟩, hmachine.natives⟩

/-- A program without loops on conditions and without recursion ends from some depth
on. There are finitely many calls in its fields and its methods, so one depth is
enough for all of them. -/
theorem exists_halts_program {tree : Program Offset} (hloops : tree.Loopless)
    (hcalls : tree.Acyclic) :
    ∃ depth, ∀ limits : Limits, depth ≤ limits.depth →
      Halts tree.methods (plain.program limits tree) := by
  -- Besides `main` the fields call functions, too.
  obtain ⟨floor, hfloor⟩ := exists_common_bound
    (("main", 0) :: callees (tree.fields.flatMap Field.exprs)) (fun _ _ _ hle h => h.mono hle)
    fun key _ => exists_callsEnd hloops hcalls key
  obtain ⟨hmain, hfields⟩ := List.forall_mem_cons.mp hfloor
  refine ⟨floor + (tree.fields.flatMap Field.exprs).length, fun limits hdepth => ?_⟩
  refine (halts_defineFields limits hfields hdepth).bind fun _ => ?_
  refine (Exact.forM fun method hmethod => halts_defineMethod hmethod).bind fun _ => ?_
  have hrun : Halts tree.methods (plain.runMain limits) :=
    halts_findMain_bind fun main hamong =>
      hmain main hamong limits.rounds limits.depth (by omega) Arena.root []
  exact hrun.bind fun result => (halts_display result).bind fun _ => .pure result

/-! ### Sessions -/

/-- What a key is bound to in a map of entries is one of the entries. -/
theorem mem_of_get?_ofList {entries : List (FunctionKey × α)} {key : FunctionKey} {value : α}
    (h : (Bindings.ofList entries).get? key = some value) : (key, value) ∈ entries := by
  have hfold (bindings : Bindings FunctionKey α)
      (hget : (entries.foldl (fun bindings entry => bindings.set entry.1 entry.2) bindings).get? key
        = some value) : bindings.get? key = some value ∨ (key, value) ∈ entries := by
    clear h
    induction entries generalizing bindings with
    | nil => exact .inl hget
    | cons entry rest ih =>
        rcases ih _ hget with hset | hrest
        · rw [Bindings.get?_set] at hset
          by_cases heq : (key == entry.1) = true
          · rw [if_pos heq] at hset
            obtain rfl : key = entry.1 := eq_of_beq heq
            obtain rfl := Option.some.inj hset
            exact .inr List.mem_cons_self
          · rw [if_neg heq] at hset
            exact .inl hset
        · exact .inr (List.mem_cons_of_mem entry hrest)
  rcases hfold .empty h with hempty | hmem
  · cases hempty
  · exact hmem

end Proofs

open Proofs

/-- Where nothing but functions of the host can be called, any methods may come to
be called. -/
theorem Machine.Offers.mono {machine : Machine} (h : machine.Offers [])
    (methods : List (Method Offset)) : machine.Offers methods := by
  refine ⟨fun index scope hscope key callee hbound => ?_, h.natives⟩
  have hamong := h.functions index scope hscope key callee hbound
  cases callee with
  | method defined => exact absurd hamong.1 List.not_mem_nil
  | host run => exact hamong
  | print => trivial

/-- A session in which no program has run yet, and with functions of the host that always
answer. -/
def Session.Answering (session : Session) : Prop :=
  session.machine.Offers []

namespace Session.Answering

variable {session : Session}

/-- In the first session there is nothing of the host. -/
theorem initial : Session.initial.Answering := by
  have hempty : Binds (Callee.IsAmong []) (Arena.initial : Arena Value Callable) := by
    intro index scope hscope key callee hbound
    cases index with
    | zero =>
        obtain rfl := Option.some.inj hscope
        cases hbound
    | succ index => cases hscope
  exact ⟨hempty.bindFunction Arena.root trivial, fun _ h => absurd h List.not_mem_nil⟩

/-- The host may bind variables. -/
theorem bindVariable (h : session.Answering) (name : String) (value : Value) :
    (session.bindVariable name value).Answering :=
  ⟨h.functions.bindVariable Arena.root name value, h.natives⟩

/-- It may bind functions that always answer. -/
theorem bindFunction (h : session.Answering) (key : FunctionKey) {run : HostFunction}
    (hrun : run.Returns) : (session.bindFunction key run).Answering :=
  ⟨h.functions.bindFunction Arena.root hrun, h.natives⟩

/-- It may make objects with methods that always answer. -/
theorem newObject (h : session.Answering) (typeName : String) (fields : List (String × Value))
    {methods : List (FunctionKey × HostFunction)}
    (hmethods : ∀ key run, (key, run) ∈ methods → HostFunction.Returns run) :
    (session.newObject typeName fields methods).2.Answering := by
  refine ⟨h.functions, fun table htable key run hrun => ?_⟩
  rcases List.mem_append.mp htable with htable | htable
  · exact h.natives table htable key run hrun
  · obtain rfl := List.mem_singleton.mp htable
    exact hmethods key run (mem_of_get?_ofList hrun)

/-- A program may be checked, which leaves the machine alone. -/
theorem check (h : session.Answering) (program : Program Offset) :
    (session.check program).2.Answering := by
  unfold Session.Answering
  rw [Session.machine_check]
  exact h

end Session.Answering

namespace Proofs

/-- Programs without loops on conditions and without recursion come to an end,
whether they are checked before or not, and whatever the sequences are that they go
through: with any limits from some depth on, the run ends with a value or a fault,
or at a number that is out of range by itself.

The functions of the host always answer. They are pure functions of the heap and of
their arguments (`HostFunction`), so they do not run programs themselves. -/
theorem acyclic_programs_halt {session : Session} (h : session.Answering)
    {program : Program Offset} (hloops : program.Loopless) (hcalls : program.Acyclic) :
    ∃ depth, ∀ limits : Limits, depth ≤ limits.depth →
      ((∃ value, (session.execute limits program).1 = .ok value)
        ∨ (∃ f, (session.execute limits program).1 = .error (.fault f))
        ∨ ∃ e : NumberError, e.Proper ∧ (session.execute limits program).1 = .error (.number e))
      ∧ ((session.check program).2.execute limits program).1
        = (session.execute limits program).1 := by
  obtain ⟨depth, hdepth⟩ := exists_halts_program hloops hcalls
  refine ⟨depth, fun limits hlimits => ⟨?_, ?_⟩⟩
  · have hoffers := h.mono program.methods
    have hends := (hdepth limits hlimits session.quiet.machine
      ⟨hoffers.functions, hoffers.natives⟩).2
    unfold Yields at hends
    unfold Session.execute Session.ran
    cases hrun : Interpreter.plain.program limits program session.quiet.machine with
    | ok value after => exact .inl ⟨value, rfl⟩
    | error stop after =>
        rw [hrun] at hends
        cases stop with
        | fault f => exact .inr (.inl ⟨f, rfl⟩)
        | number e => exact .inr (.inr ⟨e, hends.1, rfl⟩)
        | _ => exact hends.1.elim
  · unfold Session.check Session.checked
    cases Checker.plain.program session.types program session.symbols with
    | ok checked symbols => exact execute_of_symbols session symbols limits program
    | error e symbols => exact execute_of_symbols session symbols limits program

/-- So it is with a program that goes through a sequence of the host and calls one `f` from
another, which has the same name but another number of parameters. -/
theorem acyclic_programs_halt_over_sequences :
    ∃ program, readProgram
    "DEF f(n:N) DO f(n,n);END DEF f(n:N,m:N) DO END DEF main() DO FOR i IN up(3) DO f(i);END END"
        = .ok program
      ∧ ∃ depth, ∀ limits : Limits, depth ≤ limits.depth →
        let session := Session.initial.bindFunction ("up", 1) fun _ arguments =>
          .ok (.sequence (arguments ++ arguments))
        ((∃ value, (session.execute limits program).1 = .ok value)
            ∨ (∃ f, (session.execute limits program).1 = .error (.fault f))
            ∨ ∃ e : NumberError, e.Proper
              ∧ (session.execute limits program).1 = .error (.number e))
          ∧ ((session.check program).2.execute limits program).1
            = (session.execute limits program).1 := by
  have hlex : tokenize
    "DEF f(n:N) DO f(n,n);END DEF f(n:N,m:N) DO END DEF main() DO FOR i IN up(3) DO f(i);END END"
      = .ok
      [⟨.identifier, "DEF", 0⟩, ⟨.identifier, "f", 4⟩, ⟨.operator, "(", 5⟩,
        ⟨.identifier, "n", 6⟩, ⟨.operator, ":", 7⟩, ⟨.identifier, "N", 8⟩, ⟨.operator, ")", 9⟩,
        ⟨.identifier, "DO", 11⟩, ⟨.identifier, "f", 14⟩, ⟨.operator, "(", 15⟩,
        ⟨.identifier, "n", 16⟩, ⟨.operator, ",", 17⟩, ⟨.identifier, "n", 18⟩,
        ⟨.operator, ")", 19⟩, ⟨.operator, ";", 20⟩, ⟨.identifier, "END", 21⟩,
        ⟨.identifier, "DEF", 25⟩, ⟨.identifier, "f", 29⟩, ⟨.operator, "(", 30⟩,
        ⟨.identifier, "n", 31⟩, ⟨.operator, ":", 32⟩, ⟨.identifier, "N", 33⟩,
        ⟨.operator, ",", 34⟩, ⟨.identifier, "m", 35⟩, ⟨.operator, ":", 36⟩,
        ⟨.identifier, "N", 37⟩, ⟨.operator, ")", 38⟩, ⟨.identifier, "DO", 40⟩,
        ⟨.identifier, "END", 43⟩, ⟨.identifier, "DEF", 47⟩, ⟨.identifier, "main", 51⟩,
        ⟨.operator, "(", 55⟩, ⟨.operator, ")", 56⟩, ⟨.identifier, "DO", 58⟩,
        ⟨.identifier, "FOR", 61⟩, ⟨.identifier, "i", 65⟩, ⟨.identifier, "IN", 67⟩,
        ⟨.identifier, "up", 70⟩, ⟨.operator, "(", 72⟩, ⟨.integer, "3", 73⟩, ⟨.operator, ")", 74⟩,
        ⟨.identifier, "DO", 76⟩, ⟨.identifier, "f", 79⟩, ⟨.operator, "(", 80⟩,
        ⟨.identifier, "i", 81⟩, ⟨.operator, ")", 82⟩, ⟨.operator, ";", 83⟩,
        ⟨.identifier, "END", 84⟩, ⟨.identifier, "END", 88⟩] := by
    decide +kernel
  -- Every call goes to a key of lower rank. The two methods named `f` have different keys.
  let rank (key : FunctionKey) : Nat :=
    if key = ("main", 0) then 2 else if key = ("f", 1) then 1 else 0
  refine ⟨⟨[], [
    ⟨0, "f", ["n"], ["N"], none, [.expression 14 (.call 14 "f" [.var 16 "n", .var 18 "n"])]⟩,
    ⟨25, "f", ["n", "m"], ["N", "N"], none, []⟩,
    ⟨47, "main", [], [], none, [.forIn 61 "i" (.call 70 "up" [.integer 73 3])
      [.expression 79 (.call 79 "f" [.var 81 "i"])]]⟩]⟩, readProgram_eq_ok hlex rfl, ?_⟩
  exact acyclic_programs_halt (Session.Answering.initial.bindFunction ("up", 1)
    fun _ arguments => ⟨.sequence (arguments ++ arguments), rfl⟩)
    (by unfold Program.Loopless; decide) (acyclic_of_rank rank (by decide))

/-! ### Numbers that grow -/

/-- A program that squares a number ten times and returns it. -/
def squaringText : String :=
  "DEF main(): Integer DO LET x = 2000000000; x = x * x; x = x * x; x = x * x; x = x * x; "
    ++ "x = x * x; x = x * x; x = x * x; x = x * x; x = x * x; x = x * x; RETURN x; END"

/-- The tree of the program: one square stands eleven characters behind the other. -/
def squaring : Program Offset :=
  ⟨[], [⟨0, "main", [], [], some "Integer",
    [.declare 23 ⟨"x", none, some (.integer 31 2000000000)⟩]
    ++ (List.range 10).map (fun k =>
      .assign (43 + 11 * k) (.var (43 + 11 * k) "x")
        (.binary (47 + 11 * k) .mul (.var (47 + 11 * k) "x") (.var (51 + 11 * k) "x")))
    ++ [.result 153 (.var 160 "x")]⟩]⟩

/-- The tokens of the program, whose longest number has ten digits. -/
theorem tokenize_squaring : tokenize squaringText = .ok
    ([⟨.identifier, "DEF", 0⟩, ⟨.identifier, "main", 4⟩, ⟨.operator, "(", 8⟩,
      ⟨.operator, ")", 9⟩, ⟨.operator, ":", 10⟩, ⟨.identifier, "Integer", 12⟩,
      ⟨.identifier, "DO", 20⟩, ⟨.identifier, "LET", 23⟩, ⟨.identifier, "x", 27⟩,
      ⟨.operator, "=", 29⟩, ⟨.integer, "2000000000", 31⟩, ⟨.operator, ";", 41⟩]
    ++ (List.range 10).flatMap (fun k =>
      [⟨.identifier, "x", 43 + 11 * k⟩, ⟨.operator, "=", 45 + 11 * k⟩,
        ⟨.identifier, "x", 47 + 11 * k⟩, ⟨.operator, "*", 49 + 11 * k⟩,
        ⟨.identifier, "x", 51 + 11 * k⟩, ⟨.operator, ";", 52 + 11 * k⟩])
    ++ [⟨.identifier, "RETURN", 153⟩, ⟨.identifier, "x", 160⟩, ⟨.operator, ";", 161⟩,
      ⟨.identifier, "END", 163⟩]) := by
  decide +kernel

/-- The text has the tree that it was said to have. -/
theorem readProgram_squaring : readProgram squaringText = .ok squaring :=
  readProgram_eq_ok tokenize_squaring rfl

/-- The 1024th power has too many digits for the result to be written out, whatever the limits
are that let the run get so far. -/
theorem execute_squaring (limits : Limits) (h : 3 ≤ limits.depth) :
    (Session.initial.execute limits squaring).1
      = .error (.number (.tooManyDigits ((2000000000 ^ 32) ^ 32))) := by
  obtain ⟨depth, rounds⟩ := limits
  obtain ⟨more, rfl⟩ := Nat.exists_eq_add_of_le' h
  rfl

/-- A program without loops and calls that ends with neither a value nor a fault, under no
limits. -/
theorem squaring_ends_out_of_range :
    readProgram squaringText = .ok squaring ∧ squaring.Loopless ∧ squaring.Acyclic
      ∧ Session.initial.Answering
      ∧ ¬ ∃ depth, ∀ limits : Limits, depth ≤ limits.depth →
        (∃ value, (Session.initial.execute limits squaring).1 = .ok value)
          ∨ ∃ f, (Session.initial.execute limits squaring).1 = .error (.fault f) := by
  refine ⟨readProgram_squaring, ?_, acyclic_of_rank (fun _ => 0) (by decide), .initial, ?_⟩
  · unfold Program.Loopless
    decide
  · rintro ⟨depth, hends⟩
    have hsquared := execute_squaring ⟨depth + 3, 0⟩ (Nat.le_add_left 3 depth)
    rcases hends ⟨depth + 3, 0⟩ (Nat.le_add_right depth 3) with ⟨value, hvalue⟩ | ⟨f, hfault⟩
    · rw [hsquared] at hvalue
      cases hvalue
    · rw [hsquared] at hfault
      cases hfault

end Proofs

end PlcLang
