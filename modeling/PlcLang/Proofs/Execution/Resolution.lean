import PlcLang.Proofs.Execution.Sessions

/-!
# `PlcLang.Proofs.Execution.Resolution`: names stand for what the checker took them for

In every run of an accepted program the frames that are seen from where a node is run bind
the names of those that the checker saw when it came upon the node. A variable is found in
the frame of its symbol, and a call reaches the method of its symbol
(`names_resolve_as_checked`).

No value matters for that: the functions of the host may answer with whatever they like.
-/

set_option autoImplicit false

namespace PlcLang.Proofs

/-! ### Faults of operators -/

/-- Applying an operator or asking for a value of some type fails in these two ways.
Neither is about a name. -/
def FaultOfValues (cause : FaultCause) : Prop :=
  cause.kind = .typeMismatch ∨ cause.kind = .divisionByZero

/-- So does an operator, where it does not end at a number that is out of range. -/
theorem faultOfValues_of_apply {op : BinaryOp} {v w : Value} {refusal : Refusal}
    (h : op.apply v w = .error refusal) {offset : Offset} {fault : Fault}
    (hfault : refusal.stop offset = .fault fault) : FaultOfValues fault.cause := by
  cases refusal_cases h with
  | operands =>
      cases hfault
      exact .inl rfl
  | zero =>
      cases hfault
      exact .inr rfl
  | number => cases hfault

/-! ### Names alone -/

/-- Every value is good, and a fault is one of values. So this reading is about
names alone. -/
def namesOnly : Reading where
  good _ _ := True
  accepts halt := ∀ fault, halt.stop = .fault fault → FaultOfValues fault.cause

/-- It is one that the language keeps to in every program. -/
theorem namesOnly_closed : namesOnly.Closed where
  nil _ := trivial
  nilLiteral := trivial
  anyOperands _ _ _ := trivial
  anyLiterals _ := trivial
  boolean _ := trivial
  integer _ := trivial
  decimal _ _ := trivial
  character _ := trivial
  string _ := trivial
  fits _ _ := trivial
  elements _ _ _ := trivial
  operator := by
    intro op _ _ _ _ _ v w _ _ _ _ _ _ _
    cases happly : op.apply v w with
    | ok result => exact trivial
    | error refusal => exact fun offset fault hfault => faultOfValues_of_apply happly hfault
  condition := by
    intro v _ _ offset fault hfault
    cases hfault
    exact .inl rfl
  iterated := by
    intro v _ _ offset fault hfault
    cases hfault
    exact .inl rfl
  number _ fault hfault := by cases hfault
  tooDeep fault hfault := by cases hfault
  tooLong fault hfault := by cases hfault

/-! ### The functions of the host -/

/-- A frame has the function that is bound, and those that it had. -/
theorem contains_setFunction {V F : Type} (frame : Frame V F) (key other : FunctionKey)
    (value : F) :
    (frame.setFunction key value).functionTable.contains other
      = (other == key || frame.functionTable.contains other) := by
  rw [Bindings.contains, Frame.setFunction, Bindings.get?_set]
  split
  · next h => rw [h]; rfl
  · next h => rw [Bool.not_eq_true] at h; rw [h]; rfl

/-- The checker has the functions that are declared to it, and those that it had. -/
theorem contains_addSymbols (declared : List HostHeader)
    (frame : Frame VariableSymbol FunctionSymbol) (key : FunctionKey) :
    (addSymbols frame declared).functionTable.contains key = true
      ↔ key ∈ declared.map (·.symbol.key) ∨ frame.functionTable.contains key = true := by
  induction declared generalizing frame with
  | nil => simp [addSymbols]
  | cons header rest ih =>
      rw [addSymbols, List.foldl_cons, ← addSymbols, ih, contains_setFunction, Bool.or_eq_true,
        beq_iff_eq, List.map_cons, List.mem_cons]
      tauto

/-- A machine has the functions that are bound to it, and those that it had. -/
theorem contains_addCallees {F : Type} (host : HostFunction → F)
    (bound : List (FunctionKey × HostFunction)) (frame : Frame Value F) (key : FunctionKey) :
    (addCallees host frame bound).functionTable.contains key = true
      ↔ key ∈ bound.map (·.1) ∨ frame.functionTable.contains key = true := by
  induction bound generalizing frame with
  | nil => simp [addCallees]
  | cons pair rest ih =>
      rw [addCallees, List.foldl_cons, ← addCallees, ih, contains_setFunction, Bool.or_eq_true,
        beq_iff_eq, List.map_cons, List.mem_cons]
      tauto

/-- What holds of all that the frame binds functions to. -/
def EveryFunction {V F : Type} (P : F → Prop) (frame : Frame V F) : Prop :=
  ∀ key value, frame.functionTable.get? key = some value → P value

/-- It holds of a frame without any. -/
theorem everyFunction_empty {V F : Type} (P : F → Prop) :
    EveryFunction P (Frame.empty : Frame V F) := by
  intro key value hget
  cases hget

/-- It goes on to hold if it holds of what is bound. -/
theorem EveryFunction.setFunction {V F : Type} {P : F → Prop} {frame : Frame V F}
    (h : EveryFunction P frame) {key : FunctionKey} {value : F} (hvalue : P value) :
    EveryFunction P (frame.setFunction key value) := by
  intro other found hget
  rw [Frame.setFunction, Bindings.get?_set] at hget
  split at hget
  · cases hget
    exact hvalue
  · exact h other found hget

/-- No function of the host is declared in a program. -/
theorem offset_hostSymbols (declared : List HostHeader) :
    EveryFunction (fun symbol => symbol.offset = none) (hostSymbols declared) := by
  have hfold {frame : Frame VariableSymbol FunctionSymbol}
      (hframe : EveryFunction (fun symbol => symbol.offset = none) frame) :
      EveryFunction (fun symbol => symbol.offset = none) (addSymbols frame declared) := by
    induction declared generalizing frame with
    | nil => exact hframe
    | cons header rest ih => exact ih (hframe.setFunction rfl)
  exact hfold ((everyFunction_empty _).setFunction rfl)

/-- No function of the host is a method of a program. -/
theorem ne_method_hostCallees (bound : List (FunctionKey × HostFunction)) :
    EveryFunction (fun callee => ∀ m, callee ≠ .method m) (hostCallees bound) := by
  have hfold {frame : Frame Value (Callee Sight)}
      (hframe : EveryFunction (fun callee => ∀ m, callee ≠ .method m) frame) :
      EveryFunction (fun callee => ∀ m, callee ≠ .method m) (addCallees .host frame bound) := by
    induction bound generalizing frame with
    | nil => exact hframe
    | cons pair rest ih => exact ih (hframe.setFunction (by simp))
  exact hfold ((everyFunction_empty _).setFunction (by simp))

/-- Functions that are declared leave the variables alone. -/
theorem variableTable_addSymbols (declared : List HostHeader)
    (frame : Frame VariableSymbol FunctionSymbol) :
    (addSymbols frame declared).variableTable = frame.variableTable := by
  induction declared generalizing frame with
  | nil => rfl
  | cons header rest ih => exact ih (frame.setFunction header.symbol.key header.symbol)

/-- Functions that are bound leave the variables alone. -/
theorem variableTable_addCallees {F : Type} (host : HostFunction → F)
    (bound : List (FunctionKey × HostFunction)) (frame : Frame Value F) :
    (addCallees host frame bound).variableTable = frame.variableTable := by
  induction bound generalizing frame with
  | nil => rfl
  | cons pair rest ih => exact ih (frame.setFunction pair.1 (host pair.2))

/-- As far as names go, a function that no program declares may be bound to whatever is no
method. -/
theorem goodCallee_namesOnly {methods : List (Method Sight)} {symbol : FunctionSymbol}
    {callee : Callee Sight} (hoffset : symbol.offset = none) (hcallee : ∀ m, callee ≠ .method m) :
    (namesOnly.expecting methods).GoodCallee symbol callee := by
  cases callee with
  | method m => exact absurd rfl (hcallee m)
  | print => exact ⟨hoffset, trivial⟩
  | host run =>
      refine ⟨hoffset, fun heap arguments => ?_⟩
      cases run heap arguments with
      | ok v => exact trivial
      | error e =>
          intro fault hfault
          cases hfault

/-- Functions that are declared and bound under the same names and arities are what their
symbols say, as far as names go. -/
theorem goodFrame_namesOnly {declared : List HostHeader}
    {bound : List (FunctionKey × HostFunction)}
    (hkeys : ∀ key, key ∈ declared.map (·.symbol.key) ↔ key ∈ bound.map (·.1))
    (methods : List (Method Sight)) :
    (namesOnly.expecting methods).GoodFrame (hostSymbols declared) (hostCallees bound) := by
  constructor
  · intro name
    rw [hostSymbols, hostCallees, variableTable_addSymbols, variableTable_addCallees]
    exact .none
  · intro key
    have hcontains : (hostSymbols declared).functionTable.contains key
        = (hostCallees bound).functionTable.contains key := by
      rw [Bool.eq_iff_iff, hostSymbols, hostCallees, contains_addSymbols, contains_addCallees,
        hkeys, contains_setFunction, contains_setFunction]
      rfl
    rw [Bindings.contains, Bindings.contains] at hcontains
    cases hsymbol : (hostSymbols declared).functionTable.get? key with
    | none =>
        cases hcallee : (hostCallees bound).functionTable.get? key with
        | none => exact .none
        | some callee => rw [hsymbol, hcallee] at hcontains; cases hcontains
    | some symbol =>
        cases hcallee : (hostCallees bound).functionTable.get? key with
        | none => rw [hsymbol, hcallee] at hcontains; cases hcontains
        | some callee =>
            exact .some (goodCallee_namesOnly (offset_hostSymbols declared key symbol hsymbol)
              (ne_method_hostCallees bound key callee hcallee))

/-! ### Runs of accepted programs -/

/-- Names stand for what the checker took them for, in every run of an accepted
program. Of the host there may be functions, which are declared and bound under the
same names and arities; they are pure functions of the heap and of their arguments
(`HostFunction`). At each moment of the run

* a node is run in a scope from where as many frames are seen, with the same
  variables and functions, as from where the checker came upon the node;
* a variable is found in the frame that binds the symbol noted of the access;
* a call reaches the method for which the symbol noted of the call was made, or a
  function of the host if that is what the symbol stands for.

So no name is without a binding, nothing else than a variable is assigned to, and
there is a method to start with. -/
theorem names_resolve_as_checked {declared : List HostHeader}
    {bound : List (FunctionKey × HostFunction)}
    (hkeys : ∀ key, key ∈ declared.map (·.symbol.key) ↔ key ∈ bound.map (·.1))
    {text : String} {program : Program Offset} {checked : Program Note} {session : Session}
    (hread : readProgram text = .ok program)
    (hcheck : (Session.hosting declared bound).check program = (.ok checked, session))
    (limits : Limits) :
    ∃ seen : Program Sight,
      (Session.hosting declared bound).sight program = .ok seen
        ∧ seen.map Sight.note = checked
        ∧ session.execute limits program
          = ((session.follow limits seen).1.mapError Halt.stop,
              { session with
                machine := (session.follow limits seen).2.toMachineOf.relabel Sight.offset })
        ∧ (∀ event ∈ (session.follow limits seen).2.events, event.Resolves seen.methods)
        ∧ ∀ fault, (session.execute limits program).1 = .error (.fault fault) →
          fault.cause.kind ≠ .undefinedBinding ∧ fault.cause.kind ≠ .invalidAssignmentTarget
            ∧ fault.cause.kind ≠ .missingMain := by
  obtain ⟨seen, hseen, hnotes, hexecute, hevents, -, hstops⟩ :=
    session_agrees namesOnly_closed (goodFrame_namesOnly hkeys) hread hcheck limits
  refine ⟨seen, hseen, hnotes, hexecute, fun event hevent => (hevents event hevent).1, ?_⟩
  -- The watched run can only end in a fault of two kinds, and neither is among the three.
  intro fault hfault
  rw [hexecute] at hfault
  cases hresult : (session.follow limits seen).1 with
  | ok v => rw [hresult] at hfault; cases hfault
  | error halt =>
      rw [hresult] at hfault
      have hstop : halt.stop = .fault fault := Except.error.inj hfault
      rcases hstops halt hresult fault hstop with hkind | hkind
      · rw [hkind]
        decide
      · rw [hkind]
        decide

/-- So they do in a program that hands a field to a function of the host. Every node that the run
comes upon, every value, the access and the call are among the events. -/
theorem names_resolve_in_host_call :
    ∃ program checked session seen,
      readProgram "LET n = 2; DEF main(): Integer DO RETURN up(n); END" = .ok program
        ∧ (Session.hosting [⟨"up", [.integer], .integer⟩]
            [(("up", 1), fun _ arguments => .ok (arguments.headD .nil))]).check program
          = (.ok checked, session)
        ∧ seen.map Sight.note = checked
        ∧ (∀ event ∈ (session.follow ⟨10, 10⟩ seen).2.events, event.Resolves seen.methods)
        ∧ (session.follow ⟨10, 10⟩ seen).2.events.reverse.map Event.gist
          = [.enter 8, .value 8 "2", .enter 34, .enter 41, .enter 44, .access 44 "n",
              .value 44 "2", .called 41, .value 41 "2"]
        ∧ (session.execute ⟨10, 10⟩ program).1 = .ok (.integer 2) := by
  have hlex : tokenize "LET n = 2; DEF main(): Integer DO RETURN up(n); END" = .ok
      [⟨.identifier, "LET", 0⟩, ⟨.identifier, "n", 4⟩, ⟨.operator, "=", 6⟩, ⟨.integer, "2", 8⟩,
        ⟨.operator, ";", 9⟩, ⟨.identifier, "DEF", 11⟩, ⟨.identifier, "main", 15⟩,
        ⟨.operator, "(", 19⟩, ⟨.operator, ")", 20⟩, ⟨.operator, ":", 21⟩,
        ⟨.identifier, "Integer", 23⟩, ⟨.identifier, "DO", 31⟩, ⟨.identifier, "RETURN", 34⟩,
        ⟨.identifier, "up", 41⟩, ⟨.operator, "(", 43⟩, ⟨.identifier, "n", 44⟩,
        ⟨.operator, ")", 45⟩, ⟨.operator, ";", 46⟩, ⟨.identifier, "END", 48⟩] := by
    rfl
  have hread : readProgram "LET n = 2; DEF main(): Integer DO RETURN up(n); END" = .ok
      ⟨[⟨0, "n", none, some (.integer 8 2)⟩],
        [⟨11, "main", [], [], some "Integer",
          [.result 34 (.call 41 "up" [.var 44 "n"])]⟩]⟩ :=
    readProgram_eq_ok hlex rfl
  -- What is declared of the host is what is bound, one function of one parameter.
  have hkeys : ∀ key : FunctionKey,
      key ∈ [(⟨"up", [.integer], .integer⟩ : HostHeader)].map (·.symbol.key)
        ↔ key ∈ [((("up", 1), fun _ arguments => .ok (arguments.headD .nil)) :
            FunctionKey × HostFunction)].map (·.1) := by
    intro key
    rfl
  have hcheck : ((Session.hosting [⟨"up", [.integer], .integer⟩]
      [(("up", 1), fun _ arguments => .ok (arguments.headD .nil))]).check
        ⟨[⟨0, "n", none, some (.integer 8 2)⟩],
          [⟨11, "main", [], [], some "Integer",
            [.result 34 (.call 41 "up" [.var 44 "n"])]⟩]⟩).1
      = .ok
        ⟨[⟨⟨0, none, some (.variable ⟨"n", .integer, some 0⟩)⟩, "n", none,
            some (.integer ⟨8, some .integer, none⟩ 2)⟩],
          [⟨⟨11, none, some (.function ⟨"main", [], .integer, some 11⟩)⟩, "main", [], [],
            some "Integer", [.result ⟨34, none, none⟩
              (.call ⟨41, some .integer,
                  some (.function ⟨"up", [.integer], .integer, none⟩)⟩ "up"
                [.var ⟨44, some .integer, some (.variable ⟨"n", .integer, some 0⟩)⟩
                  "n"])]⟩]⟩ := by
    rfl
  obtain ⟨seen, hsight, hnotes, -, hevents, -⟩ :=
    names_resolve_as_checked hkeys hread (Session.check_eq hcheck) ⟨10, 10⟩
  refine ⟨_, _, _, seen, hread, Session.check_eq hcheck, hnotes, hevents, ?_, rfl⟩
  obtain rfl := Except.ok.inj (hsight.symm.trans rfl)
  decide +kernel

end PlcLang.Proofs
