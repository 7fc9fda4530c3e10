import PlcLang.Proofs.Execution.Sessions

/-!
# `PlcLang.Proofs.Execution.TypeSafety`: values are of their types, or nil

In every run of an accepted program an expression has nil or a value of the type that the
checker gave it, the method to start with gives nil or an integer, and the run stops early
only in few ways (`values_conform_to_types`): at a division by zero, where nil stands in the
place of an operand, of a condition or of a sequence, where values of two tags are put into
an order although their types did not promise one tag, or at a limit.

Nil is the value of a variable that is declared without one and of a method that does not
return. No type excludes it.
-/

set_option autoImplicit false

namespace PlcLang

/-- The tags whose values are ordered among each other. -/
def Tag.isOrdered : Tag → Bool
  | boolean | integer | decimal | character | string => true
  | _ => false

/-- The types whose values are ordered among each other. `Comparable` is not one of
them, as it has values of several tags. -/
def Ty.isOrdered : Ty → Bool
  | boolean | integer | decimal | character | string => true
  | _ => false

/-- The value is of a type. Everything is of the type `Any`, and what has an ordered
tag of the type `Comparable`. -/
def Value.Conforms (v : Value) : Ty → Prop
  | .any => True
  | .comparable => v.tag.isOrdered = true
  | .integerIterable => ∃ numbers : List Int, v = .sequence (numbers.map .integer)
  | .nil => v.tag = .nil
  | .boolean => v.tag = .boolean
  | .integer => v.tag = .integer
  | .decimal => v.tag = .decimal
  | .character => v.tag = .character
  | .string => v.tag = .string
  | .host name => v.tag.name = name

/-- The value is nil or of a type. -/
def Value.GoodFor (v : Value) (type : Ty) : Prop :=
  v = .nil ∨ v.Conforms type

/-- Whether the operator asks for an order. -/
def BinaryOp.isOrdering : BinaryOp → Bool
  | less | lessEqual | greater | greaterEqual => true
  | _ => false

/-- The fault that a typed program may make, where an operator has operands with these
marks. -/
def FaultCause.Tolerable (operands : Option (Sight × Sight)) : FaultCause → Prop
  | divisionByZero => True
  | notBoolean found | notIterable found => found = .nil
  | wrongOperands op left right =>
    left = .nil ∨ right = .nil ∨ (op.isOrdering = true ∧ left ≠ right
      ∧ ∃ l r, operands = some (l, r) ∧ ∀ type : Ty, type.isOrdered = true →
        ¬ (l.note.type = some type ∧ r.note.type = some type))
  | _ => False

/-- How a run of a typed program may stop early: by a fault that it may make, at a
number that is out of range by itself, or at a limit. -/
def Halt.Tolerable (halt : Halt Sight) : Prop :=
  match halt.stop with
  | .fault fault => fault.cause.Tolerable halt.operands
  | .host _ => False
  | .number e => e.Proper
  | .tooDeep | .tooLong => True

namespace Proofs

/-! ### Types and values -/

/-- A type fits itself, anything, and if it is ordered what is comparable. -/
theorem fits_cases {target source : Ty} (h : Fits target source) :
    target = source ∨ target = .any
      ∨ (target = .comparable ∧ (source.isOrdered = true ∨ source = .comparable)) := by
  unfold Fits TypeTable.assignable at h
  rw [Bool.or_eq_true, Bool.or_eq_true, Bool.and_eq_true, beq_iff_eq, beq_iff_eq,
    beq_iff_eq] at h
  rcases h with (rfl | rfl) | ⟨rfl, hcomparable⟩
  · exact .inl rfl
  · exact .inr (.inl rfl)
  · refine .inr (.inr ⟨rfl, ?_⟩)
    cases source with
    | boolean | integer | decimal | character | string => exact .inl rfl
    | comparable => exact .inr rfl
    | nil | any | integerIterable | host name =>
        have hfalse : false = true := hcomparable
        cases hfalse

/-- The tag of a value of an ordered type is ordered. -/
theorem isOrdered_tag {type : Ty} {v : Value} (htype : type.isOrdered = true)
    (hv : v.Conforms type) : v.tag.isOrdered = true := by
  cases type with
  | boolean | integer | decimal | character | string =>
      have htag : v.tag = _ := hv
      rw [htag]
      rfl
  | _ => cases htype

/-- A value is good for the types that its own type fits. -/
theorem goodFor_of_fits {target source : Ty} {v : Value} (h : Fits target source)
    (hv : v.GoodFor source) : v.GoodFor target := by
  rcases hv with hnil | hv
  · exact .inl hnil
  · refine .inr ?_
    rcases fits_cases h with rfl | rfl | ⟨rfl, hordered | rfl⟩
    · exact hv
    · exact trivial
    · exact isOrdered_tag hordered hv
    · exact hv

/-- Nothing but booleans fits where a boolean is asked for. -/
theorem eq_boolean_of_fits {source : Ty} (h : Fits .boolean source) : source = .boolean := by
  rcases fits_cases h with rfl | hany | ⟨hcomparable, -⟩
  · rfl
  · cases hany
  · cases hcomparable

/-- What is good for booleans is a truth value, or nil. -/
theorem goodFor_boolean {v : Value} (h : v.GoodFor .boolean) :
    v = .nil ∨ ∃ truth, v = .boolean truth := by
  rcases h with hnil | htag
  · exact .inl hnil
  · cases v with
    | boolean truth => exact .inr ⟨truth, rfl⟩
    | _ => cases htag

/-- What is good for integers is an integer, or nil. -/
theorem goodFor_integer {v : Value} (h : v.GoodFor .integer) :
    v = .nil ∨ ∃ number, v = .integer number := by
  rcases h with hnil | htag
  · exact .inl hnil
  · cases v with
    | integer number => exact .inr ⟨number, rfl⟩
    | _ => cases htag

/-- What is good for decimals is a decimal, or nil. -/
theorem goodFor_decimal {v : Value} (h : v.GoodFor .decimal) :
    v = .nil ∨ ∃ number, v = .decimal number := by
  rcases h with hnil | htag
  · exact .inl hnil
  · cases v with
    | decimal number => exact .inr ⟨number, rfl⟩
    | _ => cases htag

/-- What is good for strings is a text, or nil. -/
theorem goodFor_string {v : Value} (h : v.GoodFor .string) :
    v = .nil ∨ ∃ text, v = .string text := by
  rcases h with hnil | htag
  · exact .inl hnil
  · cases v with
    | string text => exact .inr ⟨text, rfl⟩
    | _ => cases htag

/-- Two values of one ordered type have one tag, unless one of them is nil. -/
theorem tag_eq_of_goodFor {type : Ty} {v w : Value} (htype : type.isOrdered = true)
    (hv : v.GoodFor type) (hw : w.GoodFor type) : v = .nil ∨ w = .nil ∨ v.tag = w.tag := by
  rcases hv with hnil | hv
  · exact .inl hnil
  · rcases hw with hnil | hw
    · exact .inr (.inl hnil)
    · refine .inr (.inr ?_)
      cases type with
      | boolean | integer | decimal | character | string => exact Eq.trans hv (Eq.symm hw)
      | _ => cases htype

/-- Values of one ordered tag can be put into an order, so those that cannot have
different tags. -/
theorem tag_ne_of_compare? {v w : Value} (h : v.compare? w = none)
    (hv : v.tag.isOrdered = true) : v.tag ≠ w.tag := by
  intro htag
  cases v with
  | boolean | integer | decimal | character | string =>
      cases w <;> cases htag
      cases h
  | _ => cases hv

/-! ### Operators -/

/-- What an operator makes of two values is as it should be: good for its type, or a
fault that a typed program may make, or a number that is out of range by itself. -/
def Proper (type : Ty) (operands : Option (Sight × Sight)) (outcome : Except Refusal Value) :
    Prop :=
  match outcome with
  | .ok v => v.GoodFor type
  | .error (.fault cause) => cause.Tolerable operands
  | .error (.number e) => e.Proper

/-- `AND` fails for nil only. -/
theorem proper_and {operands : Option (Sight × Sight)} {v w : Value} (hv : v.GoodFor .boolean)
    (hw : w.GoodFor .boolean) : Proper .boolean operands (BinaryOp.and.apply v w) := by
  rcases goodFor_boolean hv with rfl | ⟨a, rfl⟩
  · exact .inl rfl
  · rcases goodFor_boolean hw with rfl | ⟨b, rfl⟩
    · exact .inr (.inl rfl)
    · exact .inr rfl

/-- An order fails between values of different tags, and these are not promised one
tag. -/
theorem proper_ordering {op : BinaryOp} {leftType rightType : Ty} {left right : Sight}
    {v w : Value} (hop : op.isOrdering = true) (hleft : left.note.type = some leftType)
    (hright : right.note.type = some rightType) (hfitsLeft : Fits .comparable leftType)
    (hv : v.GoodFor leftType) (hw : w.GoodFor rightType) :
    Proper .boolean (some (left, right)) (op.ordering v w) := by
  unfold BinaryOp.ordering
  cases horder : v.compare? w with
  | some order => exact .inr rfl
  | none =>
      by_cases hnil : v = .nil
      · exact .inl (by rw [hnil]; rfl)
      by_cases hnil' : w = .nil
      · exact .inr (.inl (by rw [hnil']; rfl))
      have hordered : v.tag.isOrdered = true :=
        (goodFor_of_fits hfitsLeft hv).resolve_left hnil
      have hne := tag_ne_of_compare? horder hordered
      refine .inr (.inr ⟨hop, hne, left, right, rfl, fun type htype hboth => ?_⟩)
      obtain ⟨hl, hr⟩ := hboth
      obtain rfl : leftType = type := Option.some.inj (hleft.symm.trans hl)
      obtain rfl : rightType = leftType := Option.some.inj (hright.symm.trans hr)
      rcases tag_eq_of_goodFor htype hv hw with h | h | h
      · exact hnil h
      · exact hnil' h
      · exact hne h

/-- A text is joined with whatever can be written out. -/
theorem proper_joined {operands : Option (Sight × Sight)} (v w : Value) :
    Proper .string operands (BinaryOp.joined v w) := by
  cases hjoined : BinaryOp.joined v w with
  | ok result =>
      obtain ⟨text, rfl⟩ := exists_string_of_joined_eq_ok hjoined
      exact .inr rfl
  | error refusal =>
      obtain ⟨e, he, rfl⟩ := exists_proper_of_joined_eq_error hjoined
      exact he

/-- Where one operand is to be a text it is one, or it is nil. -/
theorem proper_concat {operands : Option (Sight × Sight)} {leftType rightType : Ty}
    {v w : Value} (hstring : leftType = .string ∨ rightType = .string)
    (hv : v.GoodFor leftType) (hw : w.GoodFor rightType) :
    Proper .string operands (BinaryOp.add.apply v w) := by
  rcases hstring with rfl | rfl
  · rcases goodFor_string hv with rfl | ⟨a, rfl⟩
    · cases w with
      | string b => exact proper_joined _ _
      | _ => exact .inl rfl
    · cases w <;> exact proper_joined _ _
  · rcases goodFor_string hw with rfl | ⟨b, rfl⟩
    · cases v with
      | string a => exact proper_joined _ _
      | _ => exact .inr (.inl rfl)
    · cases v <;> exact proper_joined _ _

/-- What decimals come to, unless it is out of range. -/
theorem proper_inRange {operands : Option (Sight × Sight)} {answer : Except NumberError Decimal}
    (h : ∀ e, answer = .error e → e.Proper) :
    Proper .decimal operands ((answer.mapError Refusal.number).map Value.decimal) := by
  cases answer with
  | ok d => exact .inr rfl
  | error e => exact h e rfl

/-- The operators of these two levels are the four of arithmetic. -/
theorem arithmetic_cases {op : BinaryOp}
    (hop : op.precedence? = some .additive ∨ op.precedence? = some .multiplicative) :
    op = .add ∨ op = .sub ∨ op = .mul ∨ op = .div := by
  cases op with
  | add | sub | mul | div => simp
  | _ => exact absurd hop (by simp [BinaryOp.precedence?])

/-- Numbers have arithmetic, except for a division by zero and results that are out
of range. -/
theorem proper_arithmetic {op : BinaryOp} {operands : Option (Sight × Sight)} {type : Ty}
    {v w : Value}
    (hop : op.precedence? = some .additive ∨ op.precedence? = some .multiplicative)
    (hnumeric : type.isNumeric = true) (hv : v.GoodFor type) (hw : w.GoodFor type) :
    Proper type operands (op.apply v w) := by
  have hop := arithmetic_cases hop
  cases type with
  | integer =>
      -- With nil on a side the operands are of the wrong kind, a fault that is tolerated. Two
      -- integers always have a result, except for a division by zero.
      rcases goodFor_integer hv with rfl | ⟨a, rfl⟩ <;>
        rcases goodFor_integer hw with rfl | ⟨b, rfl⟩
      · rcases hop with rfl | rfl | rfl | rfl <;> exact .inl rfl
      · rcases hop with rfl | rfl | rfl | rfl <;> exact .inl rfl
      · rcases hop with rfl | rfl | rfl | rfl <;> exact .inr (.inl rfl)
      · rcases hop with rfl | rfl | rfl | rfl
        · exact .inr rfl
        · exact .inr rfl
        · exact .inr rfl
        · show Proper _ _ (Except.map _ (if b = 0 then _ else _))
          split
          · exact trivial
          · next hb =>
              rw [truncatedQuotient, if_neg hb]
              exact .inr rfl
  | decimal =>
      rcases goodFor_decimal hv with rfl | ⟨a, rfl⟩ <;>
        rcases goodFor_decimal hw with rfl | ⟨b, rfl⟩
      · rcases hop with rfl | rfl | rfl | rfl <;> exact .inl rfl
      · rcases hop with rfl | rfl | rfl | rfl <;> exact .inl rfl
      · rcases hop with rfl | rfl | rfl | rfl <;> exact .inr (.inl rfl)
      · rcases hop with rfl | rfl | rfl | rfl
        · exact proper_inRange fun _ => proper_of_fit_eq_error
        · exact proper_inRange fun _ => proper_of_fit_eq_error
        · exact proper_inRange fun _ => proper_of_fit_eq_error
        · show Proper _ _ (Except.map _ (if b.isZero = true then _ else _))
          split
          · exact trivial
          · next hb =>
              have hdivisor := eq_false_of_ne_true hb
              exact proper_inRange fun _ => proper_of_divide_eq_error hdivisor
  | _ => cases hnumeric

/-- So every operator makes what it should, by the rule that gave it its type. `OR`
is left out, as it may leave its right side out. -/
theorem proper_apply {op : BinaryOp} {leftType rightType type : Ty} {left right : Sight}
    {v w : Value} (h : OperatorType op leftType rightType type) (hor : op ≠ .or)
    (hleft : left.note.type = some leftType) (hright : right.note.type = some rightType)
    (hv : v.GoodFor leftType) (hw : w.GoodFor rightType) :
    Proper type (some (left, right)) (op.apply v w) := by
  cases h with
  | logical hop hfitsLeft hfitsRight =>
      obtain rfl := eq_boolean_of_fits hfitsLeft
      obtain rfl := eq_boolean_of_fits hfitsRight
      cases op with
      | or => exact absurd rfl hor
      | and => exact proper_and hv hw
      | _ => cases hop
  | comparison hop hfitsLeft hfitsRight =>
      cases op with
      | equal | notEqual => exact .inr rfl
      | less | lessEqual | greater | greaterEqual =>
          exact proper_ordering rfl hleft hright hfitsLeft hv hw
      | _ => cases hop
  | concat hstring => exact proper_concat hstring hv hw
  | arithmetic hop hnumeric => exact proper_arithmetic hop hnumeric hv hw

/-! ### Types as they say -/

/-- Types mean what they say, or nil. -/
def conforming : Reading where
  good type v := v.GoodFor type
  accepts := Halt.Tolerable

/-- The language keeps to this in every program, since nil is good for all types. -/
theorem conforming_closed : conforming.Closed where
  nil _ := .inl rfl
  nilLiteral := .inl rfl
  anyOperands _ _ _ := trivial
  anyLiterals _ := trivial
  boolean _ := .inr rfl
  integer _ := .inr rfl
  decimal _ _ := .inr rfl
  character _ := .inr rfl
  string _ := .inr rfl
  fits := goodFor_of_fits
  elements := by
    intro elements h element helement
    rcases h with hnil | ⟨numbers, hnumbers⟩
    · cases hnil
    · cases hnumbers
      obtain ⟨number, -, rfl⟩ := List.mem_map.mp helement
      exact .inr rfl
  operator := by
    intro op leftType rightType type left right v w h _ hor hleft hright hv hw
    have hproper := proper_apply h hor hleft hright hv hw
    cases happly : op.apply v w with
    | ok result =>
        rw [happly] at hproper
        exact hproper
    | error refusal =>
        rw [happly] at hproper
        intro offset
        cases refusal with
        | fault cause => exact hproper
        | number e => exact hproper
  -- Nil is good for Boolean too, and then the condition faults, as the language allows.
  condition := by
    intro v hv hne offset
    rcases goodFor_boolean hv with rfl | ⟨truth, rfl⟩
    · exact rfl
    · exact absurd rfl (hne truth)
  iterated := by
    intro v hv hne offset
    rcases hv with rfl | ⟨numbers, rfl⟩
    · exact rfl
    · exact absurd rfl (hne _)
  number he := he
  tooDeep := trivial
  tooLong := trivial

/-- Functions that answer with what they promise, or with nil, are what their
symbols say. -/
theorem goodFrame_conforming {hosts : List (HostHeader × HostFunction)}
    (hhosts : ∀ host ∈ hosts, ∀ heap arguments,
      ∃ v, host.2 heap arguments = .ok v ∧ v.GoodFor host.1.result)
    (methods : List (Method Sight)) :
    (conforming.expecting methods).GoodFrame (hostSymbols (hosts.map (·.1)))
      (hostCallees (hosts.map fun host => (host.1.symbol.key, host.2))) :=
  goodFrame_of_answers conforming_closed.nilLiteral hhosts methods

/-! ### Runs of accepted programs -/

/-- In every run of an accepted program each value of an expression is nil or of the
type that the checker noted of the expression, the method to start with gives nil or
an integer, and the run stops early only as a typed program may (`Halt.Tolerable`).

Of the host there may be functions that always answer with nil or a value of the
type that they are declared to return. They are pure functions of the heap and of
their arguments (`HostFunction`), and so can neither bind variables nor run
programs. -/
theorem values_conform_to_types {hosts : List (HostHeader × HostFunction)}
    (hhosts : ∀ host ∈ hosts, ∀ heap arguments,
      ∃ v, host.2 heap arguments = .ok v ∧ v.GoodFor host.1.result)
    {text : String} {program : Program Offset} {checked : Program Note} {session : Session}
    (hread : readProgram text = .ok program)
    (hcheck : (Session.hosting (hosts.map (·.1))
      (hosts.map fun host => (host.1.symbol.key, host.2))).check program
        = (.ok checked, session)) (limits : Limits) :
    ∃ seen : Program Sight,
      (Session.hosting (hosts.map (·.1))
          (hosts.map fun host => (host.1.symbol.key, host.2))).sight program = .ok seen
        ∧ seen.map Sight.note = checked
        ∧ session.execute limits program
          = ((session.follow limits seen).1.mapError Halt.stop,
              { session with
                machine := (session.follow limits seen).2.toMachineOf.relabel Sight.offset })
        ∧ (∀ event ∈ (session.follow limits seen).2.events,
            event.Typed fun type v => v.GoodFor type)
        ∧ (∀ v, (session.execute limits program).1 = .ok v →
            v = .nil ∨ ∃ number, v = .integer number)
        ∧ ∀ stop, (session.execute limits program).1 = .error stop →
          ∃ halt, (session.follow limits seen).1 = .error halt ∧ halt.stop = stop
            ∧ halt.Tolerable := by
  obtain ⟨seen, hseen, hnotes, hexecute, hevents, hresult, hstops⟩ :=
    session_agrees conforming_closed (goodFrame_conforming hhosts) hread hcheck limits
  -- What is known of the watched run is carried over to the plain one, which has its value and
  -- its stop.
  refine ⟨seen, hseen, hnotes, hexecute, fun event hevent => (hevents event hevent).2, ?_, ?_⟩
  · intro v hv
    rw [hexecute] at hv
    cases hfollow : (session.follow limits seen).1 with
    | error halt => rw [hfollow] at hv; cases hv
    | ok w =>
        rw [hfollow] at hv
        cases hv
        exact goodFor_integer (hresult v hfollow)
  · intro stop hstop
    rw [hexecute] at hstop
    cases hfollow : (session.follow limits seen).1 with
    | ok w => rw [hfollow] at hstop; cases hstop
    | error halt =>
        rw [hfollow] at hstop
        exact ⟨halt, rfl, Except.error.inj hstop, hstops halt hfollow⟩

/-- So it is in a program that divides by zero what a function of the host answers with. The
events have every value up to there, the access to the field and the call. -/
theorem values_conform_in_division :
    ∃ program checked session seen,
      readProgram "LET n = 1; DEF main(): Integer DO RETURN up(n) / 0; END" = .ok program
        ∧ (Session.hosting [⟨"up", [.integer], .integer⟩]
            [(("up", 1), fun _ _ => .ok (.integer 7))]).check program = (.ok checked, session)
        ∧ seen.map Sight.note = checked
        ∧ (∀ event ∈ (session.follow ⟨10, 10⟩ seen).2.events,
            event.Typed fun type v => v.GoodFor type)
        ∧ (session.follow ⟨10, 10⟩ seen).2.events.reverse.map Event.gist
          = [.enter 8, .value 8 "1", .enter 34, .enter 41, .enter 41, .enter 44,
              .access 44 "n", .value 44 "1", .called 41, .value 41 "7",
              .enter 49, .value 49 "0"]
        ∧ (session.execute ⟨10, 10⟩ program).1
          = .error (.fault ⟨.divisionByZero, some 41⟩) := by
  have hhosts : ∀ host ∈ [((⟨"up", [.integer], .integer⟩, fun _ _ => .ok (.integer 7)) :
      HostHeader × HostFunction)], ∀ heap arguments,
        ∃ v, host.2 heap arguments = .ok v ∧ v.GoodFor host.1.result := by
    intro host hhost heap arguments
    rw [List.mem_singleton.mp hhost]
    exact ⟨.integer 7, rfl, .inr rfl⟩
  have hlex : tokenize "LET n = 1; DEF main(): Integer DO RETURN up(n) / 0; END" = .ok
      [⟨.identifier, "LET", 0⟩, ⟨.identifier, "n", 4⟩, ⟨.operator, "=", 6⟩, ⟨.integer, "1", 8⟩,
        ⟨.operator, ";", 9⟩, ⟨.identifier, "DEF", 11⟩, ⟨.identifier, "main", 15⟩,
        ⟨.operator, "(", 19⟩, ⟨.operator, ")", 20⟩, ⟨.operator, ":", 21⟩,
        ⟨.identifier, "Integer", 23⟩, ⟨.identifier, "DO", 31⟩, ⟨.identifier, "RETURN", 34⟩,
        ⟨.identifier, "up", 41⟩, ⟨.operator, "(", 43⟩, ⟨.identifier, "n", 44⟩,
        ⟨.operator, ")", 45⟩, ⟨.operator, "/", 47⟩, ⟨.integer, "0", 49⟩, ⟨.operator, ";", 50⟩,
        ⟨.identifier, "END", 52⟩] := by
    rfl
  have hread : readProgram "LET n = 1; DEF main(): Integer DO RETURN up(n) / 0; END" = .ok
      ⟨[⟨0, "n", none, some (.integer 8 1)⟩], [⟨11, "main", [], [], some "Integer",
        [.result 34 (.binary 41 .div (.call 41 "up" [.var 44 "n"]) (.integer 49 0))]⟩]⟩ :=
    readProgram_eq_ok hlex rfl
  have hcheck : ((Session.hosting [⟨"up", [.integer], .integer⟩]
      [(("up", 1), fun _ _ => .ok (.integer 7))]).check
        ⟨[⟨0, "n", none, some (.integer 8 1)⟩], [⟨11, "main", [], [], some "Integer",
          [.result 34 (.binary 41 .div (.call 41 "up" [.var 44 "n"]) (.integer 49 0))]⟩]⟩).1
      = .ok
        ⟨[⟨⟨0, none, some (.variable ⟨"n", .integer, some 0⟩)⟩, "n", none,
            some (.integer ⟨8, some .integer, none⟩ 1)⟩],
          [⟨⟨11, none, some (.function ⟨"main", [], .integer, some 11⟩)⟩, "main", [], [],
            some "Integer", [.result ⟨34, none, none⟩
              (.binary ⟨41, some .integer, none⟩ .div
                (.call ⟨41, some .integer,
                    some (.function ⟨"up", [.integer], .integer, none⟩)⟩ "up"
                  [.var ⟨44, some .integer, some (.variable ⟨"n", .integer, some 0⟩)⟩ "n"])
                (.integer ⟨49, some .integer, none⟩ 0))]⟩]⟩ := by
    rfl
  -- The theorem gives the tree that is watched. It is computed here, so that the events can be
  -- listed.
  obtain ⟨seen, hsight, hnotes, -, hevents, -⟩ :=
    values_conform_to_types hhosts hread (Session.check_eq hcheck) ⟨10, 10⟩
  refine ⟨_, _, _, seen, hread, Session.check_eq hcheck, hnotes, hevents, ?_, rfl⟩
  obtain rfl := Except.ok.inj (hsight.symm.trans rfl)
  decide +kernel

end Proofs

end PlcLang
