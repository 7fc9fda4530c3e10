import PlcLang.Proofs.Execution.TypeSafety

/-!
# `PlcLang.Proofs.Execution.StrictSafety`: programs in which nil does not get about

A typed variable holds nil if it is declared without a value, and a typed call answers with
nil if the method falls through. A program that does neither, and that puts only values of
one ordered type into an order, is *definite* (`Program.Definite`).

In every run of an accepted and definite program an expression has a value of the type that
the checker gave it, which is nil only if that type is the one of nil or the one of anything.
The only fault is a division by zero, and a run that ends gives an integer
(`definite_programs_are_strict`).

The run is the one that `session_agrees_of_permits` looks at: parameters, variables of loops,
blocks and nested calls are dealt with there. What is shown here is that the operators make
values of their types from values of their types (`sure_apply`), and that a definite program
is one that the reading `strict` permits (`permitsProgram_of_definite`).
-/

set_option autoImplicit false

namespace PlcLang

/-- The value is of a type, and if it is nil the type is made for that. -/
structure Value.Inhabits (v : Value) (type : Ty) : Prop where
  conforms : v.Conforms type
  nil : v = .nil → type = .nil ∨ type = .any

/-- A program that keeps nil out of typed variables and out of typed calls:

- `initial`: every field and every local variable is declared with a value;
- `returns`: a method returns for certain, unless it is to return nil or anything;
- `ordered`: an operator of order has two operands of one ordered type. -/
structure Program.Definite (checked : Program Note) : Prop where
  initial : ∀ d ∈ checked.declarations, d.value ≠ none
  returns : ∀ method ∈ checked.methods, ∀ symbol : FunctionSymbol,
    method.mark.symbol = some (.function symbol) → symbol.result ≠ .nil → symbol.result ≠ .any →
      method.returns = true
  ordered : ∀ (m : Note) (op : BinaryOp) (left right : Expr Note),
    .binary m op left right ∈ checked.exprs → op.isOrdering = true →
      ∃ type : Ty, type.isOrdered = true ∧ left.mark.type = some type
        ∧ right.mark.type = some type

/-- The run has stopped at a division by zero, at a number that is out of range by itself or at a
limit. -/
def Stop.Strict : Stop → Prop
  | .fault f => f.cause = .divisionByZero
  | .host _ => False
  | .number e => e.Proper
  | .tooDeep | .tooLong => True

namespace Proofs

/-! ### Types and values -/

/-- A value of a type that is not nil inhabits it. -/
theorem inhabits_of_ne_nil {v : Value} {type : Ty} (h : v.Conforms type) (hne : v ≠ .nil) :
    v.Inhabits type :=
  ⟨h, fun hnil => absurd hnil hne⟩

/-- A truth value inhabits its type. -/
theorem inhabits_boolean (truth : Bool) : (Value.boolean truth).Inhabits .boolean :=
  inhabits_of_ne_nil rfl nofun

/-- An integer inhabits its type. -/
theorem inhabits_integer (number : Int) : (Value.integer number).Inhabits .integer :=
  inhabits_of_ne_nil rfl nofun

/-- A decimal inhabits its type. -/
theorem inhabits_decimal (number : Decimal) : (Value.decimal number).Inhabits .decimal :=
  inhabits_of_ne_nil rfl nofun

/-- A text inhabits its type. -/
theorem inhabits_string (text : String) : (Value.string text).Inhabits .string :=
  inhabits_of_ne_nil rfl nofun

/-- Where the type is not made for nil the value is not nil. -/
theorem ne_nil_of_inhabits {v : Value} {type : Ty} (h : v.Inhabits type) (hnil : type ≠ .nil)
    (hany : type ≠ .any) : v ≠ .nil := by
  intro hv
  rcases h.nil hv with heq | heq
  · exact hnil heq
  · exact hany heq

/-- What inhabits the type of booleans is a truth value. -/
theorem exists_boolean {v : Value} (h : v.Inhabits .boolean) : ∃ truth, v = .boolean truth :=
  (goodFor_boolean (.inr h.conforms)).resolve_left (ne_nil_of_inhabits h nofun nofun)

/-- What inhabits the type of integers is an integer. -/
theorem exists_integer {v : Value} (h : v.Inhabits .integer) : ∃ number, v = .integer number :=
  (goodFor_integer (.inr h.conforms)).resolve_left (ne_nil_of_inhabits h nofun nofun)

/-- What inhabits the type of decimals is a decimal. -/
theorem exists_decimal {v : Value} (h : v.Inhabits .decimal) : ∃ number, v = .decimal number :=
  (goodFor_decimal (.inr h.conforms)).resolve_left (ne_nil_of_inhabits h nofun nofun)

/-- What inhabits the type of strings is a text. -/
theorem exists_string {v : Value} (h : v.Inhabits .string) : ∃ text, v = .string text :=
  (goodFor_string (.inr h.conforms)).resolve_left (ne_nil_of_inhabits h nofun nofun)

/-- A value is passed on to where its type fits. Nil is passed on only to where anything fits,
for it has no order. -/
theorem inhabits_of_fits {target source : Ty} {v : Value} (hfits : Fits target source)
    (hv : v.Inhabits source) : v.Inhabits target := by
  by_cases hnil : v = .nil
  · rcases fits_cases hfits with rfl | rfl | ⟨rfl, hordered⟩
    · exact hv
    · exact ⟨trivial, fun _ => .inr rfl⟩
    · -- Neither nil nor anything fits where something comparable is wanted.
      rcases hv.nil hnil with rfl | rfl
      · exact absurd hordered (by decide)
      · exact absurd hordered (by decide)
  · have hgood : v.GoodFor target := goodFor_of_fits hfits (.inr hv.conforms)
    exact inhabits_of_ne_nil (hgood.resolve_left hnil) hnil

/-! ### Operators -/

/-- What an operator makes of two values is a value of its type, but for a division by zero and
for numbers that are out of range. -/
def Sure (type : Ty) : Except Refusal Value → Prop
  | .ok v => v.Inhabits type
  | .error (.fault cause) => cause = .divisionByZero
  | .error (.number e) => e.Proper

/-- `AND` of two truth values is one. -/
theorem sure_and {v w : Value} (hv : v.Inhabits .boolean) (hw : w.Inhabits .boolean) :
    Sure .boolean (BinaryOp.and.apply v w) := by
  obtain ⟨a, rfl⟩ := exists_boolean hv
  obtain ⟨b, rfl⟩ := exists_boolean hw
  exact inhabits_boolean (a && b)

/-- Two values of one ordered type have an order. -/
theorem sure_ordering {op : BinaryOp} {type : Ty} {v w : Value} (htype : type.isOrdered = true)
    (hv : v.Inhabits type) (hw : w.Inhabits type) : Sure .boolean (op.ordering v w) := by
  have hnil : type ≠ .nil := by rintro rfl; cases htype
  have hany : type ≠ .any := by rintro rfl; cases htype
  have htags : v.tag = w.tag := by
    rcases tag_eq_of_goodFor htype (.inr hv.conforms) (.inr hw.conforms) with h | h | h
    · exact absurd h (ne_nil_of_inhabits hv hnil hany)
    · exact absurd h (ne_nil_of_inhabits hw hnil hany)
    · exact h
  unfold BinaryOp.ordering
  cases horder : v.compare? w with
  | some order => exact inhabits_boolean (op.holds order)
  | none => exact absurd htags (tag_ne_of_compare? horder (isOrdered_tag htype hv.conforms))

/-- A text is joined with whatever can be written out. -/
theorem sure_joined (v w : Value) : Sure .string (BinaryOp.joined v w) := by
  cases hjoined : BinaryOp.joined v w with
  | ok result =>
      obtain ⟨text, rfl⟩ := exists_string_of_joined_eq_ok hjoined
      exact inhabits_string text
  | error refusal =>
      obtain ⟨e, he, rfl⟩ := exists_proper_of_joined_eq_error hjoined
      exact he

/-- Where one operand is a text, the operator of addition joins the two. -/
theorem sure_concat {leftType rightType : Ty} {v w : Value}
    (hstring : leftType = .string ∨ rightType = .string) (hv : v.Inhabits leftType)
    (hw : w.Inhabits rightType) : Sure .string (BinaryOp.add.apply v w) := by
  rcases hstring with rfl | rfl
  · obtain ⟨a, rfl⟩ := exists_string hv
    cases w <;> exact sure_joined _ _
  · obtain ⟨b, rfl⟩ := exists_string hw
    cases v <;> exact sure_joined _ _

/-- What decimals come to, unless it is out of range. -/
theorem sure_inRange {answer : Except NumberError Decimal}
    (h : ∀ e, answer = .error e → e.Proper) :
    Sure .decimal ((answer.mapError Refusal.number).map Value.decimal) := by
  cases answer with
  | ok d => exact inhabits_decimal d
  | error e => exact h e rfl

/-- Numbers have arithmetic, except for a division by zero and results that are out
of range. -/
theorem sure_arithmetic {op : BinaryOp} {type : Ty} {v w : Value}
    (hop : op.precedence? = some .additive ∨ op.precedence? = some .multiplicative)
    (hnumeric : type.isNumeric = true) (hv : v.Inhabits type) (hw : w.Inhabits type) :
    Sure type (op.apply v w) := by
  have hop := arithmetic_cases hop
  cases type with
  | integer =>
      obtain ⟨a, rfl⟩ := exists_integer hv
      obtain ⟨b, rfl⟩ := exists_integer hw
      -- The operands are integers, not nil. Only the division looks at them first.
      rcases hop with rfl | rfl | rfl | rfl
      · exact inhabits_integer (a + b)
      · exact inhabits_integer (a - b)
      · exact inhabits_integer (a * b)
      · show Sure .integer (Except.map _ (if b = 0 then _ else _))
        split
        · exact rfl
        · next hb =>
            rw [truncatedQuotient, if_neg hb]
            exact inhabits_integer (a.tdiv b)
  | decimal =>
      obtain ⟨a, rfl⟩ := exists_decimal hv
      obtain ⟨b, rfl⟩ := exists_decimal hw
      rcases hop with rfl | rfl | rfl | rfl
      · exact sure_inRange fun _ => proper_of_fit_eq_error
      · exact sure_inRange fun _ => proper_of_fit_eq_error
      · exact sure_inRange fun _ => proper_of_fit_eq_error
      · show Sure .decimal (Except.map _ (if b.isZero = true then _ else _))
        split
        · exact rfl
        · next hb =>
            have hdivisor := eq_false_of_ne_true hb
            exact sure_inRange fun _ => proper_of_divide_eq_error hdivisor
  | _ => cases hnumeric

/-- Operators keep to their types, if those of order have two operands of one
ordered type. `OR` is left out, as it may leave its right side out. -/
theorem sure_apply {op : BinaryOp} {leftType rightType type : Ty} {v w : Value}
    (h : OperatorType op leftType rightType type)
    (halike : op.isOrdering = true → leftType.isOrdered = true ∧ rightType = leftType)
    (hor : op ≠ .or) (hv : v.Inhabits leftType) (hw : w.Inhabits rightType) :
    Sure type (op.apply v w) := by
  cases h with
  | logical hop hfitsLeft hfitsRight =>
      obtain rfl := eq_boolean_of_fits hfitsLeft
      obtain rfl := eq_boolean_of_fits hfitsRight
      cases op with
      | or => exact absurd rfl hor
      | and => exact sure_and hv hw
      | _ => cases hop
  | comparison hop _ _ =>
      cases op with
      | equal => exact inhabits_boolean (v.equals w)
      | notEqual => exact inhabits_boolean (!v.equals w)
      | less | lessEqual | greater | greaterEqual =>
          obtain ⟨hordered, rfl⟩ := halike rfl
          exact sure_ordering hordered hv hw
      | _ => cases hop
  | concat hstring => exact sure_concat hstring hv hw
  | arithmetic hop hnumeric => exact sure_arithmetic hop hnumeric hv hw

/-! ### Types as they say, without nil -/

/-- Types mean what they say, and only a division by zero goes wrong. Of the
operators of order two operands of one ordered type are expected. -/
def strict : Reading where
  good type v := v.Inhabits type
  accepts halt := halt.stop.Strict
  operands op leftType rightType :=
    op.isOrdering = true → leftType.isOrdered = true ∧ rightType = leftType

/-- The language keeps to this, where nil is not let in. -/
theorem strict_sound : strict.Sound where
  nilLiteral := ⟨rfl, fun _ => .inl rfl⟩
  boolean := inhabits_boolean
  integer := inhabits_integer
  decimal number _ := inhabits_decimal number
  character _ := inhabits_of_ne_nil rfl nofun
  string := inhabits_string
  fits := inhabits_of_fits
  elements := by
    intro elements h element helement
    obtain ⟨numbers, hnumbers⟩ := h.conforms
    cases hnumbers
    obtain ⟨number, -, rfl⟩ := List.mem_map.mp helement
    exact inhabits_integer number
  operator := by
    intro op leftType rightType type left right v w h halike hor _ _ hv hw
    have hsure := sure_apply h halike hor hv hw
    cases happly : op.apply v w with
    | ok result =>
        rw [happly] at hsure
        exact hsure
    | error refusal =>
        rw [happly] at hsure
        intro offset
        cases refusal with
        | fault cause => exact hsure
        | number e => exact hsure
  -- A condition has the type Boolean and nil is not of it, so the branch that faults is not
  -- reached.
  condition := by
    intro v hv hne offset
    obtain ⟨truth, rfl⟩ := exists_boolean hv
    exact absurd rfl (hne truth)
  iterated := by
    intro v hv hne offset
    obtain ⟨numbers, rfl⟩ := hv.conforms
    exact absurd rfl (hne _)
  number he := he
  tooDeep := trivial
  tooLong := trivial

/-- What makes a program definite is seen in the tree that was watched while it was
checked. -/
theorem permitsProgram_of_definite {checked : Program Note} (hdefinite : checked.Definite)
    {seen : Program Sight} (hseen : seen.map Sight.note = checked) :
    strict.PermitsProgram seen := by
  subst hseen
  refine ⟨⟨?_, fun _ _ _ => trivial, ?_⟩, ?_⟩
  -- A comparison of order in the watched tree is one in the checked tree, and so its operands
  -- have one ordered type.
  · intro e he m op left right heq leftType rightType hleft hright hop
    subst heq
    have hmem : Expr.map Sight.note (.binary m op left right)
        ∈ (seen.map Sight.note).exprs := by
      rw [Program.exprs_map]
      exact List.mem_map_of_mem he
    rw [Expr.map] at hmem
    obtain ⟨type, hordered, hl, hr⟩ := hdefinite.ordered _ op _ _ hmem hop
    rw [Expr.mark_map] at hl hr
    obtain rfl : leftType = type := Option.some.inj (hleft.symm.trans hl)
    exact ⟨hordered, Option.some.inj (hright.symm.trans hr)⟩
  · intro d hd hnone
    have hmem : d.map Sight.note ∈ (seen.map Sight.note).declarations := by
      rw [Program.declarations_map]
      exact List.mem_map_of_mem hd
    refine absurd ?_ (hdefinite.initial _ hmem)
    rw [Declaration.map, hnone, Option.map_none]
  · intro method hmethod
    by_cases hreturns : method.returns = true
    · exact .inl hreturns
    · -- Such a method is to return nil or anything.
      refine .inr fun symbol hsymbol => ?_
      by_cases hnil : symbol.result = .nil
      · rw [hnil]
        exact ⟨rfl, fun _ => .inl rfl⟩
      by_cases hany : symbol.result = .any
      · rw [hany]
        exact ⟨trivial, fun _ => .inr rfl⟩
      have hmem : method.map Sight.note ∈ (seen.map Sight.note).methods :=
        List.mem_map_of_mem hmethod
      have hmapped := hdefinite.returns _ hmem symbol hsymbol hnil hany
      rw [Method.returns_map] at hmapped
      exact absurd hmapped hreturns

/-! ### Runs of definite programs -/

/-- In every run of an accepted and definite program each value of an expression is
of the type that the checker noted of the expression, and nil only if that type is
made for nil. The run ends with an integer, or it stops at a division by zero, at a
limit or at a number that is out of range by itself.

Of the host there may be functions that always answer with a value of the type that
they are declared to return. They are pure functions of the heap and of their
arguments (`HostFunction`). -/
theorem definite_programs_are_strict {hosts : List (HostHeader × HostFunction)}
    (hhosts : ∀ host ∈ hosts, ∀ heap arguments,
      ∃ v, host.2 heap arguments = .ok v ∧ v.Inhabits host.1.result)
    {text : String} {program : Program Offset} {checked : Program Note} {session : Session}
    (hread : readProgram text = .ok program)
    (hcheck : (Session.hosting (hosts.map (·.1))
      (hosts.map fun host => (host.1.symbol.key, host.2))).check program
        = (.ok checked, session))
    (hdefinite : checked.Definite) (limits : Limits) :
    ∃ seen : Program Sight,
      (Session.hosting (hosts.map (·.1))
          (hosts.map fun host => (host.1.symbol.key, host.2))).sight program = .ok seen
        ∧ seen.map Sight.note = checked
        ∧ session.execute limits program
          = ((session.follow limits seen).1.mapError Halt.stop,
              { session with
                machine := (session.follow limits seen).2.toMachineOf.relabel Sight.offset })
        ∧ (∀ event ∈ (session.follow limits seen).2.events,
            event.Typed fun type v => v.Inhabits type)
        ∧ (∀ v, (session.execute limits program).1 = .ok v → ∃ number, v = .integer number)
        ∧ ∀ stop, (session.execute limits program).1 = .error stop → stop.Strict := by
  -- What is asked of the checked program is asked of the tree that was watched meanwhile.
  have hpermits (seen : Program Sight) (hseen : seen.map Sight.note = checked)
      (_ : seen.map Sight.offset = program) : strict.PermitsProgram seen :=
    permitsProgram_of_definite hdefinite hseen
  obtain ⟨seen, hseen, hnotes, hexecute, hevents, hresult, hstops⟩ :=
    session_agrees_of_permits strict_sound
      (goodFrame_of_answers strict_sound.nilLiteral hhosts) hread hcheck hpermits limits
  refine ⟨seen, hseen, hnotes, hexecute, fun event hevent => (hevents event hevent).2, ?_, ?_⟩
  · intro v hv
    rw [hexecute] at hv
    cases hfollow : (session.follow limits seen).1 with
    | error halt => rw [hfollow] at hv; cases hv
    | ok w =>
        rw [hfollow] at hv
        cases hv
        exact exists_integer (hresult v hfollow)
  · intro stop hstop
    rw [hexecute] at hstop
    cases hfollow : (session.follow limits seen).1 with
    | ok w => rw [hfollow] at hstop; cases hstop
    | error halt =>
        rw [hfollow] at hstop
        have heq : halt.stop = stop := Except.error.inj hstop
        rw [← heq]
        exact hstops halt hfollow

/-- What the checker notes of a program that divides by zero unless a function of the host
answers with a greater number. -/
def divisionAvoided : Program Note :=
  ⟨[⟨⟨0, none, some (.variable ⟨"n", .integer, some 0⟩)⟩, "n", none,
      some (.integer ⟨8, some .integer, none⟩ 2)⟩],
    [⟨⟨11, none, some (.function ⟨"main", [], .integer, some 11⟩)⟩, "main", [], [],
      some "Integer",
      [.cond ⟨34, none, none⟩
        (.binary ⟨37, some .boolean, none⟩ .less
          (.var ⟨37, some .integer, some (.variable ⟨"n", .integer, some 0⟩)⟩ "n")
          (.call ⟨41, some .integer, some (.function ⟨"up", [.integer], .integer, none⟩)⟩ "up"
            [.var ⟨44, some .integer, some (.variable ⟨"n", .integer, some 0⟩)⟩ "n"]))
        [.result ⟨50, none, none⟩
          (.var ⟨57, some .integer, some (.variable ⟨"n", .integer, some 0⟩)⟩ "n")]
        [.result ⟨65, none, none⟩
          (.binary ⟨72, some .integer, none⟩ .div (.integer ⟨72, some .integer, none⟩ 1)
            (.integer ⟨76, some .integer, none⟩ 0))]]⟩]⟩

/-- It is definite: it declares nothing without a value, it returns on both
branches, and its order is one of integers. -/
theorem definite_divisionAvoided : divisionAvoided.Definite := by
  refine ⟨?_, ?_, ?_⟩
  · intro d hd
    obtain rfl : d = _ := List.mem_singleton.mp hd
    exact nofun
  · intro method hmethod symbol _ _ _
    obtain rfl : method = _ := List.mem_singleton.mp hmethod
    rfl
  · intro m op left right hmem hop
    -- The two operators of the program are the comparison and the division.
    simp only [divisionAvoided, Program.exprs, Field.exprs, Declaration.exprs, Method.exprs,
      Stmt.exprsAll, Stmt.exprs, Expr.subs, Expr.subsAll, List.flatMap_cons, List.flatMap_nil,
      List.append_nil, List.cons_append, List.nil_append, List.mem_cons, reduceCtorEq,
      Expr.binary.injEq, List.not_mem_nil, or_self, or_false, false_or] at hmem
    rcases hmem with ⟨-, rfl, rfl, rfl⟩ | ⟨-, rfl, -, -⟩
    · exact ⟨.integer, rfl, rfl, rfl⟩
    · cases hop

/-- So it is in a program whose result depends on what a function of the host answers with. The
events have every value on the way, the accesses to the field and the call. -/
theorem strict_in_conditional_return :
    ∃ program checked session seen,
      readProgram
          "LET n = 2; DEF main(): Integer DO IF n < up(n) DO RETURN n; ELSE RETURN 1 / 0; END END"
        = .ok program
        ∧ (Session.hosting [⟨"up", [.integer], .integer⟩]
            [(("up", 1), fun _ _ => .ok (.integer 7))]).check program = (.ok checked, session)
        ∧ checked.Definite
        ∧ seen.map Sight.note = checked
        ∧ (∀ event ∈ (session.follow ⟨10, 10⟩ seen).2.events,
            event.Typed fun type v => v.Inhabits type)
        ∧ (session.follow ⟨10, 10⟩ seen).2.events.reverse.map Event.gist
          = [.enter 8, .value 8 "2", .enter 34, .enter 37, .enter 37, .access 37 "n",
              .value 37 "2", .enter 41, .enter 44, .access 44 "n",
              .value 44 "2", .called 41, .value 41 "7",
              .value 37 "true", .enter 50, .enter 57, .access 57 "n",
              .value 57 "2"]
        ∧ (session.execute ⟨10, 10⟩ program).1 = .ok (.integer 2) := by
  have hhosts : ∀ host ∈ [((⟨"up", [.integer], .integer⟩, fun _ _ => .ok (.integer 7)) :
      HostHeader × HostFunction)], ∀ heap arguments,
        ∃ v, host.2 heap arguments = .ok v ∧ v.Inhabits host.1.result := by
    intro host hhost heap arguments
    rw [List.mem_singleton.mp hhost]
    exact ⟨.integer 7, rfl, inhabits_integer 7⟩
  have hlex : tokenize
      "LET n = 2; DEF main(): Integer DO IF n < up(n) DO RETURN n; ELSE RETURN 1 / 0; END END" = .ok
      [⟨.identifier, "LET", 0⟩, ⟨.identifier, "n", 4⟩, ⟨.operator, "=", 6⟩, ⟨.integer, "2", 8⟩,
        ⟨.operator, ";", 9⟩, ⟨.identifier, "DEF", 11⟩, ⟨.identifier, "main", 15⟩,
        ⟨.operator, "(", 19⟩, ⟨.operator, ")", 20⟩, ⟨.operator, ":", 21⟩,
        ⟨.identifier, "Integer", 23⟩, ⟨.identifier, "DO", 31⟩, ⟨.identifier, "IF", 34⟩,
        ⟨.identifier, "n", 37⟩, ⟨.operator, "<", 39⟩, ⟨.identifier, "up", 41⟩,
        ⟨.operator, "(", 43⟩, ⟨.identifier, "n", 44⟩, ⟨.operator, ")", 45⟩,
        ⟨.identifier, "DO", 47⟩, ⟨.identifier, "RETURN", 50⟩, ⟨.identifier, "n", 57⟩,
        ⟨.operator, ";", 58⟩, ⟨.identifier, "ELSE", 60⟩, ⟨.identifier, "RETURN", 65⟩,
        ⟨.integer, "1", 72⟩, ⟨.operator, "/", 74⟩, ⟨.integer, "0", 76⟩, ⟨.operator, ";", 77⟩,
        ⟨.identifier, "END", 79⟩, ⟨.identifier, "END", 83⟩] := by
    rfl
  have hread : readProgram
      "LET n = 2; DEF main(): Integer DO IF n < up(n) DO RETURN n; ELSE RETURN 1 / 0; END END" = .ok
      ⟨[⟨0, "n", none, some (.integer 8 2)⟩],
        [⟨11, "main", [], [], some "Integer",
          [.cond 34 (.binary 37 .less (.var 37 "n") (.call 41 "up" [.var 44 "n"]))
            [.result 50 (.var 57 "n")]
            [.result 65 (.binary 72 .div (.integer 72 1) (.integer 76 0))]]⟩]⟩ :=
    readProgram_eq_ok hlex rfl
  have hcheck : ((Session.hosting [⟨"up", [.integer], .integer⟩]
      [(("up", 1), fun _ _ => .ok (.integer 7))]).check
        ⟨[⟨0, "n", none, some (.integer 8 2)⟩],
          [⟨11, "main", [], [], some "Integer",
            [.cond 34 (.binary 37 .less (.var 37 "n") (.call 41 "up" [.var 44 "n"]))
              [.result 50 (.var 57 "n")]
              [.result 65 (.binary 72 .div (.integer 72 1) (.integer 76 0))]]⟩]⟩).1
      = .ok divisionAvoided := by
    rfl
  -- The theorem gives the tree that is watched. It is computed here, so that the events can be
  -- listed.
  obtain ⟨seen, hsight, hnotes, -, hevents, -⟩ :=
    definite_programs_are_strict hhosts hread (Session.check_eq hcheck) definite_divisionAvoided
      ⟨10, 10⟩
  refine ⟨_, _, _, seen, hread, Session.check_eq hcheck, definite_divisionAvoided, hnotes,
    hevents, ?_, rfl⟩
  obtain rfl := Except.ok.inj (hsight.symm.trans rfl)
  decide +kernel

end Proofs

end PlcLang
