import PlcLang.Proofs.Execution.Sessions
import PlcLang.Proofs.Printing.Numbers

/-!
# `PlcLang.Proofs.Execution.Scales`: the numbers that programs compute

Every decimal literal has digits behind the point. Sums and differences have as
many as the longer of their terms, products as many as both factors together, and
quotients as many as the dividend. So every decimal that an expression has in a run
of a program has digits behind the point, too (`scaled_of_computes`): the reading
`scaled` of values is one that the language keeps to, and it permits every program
that was read from a text.

What is shown of such a number is a literal of it unless it needs an exponent
(`computed_numbers_read_back`).
-/

set_option autoImplicit false

namespace PlcLang

namespace Decimal

/-! ### Scales of results -/

/-- What is kept of a decimal with digits behind the point has digits there. It may
lose some, below the lowest place. -/
theorem exponent_neg_of_fit {d kept : Decimal} (h : d.fit = .ok kept) (hd : d.exponent < 0) :
    kept.exponent < 0 := by
  have hlowest : lowestPlace < 0 := by decide
  unfold fit at h
  split at h
  · cases h
    show max lowestPlace (min d.exponent highestPlace) < 0
    omega
  · split at h
    · cases h
    · split at h
      · cases h
        exact hlowest
      · cases h
        exact hd

/-- A sum has as many digits behind the point as the longer of its terms. -/
theorem exponent_exactSum (a b : Decimal) :
    (a.exactSum b).exponent = min a.exponent b.exponent := by
  unfold exactSum
  dsimp only
  split <;> rfl

/-- So has a difference. -/
theorem exponent_exactDifference (a b : Decimal) :
    (a.exactDifference b).exponent = min a.exponent b.exponent :=
  exponent_exactSum a b.neg

/-- A quotient is worked out at the scale of the dividend. -/
theorem exponent_neg_of_divide {a b quotient : Decimal} (h : a.divide b = .ok quotient)
    (ha : a.exponent < 0) : quotient.exponent < 0 := by
  have hkept {answer : Except NumberError Int}
      (hanswer : (answer >>= fun units => (ofSigned units a.exponent).fit) = .ok quotient) :
      quotient.exponent < 0 := by
    cases answer with
    | error e => cases hanswer
    | ok units => exact exponent_neg_of_fit hanswer ha
  unfold divide at h
  dsimp only at h
  split at h
  · exact hkept h
  · exact hkept h

end Decimal

/-- If the value is a decimal, it has digits behind the point. It is no sequence, in
which there could be others. -/
def Value.Scaled : Value → Prop
  | .decimal number => number.exponent < 0
  | .sequence _ => False
  | _ => True

namespace Proofs

/-- A value that some expression has in a run of the text: a program that the checker
accepts and that is run by itself, within some limits. -/
def Computes (text : String) (v : Value) : Prop :=
  ∃ program checked session seen limits mark,
    readProgram text = .ok program
      ∧ Session.initial.check program = (.ok checked, session)
      ∧ Session.initial.sight program = .ok seen
      ∧ .value mark v ∈ (session.follow limits seen).2.events

/-! ### Operators -/

/-- What comes of two decimals has come of them without running out of range. -/
theorem eq_ok_of_mapError {answer : Except NumberError Decimal} {result : Decimal}
    (h : answer.mapError Refusal.number = .ok result) : answer = .ok result := by
  cases answer with
  | ok found =>
      cases h
      rfl
  | error e => cases h

/-- Arithmetic on decimals with digits behind the point leaves some there. -/
theorem exponent_neg_of_onDecimals {op : BinaryOp} {a b result : Decimal}
    (h : op.onDecimals a b = .ok result) (ha : a.exponent < 0) (hb : b.exponent < 0) :
    result.exponent < 0 := by
  cases op with
  | add =>
      refine Decimal.exponent_neg_of_fit (eq_ok_of_mapError h) ?_
      rw [Decimal.exponent_exactSum]
      omega
  | sub =>
      refine Decimal.exponent_neg_of_fit (eq_ok_of_mapError h) ?_
      rw [Decimal.exponent_exactDifference]
      omega
  | mul =>
      refine Decimal.exponent_neg_of_fit (eq_ok_of_mapError h) ?_
      show a.exponent + b.exponent < 0
      omega
  | div =>
      -- Division by zero has no result.
      simp only [BinaryOp.onDecimals] at h
      split at h
      · cases h
      · exact Decimal.exponent_neg_of_divide (eq_ok_of_mapError h) ha
  | _ => cases h

/-- Arithmetic makes an integer, or a decimal that has digits behind the point. -/
theorem scaled_arithmetic {op : BinaryOp} {v w result : Value}
    (h : op.arithmetic v w = .ok result) (hv : v.Scaled) (hw : w.Scaled) : result.Scaled := by
  unfold BinaryOp.arithmetic at h
  split at h
  · next a b =>
      cases hanswer : op.onIntegers a b with
      | error refusal =>
          rw [hanswer] at h
          cases h
      | ok number =>
          rw [hanswer] at h
          cases h
          exact trivial
  · next a b =>
      cases hanswer : op.onDecimals a b with
      | error refusal =>
          rw [hanswer] at h
          cases h
      | ok number =>
          rw [hanswer] at h
          cases h
          exact exponent_neg_of_onDecimals hanswer hv hw
  · cases h

/-- An order makes a truth value. -/
theorem scaled_ordering {op : BinaryOp} {v w result : Value}
    (h : op.ordering v w = .ok result) : result.Scaled := by
  unfold BinaryOp.ordering at h
  split at h <;> cases h
  exact trivial

/-- An operator makes no decimal without digits behind the point of values that are
none. -/
theorem scaled_apply {op : BinaryOp} {v w result : Value} (h : op.apply v w = .ok result)
    (hv : v.Scaled) (hw : w.Scaled) : result.Scaled := by
  cases op with
  | equal | notEqual =>
      cases h
      exact trivial
  | and =>
      simp only [BinaryOp.apply] at h
      split at h <;> cases h
      exact trivial
  | less | lessEqual | greater | greaterEqual => exact scaled_ordering h
  | add =>
      simp only [BinaryOp.apply] at h
      split at h
      · obtain ⟨text, rfl⟩ := exists_string_of_joined_eq_ok h
        exact trivial
      · exact scaled_arithmetic h hv hw
  | sub | mul | div => exact scaled_arithmetic h hv hw
  | or | other _ => cases h

/-! ### The reading -/

/-- Every decimal has digits behind the point, those that are written first of all.
Of how a run may stop nothing is said. -/
def scaled : Reading where
  good _ v := v.Scaled
  accepts _ := True
  literals number := number.exponent < 0

/-- The language keeps to this: nothing but literals and operators makes decimals. -/
theorem scaled_sound : scaled.Sound where
  nilLiteral := trivial
  boolean _ := trivial
  integer _ := trivial
  decimal _ hnumber := hnumber
  character _ := trivial
  string _ := trivial
  fits _ hv := hv
  elements := by
    intro elements h
    exact h.elim
  operator := by
    intro op _ _ _ _ _ v w _ _ _ _ _ hv hw
    cases happly : op.apply v w with
    | ok result => exact scaled_apply happly hv hw
    | error refusal => exact fun _ => trivial
  condition _ _ _ := trivial
  iterated _ _ _ := trivial
  number _ := trivial
  tooDeep := trivial
  tooLong := trivial

/-- A decimal that is derived from tokens has digits behind the point, as its token
has. -/
theorem DerivesExpr.exponent_neg {level : Level} {tokens : List Token} {e : Expr Unit} :
    DerivesExpr level tokens e → ∀ {number : Decimal}, e = .decimal () number →
      number.exponent < 0
  | .operand h, _, heq | .simple h, _, heq => h.exponent_neg heq
  | .decimal _ hvalue, _, rfl => hvalue.exponent_neg
  | .binary .., _, heq | .field .., _, heq | .methodCall .., _, heq | .nil _, _, heq
  | .boolean _, _, heq | .integer .., _, heq | .character .., _, heq | .string .., _, heq
  | .var _, _, heq | .call .., _, heq | .group .., _, heq => nomatch heq

/-- Nothing more is asked of a program that was read from a text. -/
theorem scaled_permitsProgram {text : String} {program : Program Offset}
    (hread : readProgram text = .ok program) {seen : Program Sight}
    (hseen : seen.map Sight.offset = program) : scaled.PermitsProgram seen := by
  subst hseen
  refine ⟨⟨fun _ _ _ _ _ _ _ _ _ _ _ => trivial, ?_, fun _ _ _ _ => trivial⟩,
    fun _ _ => .inr fun _ _ => trivial⟩
  -- A decimal of the checked tree is one of the tree that was read, and so one that was
  -- written in the text.
  intro m number hmem
  have hoffset : Expr.map Sight.offset (.decimal m number)
      ∈ (seen.map Sight.offset).exprs := by
    rw [Program.exprs_map]
    exact List.mem_map_of_mem hmem
  obtain ⟨level, tokens, hderives⟩ := written_of_readProgram hread hoffset
  exact hderives.exponent_neg rfl

/-! ### What programs compute -/

/-- Every decimal that a program computes has digits behind the point. -/
theorem scaled_of_computes {text : String} {v : Value} (h : Computes text v) : v.Scaled := by
  obtain ⟨program, checked, session, seen, limits, mark, hread, hcheck, hseen, hevent⟩ := h
  -- A program that is run by itself has a host that brings nothing.
  have hinitial : Session.hosting [] [] = .initial := rfl
  rw [← hinitial] at hcheck hseen
  have hnone : ∀ host ∈ ([] : List (HostHeader × HostFunction)), ∀ heap arguments,
      ∃ v, host.2 heap arguments = .ok v ∧ scaled.good host.1.result v := by simp
  obtain ⟨found, hfound, -, -, hevents, -⟩ :=
    session_agrees_of_permits scaled_sound (goodFrame_of_answers trivial hnone) hread hcheck
      (fun _ _ hprogram => scaled_permitsProgram hread hprogram) limits
  obtain rfl : found = seen := Except.ok.inj (hfound.symm.trans hseen)
  obtain ⟨type, -, hgood⟩ := (hevents _ hevent).2
  exact hgood

/-- **Which computed numbers are read back.** An integer that a program computes is shown
as one integer token that is parsed as the integer, exactly if it has no more digits than
are ever shown. A decimal that a program computes is shown as one decimal token that is
parsed as the decimal, sign, digits and scale included, exactly if its first digit is at
most six places behind the point and its digits are in reach: otherwise an exponent is
shown, or more digits than can be read. -/
theorem computed_numbers_read_back {text : String} {v : Value} (h : Computes text v) :
    (∀ value, v = .integer value → (ShownAs v .integer (.integer 0 value) ↔ Showable value))
      ∧ ∀ d, v = .decimal d →
        (ShownAs v .decimal (.decimal 0 d) ↔ -6 ≤ d.adjusted ∧ d.inReach = true) := by
  constructor
  · rintro value rfl
    exact shownAs_integer_iff value
  · rintro d rfl
    exact shownAs_decimal_iff (scaled_of_computes h)

/-- So it is with a product, which has the digits of both its factors behind the
point. -/
theorem computed_product_reads_back :
    Computes "LET x = 0.50 * 0.5; DEF main(): Integer DO RETURN 0; END"
        (.decimal ⟨false, 250, -3⟩)
      ∧ ShownAs (.decimal ⟨false, 250, -3⟩) .decimal (.decimal 0 ⟨false, 250, -3⟩) := by
  have hlex : tokenize "LET x = 0.50 * 0.5; DEF main(): Integer DO RETURN 0; END" = .ok
      [⟨.identifier, "LET", 0⟩, ⟨.identifier, "x", 4⟩, ⟨.operator, "=", 6⟩,
        ⟨.decimal, "0.50", 8⟩, ⟨.operator, "*", 13⟩, ⟨.decimal, "0.5", 15⟩,
        ⟨.operator, ";", 18⟩, ⟨.identifier, "DEF", 20⟩, ⟨.identifier, "main", 24⟩,
        ⟨.operator, "(", 28⟩, ⟨.operator, ")", 29⟩, ⟨.operator, ":", 30⟩,
        ⟨.identifier, "Integer", 32⟩, ⟨.identifier, "DO", 40⟩, ⟨.identifier, "RETURN", 43⟩,
        ⟨.integer, "0", 50⟩, ⟨.operator, ";", 51⟩, ⟨.identifier, "END", 53⟩] := by
    rfl
  have hread : readProgram "LET x = 0.50 * 0.5; DEF main(): Integer DO RETURN 0; END" = .ok
      ⟨[⟨0, "x", none, some (.binary 8 .mul (.decimal 8 ⟨false, 50, -2⟩)
          (.decimal 15 ⟨false, 5, -1⟩))⟩],
        [⟨20, "main", [], [], some "Integer", [.result 43 (.integer 50 0)]⟩]⟩ :=
    readProgram_eq_ok hlex rfl
  have hcomputes : Computes "LET x = 0.50 * 0.5; DEF main(): Integer DO RETURN 0; END"
      (.decimal ⟨false, 250, -3⟩) :=
    ⟨_, _, _, _, ⟨10, 10⟩, _, hread, Session.check_eq rfl, rfl,
      List.mem_of_getElem? (i := 3) rfl⟩
  exact ⟨hcomputes, ((computed_numbers_read_back hcomputes).2 _ rfl).mpr (by decide)⟩

/-- A decimal whose first digit is seven places behind the point is no longer shown as a
token: it is cut into an integer and a name. -/
theorem computed_small_decimal_shown_with_exponent :
    Computes "DEF main(): Integer DO print(0.0000001); RETURN 0; END"
        (.decimal ⟨false, 1, -7⟩)
      ∧ (Value.decimal ⟨false, 1, -7⟩).display = .ok "1E-7"
      ∧ tokenize "1E-7" = .ok [⟨.integer, "1", 0⟩, ⟨.identifier, "E-7", 1⟩]
      ∧ ¬ ShownAs (.decimal ⟨false, 1, -7⟩) .decimal (.decimal 0 ⟨false, 1, -7⟩) := by
  have hlex : tokenize "DEF main(): Integer DO print(0.0000001); RETURN 0; END" = .ok
      [⟨.identifier, "DEF", 0⟩, ⟨.identifier, "main", 4⟩, ⟨.operator, "(", 8⟩,
        ⟨.operator, ")", 9⟩, ⟨.operator, ":", 10⟩, ⟨.identifier, "Integer", 12⟩,
        ⟨.identifier, "DO", 20⟩, ⟨.identifier, "print", 23⟩, ⟨.operator, "(", 28⟩,
        ⟨.decimal, "0.0000001", 29⟩, ⟨.operator, ")", 38⟩, ⟨.operator, ";", 39⟩,
        ⟨.identifier, "RETURN", 41⟩, ⟨.integer, "0", 48⟩, ⟨.operator, ";", 49⟩,
        ⟨.identifier, "END", 51⟩] := by
    rfl
  have hread : readProgram "DEF main(): Integer DO print(0.0000001); RETURN 0; END" = .ok
      ⟨[], [⟨0, "main", [], [], some "Integer",
        [.expression 23 (.call 23 "print" [.decimal 29 ⟨false, 1, -7⟩]),
          .result 41 (.integer 48 0)]⟩]⟩ :=
    readProgram_eq_ok hlex rfl
  have hcomputes : Computes "DEF main(): Integer DO print(0.0000001); RETURN 0; END"
      (.decimal ⟨false, 1, -7⟩) :=
    ⟨_, _, _, _, ⟨10, 10⟩, _, hread, Session.check_eq rfl, rfl,
      List.mem_of_getElem? (i := 5) rfl⟩
  have hshown : (Value.decimal ⟨false, 1, -7⟩).display = .ok "1E-7" := by rfl
  have hcut : tokenize "1E-7" = .ok [⟨.integer, "1", 0⟩, ⟨.identifier, "E-7", 1⟩] := by rfl
  refine ⟨hcomputes, hshown, hcut, fun ⟨text, htext, hreads⟩ => ?_⟩
  obtain rfl : "1E-7" = text := Except.ok.inj (hshown.symm.trans htext)
  have hone := hreads.cut
  rw [hcut] at hone
  cases hone

end Proofs

end PlcLang
