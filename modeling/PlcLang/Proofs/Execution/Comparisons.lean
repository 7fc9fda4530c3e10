import Mathlib.Data.String.Basic
import PlcLang.Proofs.Decimals.Value
import PlcLang.Proofs.Execution.TypeSafety

/-!
# `PlcLang.Proofs.Execution.Comparisons`: equality and order of values

The operators of comparison agree with each other on all values
(`comparisons_coherent`). The two halves of it:

* Equality compares what it sees of the values, their contents (`equals_iff`). The
  contents of two values are the same or they are not, so equality is an equivalence.
* The values of one ordered tag are compared as members of a linear order, into which
  `exists_rank` maps them. What holds of every linear order holds of them, then.
  Decimals are ranked by the numbers that they are, so their scale does not matter.
-/

set_option autoImplicit false

namespace PlcLang

/-- The tags belong to one variant of values. All objects make up one variant, whatever
their types. -/
def Tag.sameVariant : Tag → Tag → Bool
  | object _, object _ => true
  | s, t => s == t

/-- The values have one tag, and it is an ordered one: that of booleans, integers,
decimals, characters or strings. -/
def Value.Ranked (v w : Value) : Prop :=
  v.tag = w.tag ∧ v.tag.isOrdered = true

/-- The operator says yes to the operands. -/
def BinaryOp.Holds (op : BinaryOp) (v w : Value) : Prop :=
  op.apply v w = .ok (.boolean true)

/-- What equality sees of a value: of a decimal its number, of a function or an object
its identity. -/
inductive Content where
  | nil
  | boolean (value : Bool)
  | integer (value : Int)
  | decimal (number : ℚ)
  | character (text : String)
  | string (text : String)
  | sequence (elements : List Content)
  | function (id : Nat)
  | object (id : Nat)

namespace Value

mutual

/-- The content of a value. Only for decimals it is another thing than the value:
the number. -/
def content : Value → Content
  | nil => .nil
  | boolean value => .boolean value
  | integer value => .integer value
  | decimal value => .decimal value.toRat
  | character text => .character text
  | string text => .string text
  | sequence elements => .sequence (contentAll elements)
  | function ref => .function ref.id
  | object ref => .object ref.id

/-- The contents of a list of values, one by one. -/
def contentAll : List Value → List Content
  | [] => []
  | v :: rest => v.content :: contentAll rest

end

end Value

namespace Proofs

/-! ### Equality -/

/-- Decimals have the same value if they are the same number. -/
theorem sameValue_iff (a b : Decimal) : a.sameValue b = true ↔ a.toRat = b.toRat := by
  rw [Decimal.sameValue, beq_iff_eq, Decimal.compare_eq_cmp, cmp_eq_eq_iff]

mutual

/-- Values are equal if their contents are the same. The induction goes into
sequences. -/
theorem equals_iff : ∀ v w : Value, v.equals w = true ↔ v.content = w.content
  | .nil, w => by cases w <;> simp [Value.equals, Value.content]
  | .boolean a, w => by cases w <;> simp [Value.equals, Value.content]
  | .integer a, w => by cases w <;> simp [Value.equals, Value.content]
  | .decimal a, w => by cases w <;> simp [Value.equals, Value.content, sameValue_iff]
  | .character a, w => by cases w <;> simp [Value.equals, Value.content]
  | .string a, w => by cases w <;> simp [Value.equals, Value.content]
  | .sequence vs, w => by
      cases w with
      | sequence ws => simp [Value.equals, Value.content, equalAll_iff vs ws]
      | _ => simp [Value.equals, Value.content]
  | .function f, w => by cases w <;> simp [Value.equals, Value.content]
  | .object o, w => by cases w <;> simp [Value.equals, Value.content]

/-- Sequences are equal if their contents are the same, one by one, and they are of
one length. -/
theorem equalAll_iff : ∀ vs ws : List Value,
    Value.equalAll vs ws = true ↔ Value.contentAll vs = Value.contentAll ws
  | [], [] => by simp [Value.equalAll, Value.contentAll]
  | [], w :: ws => by simp [Value.equalAll, Value.contentAll]
  | v :: vs, [] => by simp [Value.equalAll, Value.contentAll]
  | v :: vs, w :: ws => by
      rw [Value.equalAll, Bool.and_eq_true, equals_iff v w, equalAll_iff vs ws,
        Value.contentAll, Value.contentAll, List.cons.injEq]

end

/-- Values of one content are of one variant, so values of different variants are
never equal. -/
theorem sameVariant_of_content {v w : Value} (h : v.content = w.content) :
    v.tag.sameVariant w.tag = true := by
  cases v <;> cases w <;> simp_all [Value.content, Value.tag, Tag.sameVariant]

/-- The operator of equality holds if the contents are the same. -/
theorem holds_equal {v w : Value} : BinaryOp.equal.Holds v w ↔ v.content = w.content := by
  rw [← equals_iff, BinaryOp.Holds, BinaryOp.apply, Except.ok.injEq, Value.boolean.injEq]

/-! ### Order -/

/-- The values of an ordered tag are made of things that have ranks in a linear order,
by which the values are compared. Those of one rank are equal. -/
theorem exists_rank {tag : Tag} (h : tag.isOrdered = true) :
    ∃ (Raw : Type) (make : Raw → Value) (Rank : Type) (_ : LinearOrder Rank)
      (rank : Raw → Rank),
      (∀ v : Value, v.tag = tag → ∃ a, v = make a) ∧
        ∀ a b, (make a).compare? (make b) = some (cmp (rank a) (rank b)) ∧
          ((make a).content = (make b).content ↔ rank a = rank b) := by
  cases tag with
  | boolean =>
      refine ⟨Bool, .boolean, Bool, inferInstance, id, fun v hv => ?_, fun a b => ⟨?_, ?_⟩⟩
      · cases v <;> cases hv
        exact ⟨_, rfl⟩
      · exact congrArg some (cmp_eq_compare a b).symm
      · simp [Value.content]
  | integer =>
      refine ⟨Int, .integer, Int, inferInstance, id, fun v hv => ?_, fun a b => ⟨?_, ?_⟩⟩
      · cases v <;> cases hv
        exact ⟨_, rfl⟩
      · exact congrArg some (cmp_eq_compare a b).symm
      · simp [Value.content]
  | decimal =>
      -- Decimals are ranked by their value: those that differ in scale alone are equal.
      refine ⟨Decimal, .decimal, ℚ, inferInstance, Decimal.toRat, fun v hv => ?_,
        fun a b => ⟨?_, ?_⟩⟩
      · cases v <;> cases hv
        exact ⟨_, rfl⟩
      · exact congrArg some (a.compare_eq_cmp b)
      · simp [Value.content]
  | character =>
      refine ⟨String, .character, String, inferInstance, id, fun v hv => ?_, fun a b => ⟨?_, ?_⟩⟩
      · cases v <;> cases hv
        exact ⟨_, rfl⟩
      · exact congrArg some (cmp_eq_compare a b).symm
      · simp [Value.content]
  | string =>
      refine ⟨String, .string, String, inferInstance, id, fun v hv => ?_, fun a b => ⟨?_, ?_⟩⟩
      · cases v <;> cases hv
        exact ⟨_, rfl⟩
      · exact congrArg some (cmp_eq_compare a b).symm
      · simp [Value.content]
  | _ => cases h

/-- Values that are not of one ordered tag have no order. -/
theorem compare?_eq_none {v w : Value} (h : ¬ v.Ranked w) : v.compare? w = none := by
  cases v <;> cases w <;> first | rfl | exact absurd ⟨rfl, rfl⟩ h

/-- The operators of order ask for the outcome of the comparison, each in its own
way. -/
theorem holds_iff_outcome {v w : Value} {outcome : Ordering} (h : v.compare? w = some outcome) :
    (BinaryOp.less.Holds v w ↔ outcome = .lt) ∧ (BinaryOp.lessEqual.Holds v w ↔ outcome ≠ .gt) ∧
      (BinaryOp.greater.Holds v w ↔ outcome = .gt) ∧
      (BinaryOp.greaterEqual.Holds v w ↔ outcome ≠ .lt) := by
  simp only [BinaryOp.Holds, BinaryOp.apply, BinaryOp.ordering, h, BinaryOp.holds,
    Except.ok.injEq, Value.boolean.injEq, beq_iff_eq, bne_iff_ne, ne_eq, and_self]

/-- So they compare the ranks, as the operators of any linear order do. -/
theorem holds_order {Rank : Type} [LinearOrder Rank] {v w : Value} {x y : Rank}
    (h : v.compare? w = some (cmp x y)) :
    (BinaryOp.less.Holds v w ↔ x < y) ∧ (BinaryOp.lessEqual.Holds v w ↔ x ≤ y) ∧
      (BinaryOp.greater.Holds v w ↔ y < x) ∧ (BinaryOp.greaterEqual.Holds v w ↔ y ≤ x) := by
  obtain ⟨hless, hlessEqual, hgreater, hgreaterEqual⟩ := holds_iff_outcome h
  exact ⟨hless.trans (cmp_eq_lt_iff x y),
    hlessEqual.trans ((not_congr (cmp_eq_gt_iff x y)).trans not_lt),
    hgreater.trans (cmp_eq_gt_iff x y),
    hgreaterEqual.trans ((not_congr (cmp_eq_lt_iff x y)).trans not_lt)⟩

/-- What one value says of another of its ordered tag: every operator answers,
exactly one of less, equal and greater holds, and the other operators follow from
these. -/
structure OrderLaws (v w : Value) : Prop where
  answers : ∀ op : BinaryOp, op.isOrdering = true → ∃ answer, op.apply v w = .ok (.boolean answer)
  /-- Exactly one of the two is smaller, unless they are equal. -/
  trichotomy :
    BinaryOp.less.Holds v w ∧ ¬ BinaryOp.equal.Holds v w ∧ ¬ BinaryOp.less.Holds w v ∨
      ¬ BinaryOp.less.Holds v w ∧ BinaryOp.equal.Holds v w ∧ ¬ BinaryOp.less.Holds w v ∨
      ¬ BinaryOp.less.Holds v w ∧ ¬ BinaryOp.equal.Holds v w ∧ BinaryOp.less.Holds w v
  lessEqual : BinaryOp.lessEqual.Holds v w ↔ BinaryOp.less.Holds v w ∨ BinaryOp.equal.Holds v w
  greater : BinaryOp.greater.Holds v w ↔ BinaryOp.less.Holds w v
  greaterEqual : BinaryOp.greaterEqual.Holds v w ↔ BinaryOp.lessEqual.Holds w v
  trans : ∀ u, u.Ranked v → BinaryOp.less.Holds u v → BinaryOp.less.Holds v w →
    BinaryOp.less.Holds u w

/-- An operator of order asks how the values compare, and asks nothing else. -/
theorem apply_of_isOrdering {op : BinaryOp} (h : op.isOrdering = true) (v w : Value) :
    op.apply v w = op.ordering v w := by
  cases op with
  | less | lessEqual | greater | greaterEqual => rfl
  | _ => cases h

/-- Values of one ordered tag keep to the laws, since their ranks do. -/
theorem orderLaws {v w : Value} (h : v.Ranked w) : OrderLaws v w := by
  obtain ⟨htag, hordered⟩ := h
  obtain ⟨Raw, make, Rank, _, rank, hmake, hranks⟩ := exists_rank hordered
  obtain ⟨a, rfl⟩ := hmake v rfl
  obtain ⟨b, rfl⟩ := hmake w htag.symm
  -- What is said of the two values is said of their ranks.
  obtain ⟨hless, hle, hgt, hge⟩ := holds_order (hranks a b).1
  obtain ⟨hless', hle', -, -⟩ := holds_order (hranks b a).1
  have hequal := holds_equal.trans (hranks a b).2
  refine ⟨fun op hop => ?_, ?_, ?_, ?_, ?_, ?_⟩
  · rw [apply_of_isOrdering hop, BinaryOp.ordering, (hranks a b).1]
    exact ⟨_, rfl⟩
  · rw [hless, hless', hequal]
    rcases lt_trichotomy (rank a) (rank b) with hlt | heq | hgt
    · exact .inl ⟨hlt, hlt.ne, hlt.asymm⟩
    · exact .inr (.inl ⟨heq.not_lt, heq, heq.not_gt⟩)
    · exact .inr (.inr ⟨hgt.asymm, hgt.ne', hgt⟩)
  · rw [hle, hless, hequal, le_iff_lt_or_eq]
  · rw [hgt, hless']
  · rw [hge, hle']
  · -- A third value has a rank of its own, among the same ranks.
    rintro u ⟨hu, -⟩ huv hvw
    obtain ⟨c, rfl⟩ := hmake u hu
    rw [(holds_order (hranks c a).1).1] at huv
    rw [(holds_order (hranks c b).1).1]
    exact huv.trans (hless.mp hvw)

/-- The comparisons of values are coherent. Equality answers for any two values, is an
equivalence and never holds between values of different variants, and `!=` is its
negation. Values of one ordered tag are in a linear order to which the five other
operators agree, and between all others the operators of order fail. -/
theorem comparisons_coherent :
    (∀ v w : Value, ∃ answer, BinaryOp.equal.apply v w = .ok (.boolean answer) ∧
      BinaryOp.notEqual.apply v w = .ok (.boolean (!answer))) ∧
    (∀ v, BinaryOp.equal.Holds v v) ∧
    (∀ v w, BinaryOp.equal.Holds v w → BinaryOp.equal.Holds w v) ∧
    (∀ u v w, BinaryOp.equal.Holds u v → BinaryOp.equal.Holds v w → BinaryOp.equal.Holds u w) ∧
    (∀ v w : Value, v.tag.sameVariant w.tag = false →
      BinaryOp.equal.apply v w = .ok (.boolean false)) ∧
    (∀ v w : Value, v.Ranked w → OrderLaws v w) ∧
    (∀ v w : Value, ¬ v.Ranked w → ∀ op : BinaryOp, op.isOrdering = true →
      ∃ cause, op.apply v w = .error (.fault cause) ∧ cause.kind = .typeMismatch) := by
  refine ⟨fun v w => ⟨v.equals w, rfl, rfl⟩, fun v => ?_, fun v w h => ?_, fun u v w h h' => ?_,
    fun v w h => ?_, fun v w => orderLaws, fun v w h op hop => ?_⟩
  · exact holds_equal.mpr rfl
  · exact holds_equal.mpr (holds_equal.mp h).symm
  · exact holds_equal.mpr ((holds_equal.mp h).trans (holds_equal.mp h'))
  · have hdiffer : v.equals w = false := by
      rw [Bool.eq_false_iff, ne_eq, equals_iff]
      intro hcontent
      rw [sameVariant_of_content hcontent] at h
      cases h
    rw [BinaryOp.apply, hdiffer]
  · rw [apply_of_isOrdering hop, BinaryOp.ordering, compare?_eq_none h]
    exact ⟨_, rfl, rfl⟩

/-- The decimals 1.0 and 1.50 are ordered. Nil is not equal to 1.0 and has no order. -/
theorem comparisons_coherent_of_scales :
    (Value.decimal ⟨false, 10, -1⟩).Ranked (.decimal ⟨false, 150, -2⟩) ∧
    OrderLaws (.decimal ⟨false, 10, -1⟩) (.decimal ⟨false, 150, -2⟩) ∧
    BinaryOp.less.Holds (.decimal ⟨false, 10, -1⟩) (.decimal ⟨false, 150, -2⟩) ∧
    BinaryOp.equal.apply .nil (.decimal ⟨false, 10, -1⟩) = .ok (.boolean false) ∧
    ∃ cause, BinaryOp.less.apply .nil .nil = .error (.fault cause) ∧
      cause.kind = .typeMismatch := by
  obtain ⟨-, -, -, -, happart, hranked, hunranked⟩ := comparisons_coherent
  refine ⟨⟨rfl, rfl⟩, hranked _ _ ⟨rfl, rfl⟩, rfl, happart _ _ rfl, ?_⟩
  exact hunranked _ _ (fun h => absurd h.2 (by decide)) .less rfl

end Proofs

end PlcLang
