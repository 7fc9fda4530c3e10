import Mathlib.Tactic.NormNum
import PlcLang.Proofs.Typing.Declarative
import PlcLang.Proofs.Typing.Soundness

/-!
# `PlcLang.Proofs.Typing.Decision.Expressions`: expressions are decided

The checker elaborates an expression exactly as the rules of the type system do in
the context that is seen from the scope: `infer_decides`. It leaves the symbols
as they are.

What it asks along the way are the relations of the rules: `assignable_iff`,
`resolve?_iff`, `fitsInteger_iff`, `fitsDecimal_iff`, `operation_iff`.
-/

set_option autoImplicit false

namespace PlcLang.Proofs

open Checker

/-! ### Types -/

/-- The checker's table says of the types of the rules, and of no others, that their
values can be compared. -/
theorem isComparable_iff {type : Ty} :
    TypeTable.builtin.isComparable type = true ↔ ComparableType type := by
  constructor
  · intro h
    cases type with
    | boolean => exact .boolean
    | integer => exact .integer
    | decimal => exact .decimal
    | character => exact .character
    | string => exact .string
    | comparable => exact .comparable
    | _ => cases h
  · rintro (_ | _) <;> rfl

/-- The checker's test of two types is the relation between them. -/
theorem assignable_iff {target source : Ty} :
    TypeTable.builtin.assignable target source = true ↔ Assignable target source := by
  rw [TypeTable.assignable, Bool.or_eq_true, Bool.or_eq_true, Bool.and_eq_true, beq_iff_eq,
    beq_iff_eq, beq_iff_eq, isComparable_iff]
  constructor
  · rintro ((rfl | rfl) | ⟨rfl, h⟩)
    · exact .same target
    · exact .any source
    · exact .comparable h
  · rintro (_ | _ | h)
    · exact .inl (.inl rfl)
    · exact .inl (.inr rfl)
    · exact .inr ⟨rfl, h⟩

/-- The numeric types are the two that the rules name. -/
theorem isNumeric_iff {type : Ty} : type.isNumeric = true ↔ NumericType type := by
  constructor
  · intro h
    cases type with
    | integer => exact .integer
    | decimal => exact .decimal
    | _ => cases h
  · rintro (_ | _) <;> rfl

/-- A type that was made for a name has this name. -/
theorem name_named (name : String) : (Ty.named name).name = name := by
  unfold Ty.named
  split <;> rfl

/-- The built-in table has the types of the language, all of them, and none of a
host. -/
theorem contains_builtin_iff {type : Ty} :
    TypeTable.builtin.entries.contains type = true ↔ ∀ host, type ≠ .host host := by
  cases type with
  | host name =>
      refine ⟨fun h => ?_, fun h => absurd rfl (h name)⟩
      cases h
  | _ => exact ⟨fun _ _ => nofun, fun _ => rfl⟩

/-- The table of types finds a type by its own name. -/
theorem resolve?_iff {name : String} {type : Ty} :
    TypeTable.builtin.resolve? name = some type ↔ Names name type := by
  rw [TypeTable.resolve?]
  constructor
  · intro h
    obtain ⟨hcontains, hnamed⟩ := Option.ite_none_right_eq_some.mp h
    cases hnamed
    exact ⟨name_named name, contains_builtin_iff.mp hcontains⟩
  · rintro ⟨rfl, hbuiltin⟩
    cases type with
    | host host => exact absurd rfl (hbuiltin host)
    | _ => rfl

/-- An integer fits if it has 32 bits, in two's complement. -/
theorem fitsInteger_iff {value : Int} :
    fitsInteger value = true ↔ -2 ^ 31 ≤ value ∧ value ≤ 2 ^ 31 - 1 := by
  simp [fitsInteger]

/-- A decimal fits if it is no larger in size than the largest double. The checker
compares scaled integers; the rules speak of the number. -/
theorem fitsDecimal_iff {value : Decimal} :
    fitsDecimal value = true ↔ |value.toRat| ≤ 1.7976931348623157 * 10 ^ 308 := by
  have hlimit : decimalLimit.toRat = 1.7976931348623157 * 10 ^ 308 := by
    have hsplit : (10 : ℚ) ^ 308 = 10 ^ 16 * 10 ^ 292 := pow_add 10 16 292
    rw [hsplit, ← mul_assoc, decimalLimit, Decimal.toRat]
    congr 1
    norm_num [Decimal.signed]
  rw [fitsDecimal, Decimal.compare_ne_gt_iff, Decimal.toRat_abs, hlimit]

/-! ### Operators -/

/-- To reject is to decide what cannot be derived. -/
theorem reject_decides {α : Type} {cause : CheckCause} {offset : Option Offset}
    {symbols : Symbols} : Decides (reject cause offset : Check α) symbols fun _ => False :=
  .throw

/-- The checker requires a type to be good for another one, as the rules do. -/
theorem require_decides {expected found : Ty} {offset : Offset} {symbols : Symbols} :
    Decides (require .builtin expected found offset) symbols
      fun _ => Assignable expected found := by
  unfold require
  exact (Decides.ite (fun _ => .pure ()) fun _ => reject_decides).congr fun _ => by
    simp [assignable_iff]

/-- Both operands are required to be good for the same type. This is how `AND`, `OR`
and the comparisons are checked, all of which go by one statement. -/
theorem requireBoth_decides {expected left right type : Ty} {m n : Offset} {symbols : Symbols} :
    Decides (do
      require .builtin expected left m
      require .builtin expected right n
      pure type : Check Ty) symbols
      fun result => Assignable expected left ∧ Assignable expected right ∧ result = type :=
  (require_decides.bind fun _ _ => require_decides.bind fun _ _ => .pure type).congr fun _ => by
    simp

/-- Nothing but a boolean is good for a boolean. -/
theorem assignable_boolean_iff {source : Ty} : Assignable .boolean source ↔ source = .boolean := by
  constructor
  · rintro (_ | _)
    rfl
  · rintro rfl
    exact .same .boolean

/-- The operators that the rules list as logical are those of the lowest precedence. -/
theorem mem_logical_iff {op : BinaryOp} :
    op ∈ [BinaryOp.and, .or] ↔ op.precedence? = some .logical := by
  cases op <;> simp [BinaryOp.precedence?]

/-- The operators that they list as comparisons are those of the precedence of
comparisons. -/
theorem mem_comparison_iff {op : BinaryOp} :
    op ∈ [BinaryOp.equal, .notEqual, .less, .lessEqual, .greater, .greaterEqual]
      ↔ op.precedence? = some .comparison := by
  cases op <;> simp [BinaryOp.precedence?]

/-- The operators that they list as arithmetic are those of the two precedences
above these. -/
theorem mem_arithmetic_iff {op : BinaryOp} :
    op ∈ [BinaryOp.add, .sub, .mul, .div]
      ↔ op.precedence? = some .additive ∨ op.precedence? = some .multiplicative := by
  cases op <;> simp [BinaryOp.precedence?]

/-- What the rules say of an operator depends on how tightly it binds. -/
theorem operation_iff {op : BinaryOp} {left right type : Ty} :
    Operation op left right type ↔
      match op.precedence? with
      | some .logical => Assignable .boolean left ∧ Assignable .boolean right ∧ type = .boolean
      | some .comparison =>
        Assignable .comparable left ∧ Assignable .comparable right ∧ type = .boolean
      | some _ =>
        op = .add ∧ (left = .string ∨ right = .string) ∧ type = .string
          ∨ NumericType left ∧ left = right ∧ type = left
      | none => False := by
  constructor
  · intro h
    cases h with
    | logical hop => rw [mem_logical_iff.mp hop]; exact ⟨.same _, .same _, rfl⟩
    | comparison hop hleft hright => rw [mem_comparison_iff.mp hop]; exact ⟨hleft, hright, rfl⟩
    -- A sum with a string is additive and so is one of numbers. The two are told apart by the
    -- types.
    | stringLeft => exact .inl ⟨rfl, .inl rfl, rfl⟩
    | stringRight => exact .inl ⟨rfl, .inr rfl, rfl⟩
    | arithmetic hop htype =>
        rcases mem_arithmetic_iff.mp hop with hop | hop
        all_goals
          rw [hop]
          exact .inr ⟨htype, rfl, rfl⟩
  · intro h
    cases hop : op.precedence? with
    | none => rw [hop] at h; exact h.elim
    | some precedence =>
        rw [hop] at h
        cases precedence with
        | logical =>
            obtain ⟨hleft, hright, rfl⟩ := h
            rw [assignable_boolean_iff] at hleft hright
            rw [hleft, hright]
            exact .logical (mem_logical_iff.mpr hop)
        | comparison =>
            obtain ⟨hleft, hright, rfl⟩ := h
            exact .comparison (mem_comparison_iff.mpr hop) hleft hright
        | additive =>
            rcases h with ⟨rfl, rfl | rfl, rfl⟩ | ⟨htype, rfl, rfl⟩
            · exact .stringLeft
            · exact .stringRight
            · exact .arithmetic (mem_arithmetic_iff.mpr (.inl hop)) htype
        | multiplicative =>
            rcases h with ⟨rfl, _⟩ | ⟨htype, rfl, rfl⟩
            · cases hop
            · exact .arithmetic (mem_arithmetic_iff.mpr (.inr hop)) htype

/-- The type of an operator's result is decided by the types of its operands. The
checker goes by the precedence of the operator and the rules by lists of operators,
and for an operator of the language the two say the same. -/
theorem binaryType_decides {op : BinaryOp} {left right : Ty} {m n k : Offset} {symbols : Symbols}
    (hop : op.precedence?.isSome = true) :
    Decides (binaryType .builtin op left right m n k) symbols (Operation op left right) := by
  refine Decides.congr ?_ fun _ => operation_iff.symm
  unfold binaryType
  have harithmetic :
      Decides (if op = .add ∧ (left = .string ∨ right = .string) then pure .string
        else if left.isNumeric ∧ left = right then pure left
        else reject (.wrongOperands op left right) m : Check Ty) symbols fun type =>
          op = .add ∧ (left = .string ∨ right = .string) ∧ type = .string
            ∨ NumericType left ∧ left = right ∧ type = left := by
    refine (Decides.ite (fun _ => .pure _) fun _ =>
      Decides.ite (fun _ => .pure _) fun _ => reject_decides).congr fun type => ?_
    rw [isNumeric_iff]
    constructor
    · rintro (⟨⟨hadd, hstring⟩, htype⟩ | ⟨_, ⟨⟨hnumeric, heq⟩, htype⟩ | ⟨_, hfalse⟩⟩)
      · exact .inl ⟨hadd, hstring, htype⟩
      · exact .inr ⟨hnumeric, heq, htype⟩
      · exact hfalse.elim
    · rintro (⟨hadd, hstring, htype⟩ | ⟨hnumeric, rfl, htype⟩)
      · exact .inl ⟨⟨hadd, hstring⟩, htype⟩
      · -- A numeric type is not that of texts, so the first choice is not taken.
        refine .inr ⟨?_, .inl ⟨⟨hnumeric, rfl⟩, htype⟩⟩
        rintro ⟨_, rfl | rfl⟩ <;> cases hnumeric
  cases hprecedence : op.precedence? with
  | none => rw [hprecedence] at hop; cases hop
  | some precedence =>
      cases precedence with
      | logical => exact requireBoth_decides
      | comparison => exact requireBoth_decides
      | additive => exact harithmetic
      | multiplicative => exact harithmetic

/-! ### Expressions -/

/-- With these symbols the checker elaborates the expression as the rules do in the context of
the scope, and in no other way. -/
def InferDecides (scope : ScopeId) (symbols : Symbols) (e : Expr Offset) : Prop :=
  Decides (plain.infer .builtin scope e) symbols
    fun answer => Elaborates (symbols.chain scope) e answer.1 answer.2

/-- What can only be elaborated in one way is decided by answering with it. -/
theorem pure_elaborates_decides {Γ : Context} {e : Expr Offset} {type : Ty} {e' : Expr Note}
    {symbols : Symbols} (h : Elaborates Γ e type e')
    (hunique : ∀ other other', Elaborates Γ e other other' → other = type ∧ other' = e') :
    Decides (pure (type, e') : Check (Ty × Expr Note)) symbols
      fun answer => Elaborates Γ e answer.1 answer.2 := by
  refine (Decides.pure _).congr fun answer => ⟨?_, fun hanswer => ?_⟩
  · rintro rfl
    exact h
  · obtain ⟨htype, he⟩ := hunique _ _ hanswer
    exact Prod.ext htype he

/-- What is never elaborated is decided by rejecting it. -/
theorem reject_elaborates_decides {Γ : Context} {e : Expr Offset} {cause : CheckCause}
    {offset : Option Offset} {symbols : Symbols}
    (hnever : ∀ type e', ¬ Elaborates Γ e type e') :
    Decides (reject cause offset : Check (Ty × Expr Note)) symbols
      fun answer => Elaborates Γ e answer.1 answer.2 :=
  reject_decides.congr fun answer => ⟨False.elim, hnever answer.1 answer.2⟩

namespace InferDecides

variable {scope : ScopeId} {symbols : Symbols} {m : Offset} {receiver left right : Expr Offset}
  {name : String} {arguments : List (Expr Offset)}

/-- An integer that is written has its type if it fits. -/
theorem integer {value : Int} : InferDecides scope symbols (.integer m value) := by
  unfold InferDecides Checker.infer
  rw [plain_node]
  dsimp only
  by_cases hfits : fitsInteger value = true
  · rw [if_pos hfits]
    obtain ⟨hlow, hhigh⟩ := fitsInteger_iff.mp hfits
    refine pure_elaborates_decides (.integer hlow hhigh) fun _ _ h => ?_
    cases h
    exact ⟨rfl, rfl⟩
  · rw [if_neg hfits]
    refine reject_elaborates_decides fun _ _ h => ?_
    cases h with
    | integer hlow hhigh => exact hfits (fitsInteger_iff.mpr ⟨hlow, hhigh⟩)

/-- So has a decimal. -/
theorem decimal {value : Decimal} : InferDecides scope symbols (.decimal m value) := by
  unfold InferDecides Checker.infer
  rw [plain_node]
  dsimp only
  by_cases hfits : fitsDecimal value = true
  · rw [if_pos hfits]
    refine pure_elaborates_decides (.decimal (fitsDecimal_iff.mp hfits)) fun _ _ h => ?_
    cases h
    exact ⟨rfl, rfl⟩
  · rw [if_neg hfits]
    refine reject_elaborates_decides fun _ _ h => ?_
    cases h with
    | decimal hrange => exact hfits (fitsDecimal_iff.mpr hrange)

/-- Only around an operator may a group stand. -/
theorem group {inner : Expr Offset} (h : InferDecides scope symbols inner) :
    InferDecides scope symbols (.group m inner) := by
  unfold InferDecides Checker.infer
  rw [plain_node]
  refine (Decides.ite (fun _ => h.bind fun _ _ => .pure _)
    fun _ => reject_decides).congr fun answer => ⟨?_, ?_⟩
  · rintro (⟨hkind, ⟨type, inner'⟩, hinner, rfl⟩ | ⟨_, hfalse⟩)
    · cases inner with
      | binary n op left right => exact .group hinner
      | foreign => cases hinner
      | _ => cases hkind
    · exact hfalse.elim
  · obtain ⟨type, e'⟩ := answer
    intro h
    dsimp only at h
    cases h with
    | group hinner => exact .inl ⟨rfl, ⟨_, _⟩, hinner, rfl⟩

/-- The operands are decided one after the other, and then the operator on their
types. -/
theorem binary {op : BinaryOp} (hop : op.precedence?.isSome = true)
    (hleft : InferDecides scope symbols left) (hright : InferDecides scope symbols right) :
    InferDecides scope symbols (.binary m op left right) := by
  unfold InferDecides Checker.infer
  rw [plain_node]
  refine (hleft.bind fun _ _ => hright.bind fun _ _ =>
    (binaryType_decides hop).bind fun _ _ => .pure _).congr fun answer => ⟨?_, ?_⟩
  · rintro ⟨⟨leftType, left'⟩, hleft, ⟨rightType, right'⟩, hright, type, htype, rfl⟩
    exact .binary hleft hright htype
  · obtain ⟨type, e'⟩ := answer
    intro h
    dsimp only at h
    cases h with
    | binary hleft hright htype => exact ⟨⟨_, _⟩, hleft, ⟨_, _⟩, hright, _, htype, rfl⟩

/-- A name is decided by looking it up: the nearest frame that binds it gives its
type and symbol. -/
theorem var : InferDecides scope symbols (.var m name) := by
  unfold InferDecides Checker.infer
  rw [plain_node]
  refine ((findVariable_finds _ _).bind fun _ _ => .pure _).congr fun answer => ⟨?_, ?_⟩
  · rintro ⟨symbol, hsymbol, rfl⟩
    exact .var ((boundVariable?_eq ..).symm.trans hsymbol)
  · obtain ⟨type, e'⟩ := answer
    intro h
    dsimp only at h
    cases h with
    | var hfound => exact ⟨_, (boundVariable?_eq ..).trans hfound, rfl⟩

/-- No built-in type has a field. -/
theorem field (h : InferDecides scope symbols receiver) :
    InferDecides scope symbols (.field m receiver name) := by
  unfold InferDecides Checker.infer
  rw [plain_node]
  refine (h.bind (R := fun _ _ => False) fun answer _ => ?_).congr
    fun answer => ⟨fun ⟨_, _, hfalse⟩ => hfalse.elim, ?_⟩
  · dsimp only
    rw [field?_builtin]
    exact reject_decides
  · obtain ⟨type, e'⟩ := answer
    intro h
    cases h with
    | field _ hfound => simp [field?_builtin] at hfound

/-- A function's parameters are as many as its arguments, because it is found by their
number. -/
theorem call (hkeyed : Keyed (symbols.chain scope))
    (harguments : ∀ parameters : List Ty, parameters.length = arguments.length →
      Decides (plain.inferArguments .builtin scope parameters arguments) symbols
        (ElaboratesArguments (symbols.chain scope) parameters arguments)) :
    InferDecides scope symbols (.call m name arguments) := by
  unfold InferDecides Checker.infer
  rw [plain_node]
  refine ((findFunction_finds _ _).bind fun symbol hfind =>
    (harguments symbol.parameters ?_).bind fun _ _ => .pure _).congr fun answer => ⟨?_, ?_⟩
  · rw [boundFunction?_eq] at hfind
    exact congrArg Prod.snd (key_of_nearestFunction? hkeyed hfind)
  · rintro ⟨symbol, hfind, arguments', harguments, rfl⟩
    exact .call ((boundFunction?_eq ..).symm.trans hfind) harguments
  · obtain ⟨type, e'⟩ := answer
    intro h
    dsimp only at h
    cases h with
    | call hfound harguments =>
        exact ⟨_, (boundFunction?_eq ..).trans hfound, _, harguments, rfl⟩

/-- No built-in type has a method. -/
theorem methodCall (h : InferDecides scope symbols receiver) :
    InferDecides scope symbols (.methodCall m receiver name arguments) := by
  unfold InferDecides Checker.infer
  rw [plain_node]
  refine (h.bind (R := fun _ _ => False) fun answer _ => ?_).congr
    fun answer => ⟨fun ⟨_, _, hfalse⟩ => hfalse.elim, ?_⟩
  · dsimp only
    rw [method?_builtin]
    exact reject_decides
  · obtain ⟨type, e'⟩ := answer
    intro h
    cases h with
    | methodCall _ hfound => simp [method?_builtin] at hfound

/-- A construct that is not of the language has no type, and the checker rejects it. -/
theorem foreign {kind : NodeKind} {written : String} :
    InferDecides scope symbols (.foreign m kind written) := by
  unfold InferDecides Checker.infer
  rw [plain_node]
  refine reject_elaborates_decides fun _ _ h => ?_
  cases h

end InferDecides

mutual

/-- The checker elaborates an expression as the rules do in the context of the scope,
and in no other way. -/
theorem infer_decides {scope : ScopeId} {symbols : Symbols} (e : Expr Offset)
    (hkeyed : Keyed (symbols.chain scope)) (hknown : KnownOperators e.subs) :
    InferDecides scope symbols e := by
  cases e with
  | nil m | boolean m value | character m text | string m text =>
      unfold InferDecides Checker.infer
      rw [plain_node]
      refine pure_elaborates_decides (by constructor) fun _ _ h => ?_
      cases h
      exact ⟨rfl, rfl⟩
  | integer m value => exact .integer
  | decimal m value => exact .decimal
  | group m inner =>
      exact .group (infer_decides inner hkeyed fun e he => hknown e (by simp [Expr.subs, he]))
  | binary m op left right =>
      exact .binary (hknown (.binary m op left right) (by simp [Expr.subs]))
        (infer_decides left hkeyed fun e he => hknown e (by simp [Expr.subs, he]))
        (infer_decides right hkeyed fun e he => hknown e (by simp [Expr.subs, he]))
  | var m name => exact .var
  | field m receiver name =>
      exact .field (infer_decides receiver hkeyed fun e he => hknown e (by simp [Expr.subs, he]))
  | call m name arguments =>
      exact .call hkeyed fun parameters harity => inferArguments_decides arguments hkeyed
        (fun e he => hknown e (by simp [Expr.subs, he])) harity
  | methodCall m receiver name arguments =>
      exact .methodCall
        (infer_decides receiver hkeyed fun e he => hknown e (by simp [Expr.subs, he]))
  | foreign m kind written => exact .foreign

/-- Arguments are decided one by one, each against its parameter. There are as many
parameters as arguments, since a function is looked up by its arity. -/
theorem inferArguments_decides {scope : ScopeId} {symbols : Symbols} {parameters : List Ty}
    (arguments : List (Expr Offset)) (hkeyed : Keyed (symbols.chain scope))
    (hknown : KnownOperators (Expr.subsAll arguments))
    (harity : parameters.length = arguments.length) :
    Decides (plain.inferArguments .builtin scope parameters arguments) symbols
      (ElaboratesArguments (symbols.chain scope) parameters arguments) := by
  cases arguments with
  | nil =>
      obtain rfl : parameters = [] := List.length_eq_zero_iff.mp harity
      unfold Checker.inferArguments
      refine (Decides.pure _).congr fun answer => ⟨?_, ?_⟩
      · rintro rfl
        exact .nil
      · rintro ⟨⟩
        rfl
  | cons argument rest =>
      cases parameters with
      | nil => simp at harity
      | cons parameter parameters =>
          have hargument := infer_decides argument hkeyed
            fun e he => hknown e (by simp [Expr.subsAll, he])
          have hrest := inferArguments_decides rest hkeyed
            (fun e he => hknown e (by simp [Expr.subsAll, he])) (by simpa using harity)
          unfold Checker.inferArguments
          refine (hargument.bind fun _ _ => require_decides.bind fun _ _ =>
            hrest.bind fun _ _ => .pure _).congr fun answer => ⟨?_, ?_⟩
          · rintro ⟨⟨type, argument'⟩, hargument, _, hgood, rest', hrest, rfl⟩
            exact .cons hargument hgood hrest
          · intro h
            cases h with
            | cons hargument hgood hrest =>
                exact ⟨⟨_, _⟩, hargument, (), hgood, _, hrest, rfl⟩

end

/-- An expression is decided against an expected type: it is inferred first, and its
type is then required to be good for the expected one. -/
theorem inferAs_decides {scope : ScopeId} {symbols : Symbols} {expected : Ty}
    {value : Expr Offset} (hkeyed : Keyed (symbols.chain scope))
    (hknown : KnownOperators value.subs) :
    Decides (plain.inferAs .builtin scope expected value) symbols
      (ElaboratesAs (symbols.chain scope) expected value) := by
  unfold Checker.inferAs
  refine ((infer_decides value hkeyed hknown).bind fun _ _ =>
    require_decides.bind fun _ _ => .pure _).congr fun value' => ⟨?_, ?_⟩
  · rintro ⟨⟨type, _⟩, hvalue, _, hgood, rfl⟩
    exact ⟨type, hvalue, hgood⟩
  · rintro ⟨type, hvalue, hgood⟩
    exact ⟨⟨type, value'⟩, hvalue, (), hgood, rfl⟩

/-- The name of a type is looked up in the table, whatever types there are. -/
theorem resolveType_finds {types : TypeTable} {name : String} {offset : Offset}
    {symbols : Symbols} :
    Decides (resolveType types name offset) symbols
      fun type => types.resolve? name = some type := by
  unfold resolveType
  cases types.resolve? name with
  | some type => exact (Decides.pure type).congr fun _ => by rw [Option.some.injEq, eq_comm]
  | none => exact Decides.throw.congr fun _ => by simp

/-- With the types of the language alone, the look-up finds what the rules say that
the name names. -/
theorem resolveType_decides {name : String} {offset : Offset} {symbols : Symbols} :
    Decides (resolveType .builtin name offset) symbols (Names name) :=
  resolveType_finds.congr fun _ => resolve?_iff

end PlcLang.Proofs
