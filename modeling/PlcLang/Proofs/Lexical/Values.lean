import Mathlib.Algebra.Group.Nat.Defs
import PlcLang.Decimal.Notation
import PlcLang.Proofs.Lexical.Classes
import PlcLang.Syntax.Parser

/-!
# `PlcLang.Proofs.Lexical.Values`: what literals stand for

The parser reads the value of a literal off its text with general readers,
which also know notations that no token has. On the texts of tokens they give
the value that the literal stands for:

* `readInteger?_eq_some` for integers,
* `read?_eq` for decimals, as long as their digits are in reach, which
  `inReach_of_digitCount` gives for any that are not absurdly long,
* `literalBody_eq` for characters and strings.
-/

set_option autoImplicit false

namespace PlcLang.Proofs

/-! ### Digits -/

/-- What a digit counts: how far it stands behind zero. -/
def digitNumber (c : Char) : Nat :=
  c.toNat - '0'.toNat

/-- A digit is a decimal digit to the readers, which know those of other scripts as
well. -/
theorem decimalDigit?_of_isDigit {c : Char} (h : Text.isDigit c = true) :
    Text.decimalDigit? c = some (digitNumber c) := by
  have hrange := isDigit_iff.mp h
  have hascii : c.toNat < 128 := by omega
  rw [Text.decimalDigit?, if_pos hascii, if_pos h, digitNumber]

/-- A digit is neither white space, nor an underscore, nor a sign, nor a
point. -/
theorem facts_of_isDigit {c : Char} (h : Text.isDigit c = true) :
    Text.isBlank c = false ∧ c ≠ '_' ∧ c ≠ '-' ∧ c ≠ '+' ∧ c ≠ '.' := by
  have hrange := isDigit_iff.mp h
  refine ⟨?_, ?_, ?_, ?_, ?_⟩
  · simp only [Text.isBlank, Bool.or_eq_false_iff, Bool.and_eq_false_iff,
      decide_eq_false_iff_not, beq_eq_false_iff_ne]
    omega
  all_goals
    rintro rfl
    exact absurd h (by decide)

/-- The number that digits count, worked out from their values. -/
theorem digitsValue_eq (digits : List Char) :
    digitsValue (digits.map digitNumber) = digitsNumber digits := by
  rw [digitsValue, List.foldl_map, digitsNumber, Nat.ofDigitChars_eq_foldl]
  rfl

/-- A number is smaller than the power of ten with as many zeros as it has
digits. -/
theorem digitsNumber_lt {digits : List Char} (h : ∀ c ∈ digits, Text.isDigit c = true) :
    digitsNumber digits < 10 ^ digits.length := by
  induction digits with
  | nil => simp [digitsNumber]
  | cons c rest ih =>
      have hc := isDigit_iff.mp (h c (by simp))
      have hrest := ih fun d hd => h d (by simp [hd])
      have hdigit : c.toNat - '0'.toNat ≤ 9 := by
        have hzero : '0'.toNat = 48 := rfl
        omega
      have hgrow := Nat.mul_le_mul_left (10 ^ rest.length) hdigit
      rw [digitsNumber] at hrest ⊢
      rw [Nat.ofDigitChars_cons, Nat.ofDigitChars_eq_ofDigitChars_zero, List.length_cons,
        Nat.pow_succ, Nat.mul_zero, Nat.zero_add]
      omega

/-! ### Readers -/

/-- Trimming leaves a text alone that has no character of the class. -/
theorem trim_eq_self {inClass : Char → Bool} {text : List Char}
    (h : ∀ c ∈ text, inClass c = false) : Text.trim inClass text = text := by
  have hdrop : ∀ list : List Char, (∀ c ∈ list, inClass c = false) →
      list.dropWhile inClass = list := by
    intro list hlist
    cases list with
    | nil => rfl
    | cons c rest => rw [List.dropWhile_cons_of_neg (by simp [hlist c (by simp)])]
  -- A text is trimmed at its end by turning it around.
  have hreverse : ∀ c ∈ text.reverse, inClass c = false :=
    fun c hc => h c (List.mem_reverse.mp hc)
  rw [Text.trim, hdrop text h, hdrop text.reverse hreverse, List.reverse_reverse]

/-- The sign in front of a text that begins with a digit, if there is one. -/
theorem takeSign_append {negative : Bool} {sign digits : List Char}
    (hsign : OptionalSign negative sign)
    (hdigits : ∀ c ∈ digits.head?, Text.isDigit c = true) :
    takeSign (sign ++ digits) = (negative, digits) := by
  cases hsign with
  | plus => rfl
  | minus => rfl
  | absent =>
      rw [List.nil_append, takeSign.eq_def]
      split
      · exact absurd (hdigits '-' rfl) (by decide)
      · exact absurd (hdigits '+' rfl) (by decide)
      · rfl

/-- Digits without underscores are read one by one. -/
theorem groupedDigits?_eq_some {digits : List Char} (h : IsDigits digits) :
    groupedDigits? digits = some (digits.map digitNumber) := by
  obtain ⟨hne, hall⟩ := h
  induction digits with
  | nil => exact absurd rfl hne
  | cons c rest ih =>
      have hc := hall c (by simp)
      -- A digit may be followed by an underscore, so the reader looks at the
      -- second character before it takes the first.
      cases rest with
      | nil => simp [groupedDigits?, decimalDigit?_of_isDigit hc]
      | cons d more =>
          have hd := (facts_of_isDigit (hall d (by simp))).2.1
          have hrest := ih (by simp) fun e he => hall e (List.mem_cons_of_mem c he)
          rw [groupedDigits?]
          · simp [decimalDigit?_of_isDigit hc, hrest]
          · simp
          · rintro _ hscore
            cases hscore
            exact hd rfl

/-- The reader of digits takes a run of them, and leaves what is behind it. -/
theorem takeDigits_append {run tail : List Char} (hrun : ∀ c ∈ run, Text.isDigit c = true)
    (htail : ∀ c ∈ tail.head?, Text.decimalDigit? c = none) :
    takeDigits (run ++ tail) = (run.map digitNumber, tail) := by
  induction run with
  | nil =>
      cases tail with
      | nil => rfl
      | cons c rest => simp [takeDigits, htail c (by simp)]
  | cons c rest ih =>
      rw [List.cons_append, takeDigits, decimalDigit?_of_isDigit (hrun c (by simp)),
        ih fun d hd => hrun d (List.mem_cons_of_mem c hd)]
      rfl

/-! ### Integers -/

/-- The characters of a number are no white space, and none is an
underscore. -/
theorem facts_of_mem_number {negative : Bool} {sign digits : List Char}
    (hsign : OptionalSign negative sign) (hdigits : ∀ c ∈ digits, Text.isDigit c = true ∨ c = '.')
    {c : Char} (hc : c ∈ sign ++ digits) : Text.isBlank c = false ∧ c ≠ '_' := by
  rw [List.mem_append] at hc
  rcases hc with hc | hc
  · cases hsign with
    | absent => simp at hc
    | plus => obtain rfl := List.mem_singleton.mp hc; decide
    | minus => obtain rfl := List.mem_singleton.mp hc; decide
  · rcases hdigits c hc with hdigit | rfl
    · exact ⟨(facts_of_isDigit hdigit).1, (facts_of_isDigit hdigit).2.1⟩
    · decide

/-- An integer literal is read as its value. -/
theorem readInteger?_eq_some {text : String} {value : Int} (h : IntegerText text.toList value) :
    readInteger? text = some value := by
  generalize hliteral : text.toList = literal at h
  cases h with
  | @mk negative sign digits hsign hdigits =>
      have hblank : ∀ c ∈ sign ++ digits, (Text.isBlank c && !Text.isSeparator c) = false := by
        intro c hc
        rw [(facts_of_mem_number hsign (fun d hd => .inl (hdigits.all d hd)) hc).1,
          Bool.false_and]
      have hhead : ∀ c ∈ digits.head?, Text.isDigit c = true :=
        fun c hc => hdigits.all c (List.mem_of_mem_head? hc)
      simp only [readInteger?, hliteral, trim_eq_self hblank, takeSign_append hsign hhead,
        groupedDigits?_eq_some hdigits, digitsValue_eq, Option.bind_eq_bind, Option.bind_some]
      rfl

/-! ### Decimals -/

/-- A run of digits has as many digits as characters. -/
theorem digitCount_of_isDigits {digits : List Char} (h : IsDigits digits) :
    digitCount digits = digits.length :=
  List.countP_eq_length.mpr h.all

/-- A decimal with fewer digits than there are places is in reach. -/
theorem inReach_of_digitCount {literal : List Char} {value : Decimal}
    (h : DecimalText literal value) (hcount : digitCount literal ≤ 1000000000000000000) :
    value.inReach = true := by
  cases h with
  | @mk negative sign whole fraction hsign hwhole hfraction =>
      have hparts : digitCount whole + digitCount fraction ≤ 1000000000000000000 := by
        simp only [digitCount, List.countP_append, List.countP_cons] at hcount ⊢
        omega
      rw [digitCount_of_isDigits hwhole, digitCount_of_isDigits hfraction] at hparts
      -- Both bounds are on the number of digits: the scale is the length of the
      -- fraction, and the number has no more digits than the literal.
      have hpositive : 0 < (whole ++ fraction).length := by
        rw [List.length_append]
        have := List.length_pos_iff.mpr hwhole.ne_nil
        omega
      have hall : ∀ c ∈ whole ++ fraction, Text.isDigit c = true := fun c hc =>
        (List.mem_append.mp hc).elim (hwhole.all c) (hfraction.all c)
      have hdigits : (Decimal.digits (digitsNumber (whole ++ fraction))).length
          ≤ (whole ++ fraction).length :=
        (Nat.length_toDigits_le_iff (by decide) hpositive).mpr (digitsNumber_lt hall)
      rw [List.length_append] at hdigits
      rw [Decimal.inReach, Bool.and_eq_true]
      refine ⟨decide_eq_true ?_, decide_eq_true ?_⟩
      · show -1999999999999999997 ≤ -(fraction.length : Int)
        omega
      · show -(fraction.length : Int)
            + (Decimal.digits (digitsNumber (whole ++ fraction))).length - 1
          ≤ 999999999999999999
        omega

/-- A decimal literal is read as its value, sign and scale included, unless
its digits stand too far from the point. -/
theorem read?_eq {text : String} {value : Decimal} (h : DecimalText text.toList value) :
    Decimal.read? text = if value.inReach then some value else none := by
  generalize hliteral : text.toList = literal at h
  cases h with
  | @mk negative sign whole fraction hsign hwhole hfraction =>
      have hbody : ∀ c ∈ whole ++ '.' :: fraction, Text.isDigit c = true ∨ c = '.' := by
        intro c hc
        rw [List.mem_append, List.mem_cons] at hc
        rcases hc with hc | rfl | hc
        · exact .inl (hwhole.all c hc)
        · exact .inr rfl
        · exact .inl (hfraction.all c hc)
      have htrim : Text.trim Text.isBlank (sign ++ (whole ++ '.' :: fraction))
          = sign ++ (whole ++ '.' :: fraction) :=
        trim_eq_self fun c hc => (facts_of_mem_number hsign hbody hc).1
      -- Each of the reader's steps takes its own part of the literal: nothing is
      -- trimmed or filtered, then come the sign, the digits and the fraction.
      have hfilter : (sign ++ (whole ++ '.' :: fraction)).filter (· != '_')
          = sign ++ (whole ++ '.' :: fraction) :=
        List.filter_eq_self.mpr fun c hc => by
          simpa using (facts_of_mem_number hsign hbody hc).2
      have hhead : ∀ c ∈ (whole ++ '.' :: fraction).head?, Text.isDigit c = true := by
        obtain ⟨d, more, rfl⟩ := List.exists_cons_of_ne_nil hwhole.ne_nil
        intro c hc
        obtain rfl : d = c := by simpa using hc
        exact hwhole.all d (by simp)
      have hpoint : ∀ c ∈ ('.' :: fraction).head?, Text.decimalDigit? c = none := by
        intro c hc
        obtain rfl : '.' = c := by simpa using hc
        decide
      have hfractionDigits : takeDigits fraction = (fraction.map digitNumber, []) := by
        have hnil : ∀ c ∈ ([] : List Char).head?, Text.decimalDigit? c = none := by simp
        simpa using takeDigits_append hfraction.all hnil
      have hwholeDigits := takeDigits_append hwhole.all hpoint
      have hnonempty : (whole.map digitNumber).isEmpty = false := by
        simp [hwhole.ne_nil]
      rw [Decimal.read?, hliteral, htrim, hfilter, takeSign_append hsign hhead]
      simp only [Decimal.readUnsigned?, hwholeDigits, hfractionDigits, hnonempty,
        Bool.false_and, Decimal.readScale?, ← List.map_append, digitsValue_eq,
        List.length_map, Int.zero_sub, Option.bind_eq_bind, Option.bind_some]
      rfl

/-! ### Characters and strings -/

/-- Undoing the escapes of a body gives the text it stands for. -/
theorem unescapeChars_eq {mark : Char} {body text : List Char} (h : QuotedBody mark body text) :
    Text.unescapeChars body = text := by
  induction h with
  | nil => rfl
  | @plain c body text hmark hslash rest ih =>
      -- The two arms of `unescapeChars` in front of this one want a backslash.
      rw [Text.unescapeChars, ih]
      · exact fun _ hc _ => hslash hc
      · exact fun _ _ hc _ => hslash hc
  | @escape letter c body text hletter rest ih =>
      have hnot : letter ≠ '\\' := by
        rintro rfl
        simp [Text.controlOf?] at hletter
      rw [Text.unescapeChars, hletter, ih]
      exact fun h => hnot h

/-- The body of a quoted literal stands for its text: the quotes are taken off and
the escapes undone. -/
theorem literalBody_eq {mark : Char} {literal : String} {text : List Char}
    (h : QuotedText mark literal.toList text) :
    Parser.literalBody literal = String.ofList text := by
  generalize hliteral : literal.toList = chars at h
  cases h with
  | mk hbody =>
      rw [Parser.literalBody, Text.unescape, hliteral, List.drop_succ_cons, List.drop_zero,
        List.dropLast_concat, String.toList_ofList, unescapeChars_eq hbody]

end PlcLang.Proofs
