import Mathlib.Data.List.Basic
import PlcLang.Toml.Reader

/-!
# `PlcLang.Proofs.Toml.Strings`: texts between double quotes

A text may be put between double quotes as it is if each of its characters stands for itself
there: a quote would end the string, a backslash begins an escape, and control characters belong
nowhere in a line (`isVerbatim`). Such a text is read back (`value_verbatim`).

Any other text is not, whatever is in it and whatever is behind it. What carries this is length: an
escape is longer than the character that it means, so a string is shorter than what it was read
from as soon as there is one in it (`quotedTail_eq_some`, `longQuotedTail_eq_some`). A text with a
quote in it ends early, unless it begins with two: then the string is a long one, and ends with
three quotes in a row. Where the text is the last thing in its line and no three quotes stand in a
row further below, these have to be within the text (`string_of_value`).
-/

set_option autoImplicit false

namespace PlcLang

namespace Toml

/-- A character that stands for itself between double quotes. -/
def isVerbatim (c : Char) : Bool :=
  c != '"' && c != '\\' && isLineChar c

end Toml

namespace Proofs

open Toml

/-! ### Strings in one line -/

/-- A character that stands for itself is taken as it is, and reading goes on. The
definition asks first whether there is a quote or a backslash, which this character
is not. -/
theorem quotedTail_cons {c : Char} (h : isVerbatim c = true) (done rest : List Char) :
    quotedTail done (c :: rest) = quotedTail (c :: done) rest := by
  simp only [isVerbatim, Bool.and_eq_true, bne_iff_ne] at h
  obtain ⟨⟨hquote, hslash⟩, hline⟩ := h
  rw [quotedTail.eq_def]
  split
  · next heq => cases heq
  · next heq => exact absurd (List.cons.inj heq).1 hquote
  · next heq => exact absurd (List.cons.inj heq).1 hslash
  · next heq => exact absurd (List.cons.inj heq).1 hslash
  · next heq => exact absurd (List.cons.inj heq).1 hslash
  · next heq =>
      obtain ⟨rfl, rfl⟩ := List.cons.inj heq
      exact if_pos hline

/-- A text of which each character stands for itself is read as it is. -/
theorem quotedTail_verbatim {text : List Char} (h : ∀ c ∈ text, isVerbatim c = true)
    (done rest : List Char) :
    quotedTail done (text ++ '"' :: rest) = some (String.ofList (done.reverse ++ text), rest) := by
  induction text generalizing done with
  | nil => rw [List.nil_append, quotedTail, List.append_nil]
  | cons c text ih =>
      obtain ⟨hc, htext⟩ := List.forall_mem_cons.mp h
      rw [List.cons_append, quotedTail_cons hc, ih htext, List.reverse_cons, List.append_assoc,
        List.singleton_append]

/-- Among the digits of a number is no newline. -/
theorem digitsValue?_newline (base : Nat) {digits : List Char} (h : '\n' ∈ digits) :
    digitsValue? base digits = none := by
  have hfold (value : Nat) :
      digits.foldlM (fun value c => (digitIn? base c).map (value * base + ·)) value = none := by
    induction digits generalizing value with
    | nil => cases h
    | cons c digits ih =>
        rw [List.foldlM_cons]
        rcases List.mem_cons.mp h with rfl | hmem
        · have hnone : digitIn? base '\n' = none := rfl
          rw [hnone]
          rfl
        · cases digitIn? base c with
          | none => rfl
          | some digit => exact ih hmem _
  exact hfold 0

/-- Digits that code a character are digits, all of them, so there is no newline
among them. -/
theorem newline_notMem_of_codedChar? {digits : List Char} {c : Char}
    (h : codedChar? digits = some c) : '\n' ∉ digits := by
  intro hmem
  unfold codedChar? at h
  rw [digitsValue?_newline 16 hmem] at h
  cases h

/-- A newline behind a backslash is no escape of one letter. -/
theorem newline_ne_of_shortEscape? {letter c : Char} (h : shortEscape? letter = some c) :
    letter ≠ '\n' := by
  rintro rfl
  cases h

/-- A character that may stand in a line does not end it. -/
theorem newline_ne_of_isLineChar {c : Char} (h : isLineChar c = true) : c ≠ '\n' := by
  rintro rfl
  cases h

/-- The string `value` is `done` and what `text` holds up to a quote in the same line, behind which
`rest` stands. It is at most as long as what it is read from, and it is as long only if each
character stands for itself. -/
def EndsAtQuote (done text : List Char) (value : String) (rest : List Char) : Prop :=
  ∃ used, text = used ++ '"' :: rest ∧ '\n' ∉ used
    ∧ value.length ≤ done.length + used.length
    ∧ (done.length + used.length ≤ value.length →
      value = String.ofList (done.reverse ++ used) ∧ ∀ c ∈ used, isVerbatim c = true)

namespace EndsAtQuote

variable {done text rest : List Char} {value : String} {c : Char}

/-- A quote ends the string where it stands. -/
theorem here (done rest : List Char) :
    EndsAtQuote done ('"' :: rest) (String.ofList done.reverse) rest := by
  refine ⟨[], rfl, List.not_mem_nil, ?_, fun _ => ⟨?_, fun _ h => absurd h List.not_mem_nil⟩⟩
  · rw [String.length_ofList, List.length_reverse]
    exact Nat.le_refl _
  · rw [List.append_nil]

/-- An escape is longer than the character that it means. -/
theorem escape (h : EndsAtQuote (c :: done) text value rest) (front : List Char)
    (hline : '\n' ∉ front) (hlong : 2 ≤ front.length) :
    EndsAtQuote done (front ++ text) value rest := by
  obtain ⟨used, rfl, hused, hle, -⟩ := h
  rw [List.length_cons] at hle
  refine ⟨front ++ used, (List.append_assoc ..).symm, ?_, ?_, fun hge => ?_⟩
  · rw [List.mem_append]
    exact fun h => h.elim hline hused
  · rw [List.length_append]
    omega
  · rw [List.length_append] at hge
    omega

/-- One character more in front of a string that ends at a quote, as long as it
stands for itself. -/
theorem verbatim (h : EndsAtQuote (c :: done) text value rest) (hc : isVerbatim c = true) :
    EndsAtQuote done (c :: text) value rest := by
  obtain ⟨used, rfl, hused, hle, hsame⟩ := h
  have hlength : (c :: done).length + used.length = done.length + (c :: used).length := by
    simp only [List.length_cons]
    omega
  rw [hlength] at hle hsame
  refine ⟨c :: used, rfl, ?_, hle, fun hge => ?_⟩
  · simp only [isVerbatim, Bool.and_eq_true] at hc
    rw [List.mem_cons]
    exact fun h => h.elim (newline_ne_of_isLineChar hc.2).symm hused
  · obtain ⟨hvalue, hall⟩ := hsame hge
    rw [List.reverse_cons, List.append_assoc, List.singleton_append] at hvalue
    exact ⟨hvalue, List.forall_mem_cons.mpr ⟨hc, hall⟩⟩

end EndsAtQuote

/-- Whatever is read as the rest of a string has been read up to a quote in the same
line, and the string is at most as long as what has been read: as long only if each
character stood for itself. The induction follows the reader, with a case for each
kind of escape. -/
theorem quotedTail_eq_some {done text rest : List Char} {value : String}
    (h : quotedTail done text = some (value, rest)) : EndsAtQuote done text value rest := by
  -- One case for each equation of the reader; what fails is no case.
  fun_induction quotedTail done text with
  | case1 => cases h
  | case2 done rest =>
      obtain ⟨rfl, rfl⟩ := Prod.mk.inj (Option.some.inj h)
      exact .here done rest
  | case3 done a b c d text char hcode ih =>
      have hdigits := newline_notMem_of_codedChar? hcode
      refine (ih h).escape ['\\', 'u', a, b, c, d] ?_ (by simp)
      rw [List.mem_cons, List.mem_cons]
      exact fun h => h.elim (by decide) fun h => h.elim (by decide) hdigits
  | case4 => cases h
  | case5 done a b c d e f g k text char hcode ih =>
      have hdigits := newline_notMem_of_codedChar? hcode
      refine (ih h).escape ['\\', 'U', a, b, c, d, e, f, g, k] ?_ (by simp)
      rw [List.mem_cons, List.mem_cons]
      exact fun h => h.elim (by decide) fun h => h.elim (by decide) hdigits
  | case6 => cases h
  | case7 done letter text _ _ char hescape ih =>
      have hletter := newline_ne_of_shortEscape? hescape
      refine (ih h).escape ['\\', letter] ?_ (Nat.le_refl 2)
      simp [hletter.symm]
  | case8 => cases h
  | case9 done c text hquote _ _ hslash hline ih =>
      by_cases hc : c = '\\'
      · -- nothing is behind the backslash, so the string has no end
        cases text with
        | nil => cases h
        | cons letter text => exact absurd rfl (hslash letter text hc)
      · exact (ih h).verbatim (by simp [isVerbatim, hline, hc, bne_iff_ne.mpr hquote])
  | case10 => cases h

/-! ### Strings over several lines -/

/-- Up to two of the quotes in front are put aside, and what is put aside are
quotes. They belong to the string, where three more behind them end it. -/
theorem spareQuotes_spec (mark : Char) (text : List Char) :
    text = (spareQuotes mark text).1 ++ (spareQuotes mark text).2
      ∧ ∀ c ∈ (spareQuotes mark text).1, c = mark := by
  fun_cases spareQuotes mark text <;> simp

/-- The string `value` is `done` and what `text` holds up to three quotes in a row, or more, behind
which `rest` stands. It is shorter than what it is read from by three at least. -/
def EndsAtQuotes (done text : List Char) (value : String) (rest : List Char) : Prop :=
  ∃ used quotes, text = used ++ (quotes ++ rest) ∧ (∀ c ∈ quotes, c = '"') ∧ 3 ≤ quotes.length
    ∧ value.length + 3 ≤ done.length + (used.length + quotes.length)

/-- What is read adds to the string at most its own length. -/
theorem EndsAtQuotes.append {done more text rest : List Char} {value : String}
    (h : EndsAtQuotes more text value rest) (front : List Char)
    (hle : more.length ≤ done.length + front.length) :
    EndsAtQuotes done (front ++ text) value rest := by
  obtain ⟨used, quotes, rfl, hquotes, hthree, hlength⟩ := h
  refine ⟨front ++ used, quotes, (List.append_assoc ..).symm, hquotes, hthree, ?_⟩
  rw [List.length_append]
  omega

/-- The same of a string over several lines, which has been read up to three quotes
in a row. A folded line makes it shorter yet. -/
theorem longQuotedTail_eq_some {folding : Folding} {done text rest : List Char} {value : String}
    (h : longQuotedTail folding done text = some (value, rest)) :
    EndsAtQuotes done text value rest := by
  fun_induction longQuotedTail folding done text with
  | case1 => cases h
  | case2 done c text _ ih => exact (ih h).append [c] (Nat.le_add_right ..)
  | case3 done text _ ih => exact (ih h).append ['\n'] (Nat.le_add_right ..)
  | case4 => cases h
  | case5 folding done c text _ _ ih => exact (ih h).append [c] (Nat.le_add_right ..)
  | case6 folding done _ text spare behind hspare =>
      obtain ⟨rfl, rfl⟩ := Prod.mk.inj (Option.some.inj h)
      have hspec := spareQuotes_spec '"' text
      rw [hspare] at hspec
      obtain ⟨rfl, hquotes⟩ := hspec
      refine ⟨[], '"' :: '"' :: '"' :: spare, rfl, ?_, ?_, ?_⟩
      · simpa using hquotes
      · simp
      · rw [String.length_ofList, List.length_append, List.length_reverse]
        simp only [List.length_cons, List.length_nil]
        omega
  | case7 folding done _ a b c d text char _ _ ih =>
      exact (ih h).append ['\\', 'u', a, b, c, d] (by simp)
  | case8 => cases h
  | case9 folding done _ a b c d e f g k text char _ _ ih =>
      exact (ih h).append ['\\', 'U', a, b, c, d, e, f, g, k] (by simp)
  | case10 => cases h
  | case11 folding done _ text _ ih => exact (ih h).append ['\\', '\n'] (by simp)
  | case12 folding done _ letter text _ _ _ _ _ ih => exact (ih h).append ['\\', letter] (by simp)
  | case13 folding done _ letter text _ _ _ _ char _ _ ih =>
      exact (ih h).append ['\\', letter] (by simp)
  | case14 => cases h
  | case15 folding done _ c text _ _ _ _ _ _ _ ih => exact (ih h).append [c] (by simp)
  | case16 => cases h

/-- Quotes in a row are in one line. -/
theorem quotes_in_line {line below used quotes rest : List Char}
    (h : line ++ '\n' :: below = used ++ quotes ++ rest) (hquotes : ∀ c ∈ quotes, c = '"')
    (hbelow : ¬ quotes <:+: below) : used.length + quotes.length ≤ line.length := by
  have hnewline : '\n' ∉ quotes := fun hmem => absurd (hquotes '\n' hmem) (by decide)
  rw [← List.length_append]
  rcases List.append_eq_append_iff.mp h with ⟨beyond, hbeyond, hrest⟩ | ⟨beyond, rfl, -⟩
  · cases beyond with
    | nil => exact Nat.le_of_eq (congrArg List.length (hbeyond.trans (List.append_nil line)))
    | cons c beyond =>
        -- the newline is over, so it is in front of the quotes
        rw [List.cons_append, List.cons.injEq] at hrest
        obtain ⟨rfl, rfl⟩ := hrest
        rcases List.append_eq_append_iff.mp hbeyond with ⟨between, -, hmore⟩ | ⟨between, -, hmore⟩
        · rw [hmore] at hnewline
          exact absurd (List.mem_append_right between List.mem_cons_self) hnewline
        · cases between with
          | nil =>
              rw [← show '\n' :: beyond = quotes from hmore] at hnewline
              exact absurd List.mem_cons_self hnewline
          | cons c between =>
              rw [List.cons_append, List.cons.injEq] at hmore
              exact absurd ⟨between, rest, by rw [hmore.2]⟩ hbelow
  · exact (List.sublist_append_left _ beyond).length_le

/-- Three quotes or more have three in a row in them. -/
theorem three_quotes_within {quotes : List Char} (h : ∀ c ∈ quotes, c = '"')
    (hthree : 3 ≤ quotes.length) : ['"', '"', '"'] <:+: quotes := by
  match quotes, hthree with
  | a :: b :: c :: more, _ =>
      simp only [List.forall_mem_cons] at h
      obtain ⟨rfl, rfl, rfl, -⟩ := h
      exact ⟨[], more, rfl⟩

/-- A quote that ends a string in its line is not behind the last one there. -/
theorem quote_in_line {text below used rest : List Char}
    (h : text ++ '"' :: '\n' :: below = used ++ '"' :: rest) (hused : '\n' ∉ used) :
    used.length ≤ text.length := by
  rcases List.append_eq_append_iff.mp h with ⟨beyond, rfl, hbeyond⟩ | ⟨beyond, rfl, -⟩
  · cases beyond with
    | nil => simp
    | cons c beyond =>
        rw [List.cons_append, List.cons.injEq] at hbeyond
        obtain ⟨rfl, hbeyond⟩ := hbeyond
        cases beyond with
        | nil => cases hbeyond
        | cons c beyond =>
            rw [List.cons_append, List.cons.injEq] at hbeyond
            obtain ⟨rfl, -⟩ := hbeyond
            exact absurd (by simp) hused
  · rw [List.length_append]
    exact Nat.le_add_right ..

/-! ### Values -/

/-- Of a long string a newline right behind the opening quotes is left out, and
nothing else. -/
theorem skipNewline_cases (text : List Char) :
    skipNewline text = text ∨ text = '\n' :: skipNewline text := by
  fun_cases skipNewline text with
  | case1 rest => exact .inr rfl
  | case2 => exact .inl rfl

/-- With three quotes in front a value is a long string. -/
theorem value_long (text : List Char) :
    value ('"' :: '"' :: '"' :: text)
      = (longQuotedTail .off [] (skipNewline text)).map fun (s, rest) => (.string s, rest) :=
  rfl

/-- With a quote in front, and not two more behind it, a value is a string of one
line. -/
theorem value_quoted {text : List Char} (h : ∀ rest, text ≠ '"' :: '"' :: rest) :
    value ('"' :: text) = (quotedString text).map fun (s, rest) => (.string s, rest) := by
  unfold value valueOf
  split
  · next rest heq => exact absurd (List.cons.inj heq).2 (h rest)
  · next heq => rw [(List.cons.inj heq).2]
  case h_9 hnot _ _ _ _ _ _ => exact absurd rfl (hnot text)
  all_goals
    next heq => cases heq

/-- A text of which each character stands for itself is the value of it between quotes. -/
theorem value_verbatim {text rest : List Char} (h : ∀ c ∈ text, isVerbatim c = true)
    (hrest : ∀ c ∈ rest.head?, c ≠ '"') :
    value ('"' :: (text ++ '"' :: rest)) = some (.string (String.ofList text), rest) := by
  have hquoted : quotedString (text ++ '"' :: rest) = some (String.ofList text, rest) :=
    quotedTail_verbatim h [] rest
  rw [value_quoted, hquoted]
  · rfl
  · intro more heq
    cases text with
    | nil =>
        rw [(List.cons.inj heq).2] at hrest
        exact hrest '"' rfl rfl
    | cons c text =>
        have hc := h c List.mem_cons_self
        rw [(List.cons.inj heq).1] at hc
        exact absurd hc (by decide)

/-- What a text between quotes at the end of a line is read as has the length of the text only if
each character of it stands for itself. -/
theorem string_of_value {text below rest : List Char} {v : Toml}
    (h : value ('"' :: (text ++ '"' :: '\n' :: below)) = some (v, rest))
    (hbelow : ¬ ['"', '"', '"'] <:+: below) :
    ∃ s, v = .string s ∧ (text.length ≤ s.length →
      s = String.ofList text ∧ ∀ c ∈ text, isVerbatim c = true) := by
  by_cases hlong : ∃ more, text ++ '"' :: '\n' :: below = '"' :: '"' :: more
  · -- a long string ends before the line does, and is too short
    obtain ⟨more, hmore⟩ := hlong
    rw [hmore, value_long] at h
    obtain ⟨⟨s, rest⟩, htail, heq⟩ := Option.map_eq_some_iff.mp h
    obtain ⟨rfl, rfl⟩ := Prod.mk.inj heq
    refine ⟨s, rfl, fun hle => absurd hle (Nat.not_le.mpr ?_)⟩
    have hends : EndsAtQuotes [] more s rest := by
      rcases skipNewline_cases more with hsame | hskip
      · rw [← hsame]
        exact longQuotedTail_eq_some htail
      · rw [hskip]
        exact (longQuotedTail_eq_some htail).append ['\n'] (Nat.zero_le _)
    have hline : EndsAtQuotes [] ('"' :: '"' :: more) s rest :=
      hends.append ['"', '"'] (Nat.zero_le _)
    obtain ⟨used, quotes, hwhole, hquotes, hthree, hlength⟩ := hline
    have hsame : text ++ ['"'] ++ '\n' :: below = used ++ quotes ++ rest := by
      rw [List.append_assoc, List.append_assoc]
      exact hmore.trans hwhole
    have hbefore := quotes_in_line hsame hquotes fun hwithin =>
      hbelow ((three_quotes_within hquotes hthree).trans hwithin)
    rw [List.length_append, List.length_singleton] at hbefore
    rw [List.length_nil] at hlength
    omega
  -- otherwise the closing quote is in the line, and each character read has at least one in the
  -- text
  · rw [value_quoted fun more heq => hlong ⟨more, heq⟩] at h
    obtain ⟨⟨s, rest⟩, htail, heq⟩ := Option.map_eq_some_iff.mp h
    obtain ⟨rfl, rfl⟩ := Prod.mk.inj heq
    refine ⟨s, rfl, fun hle => ?_⟩
    obtain ⟨used, hwhole, hnewline, hlength, hsame⟩ := quotedTail_eq_some htail
    rw [List.length_nil, Nat.zero_add] at hlength hsame
    have hbefore := quote_in_line hwhole hnewline
    obtain ⟨rfl, -⟩ := List.append_inj hwhole (by omega)
    exact hsame hle

end Proofs

end PlcLang
