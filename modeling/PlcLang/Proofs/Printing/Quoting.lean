import PlcLang.Proofs.Lexical.Segmentation
import PlcLang.Proofs.Printing.Literals

/-!
# `PlcLang.Proofs.Printing.Quoting`: literals written, cut and read

Escapes are known in three places, and each has a loop of its own over the characters of
a literal: the printer writes them (`Text.escape`), the lexer lets them pass
(`Lexer.scanString`, `Lexer.scanCharacter`) and the parser undoes them
(`Parser.literalBody`). `quoted_texts_read_back` says that the three agree.

The doubled backslash is the one escape that they do not share. It is written and undone,
so every text is read back from what is written for it (`unescapeChars_escape`); but the
lexer lets it not pass, so a token never stands for a backslash and only texts without
one are written as tokens (`tokenClass_quote`).
-/

set_option autoImplicit false

namespace PlcLang.Proofs

/-! ### Undoing what is written -/

/-- A character is read back from what is written for it, and reading goes on behind
that. -/
theorem unescapeChars_escapeChar_append {mark : Char} (hmark : mark = '\'' ∨ mark = '"')
    (c : Char) (rest : List Char) :
    Text.unescapeChars (Text.escapeChar mark c ++ rest) = c :: Text.unescapeChars rest := by
  unfold Text.escapeChar
  split
  · rfl
  · rfl
  · rfl
  · rfl
  · rfl
  · rfl
  · next hslash =>
      split
      · next heq =>
          subst heq
          rcases hmark with rfl | rfl <;> rfl
      · -- No backslash stands in front of the character, so no escape begins here.
        rw [List.singleton_append, Text.unescapeChars]
        · exact fun _ h _ => hslash h
        · exact fun _ _ h _ => hslash h

/-- Any text is read back from what is written for it, backslashes included. -/
theorem unescapeChars_escape {mark : Char} (hmark : mark = '\'' ∨ mark = '"')
    (text : List Char) : Text.unescapeChars (Text.escape mark text) = text := by
  induction text with
  | nil => rfl
  | cons c rest ih =>
      show Text.unescapeChars (Text.escapeChar mark c ++ Text.escape mark rest) = c :: rest
      rw [unescapeChars_escapeChar_append hmark, ih]

/-- A text between its quotes is read back as well. -/
theorem literalBody_quote {mark : Char} (hmark : mark = '\'' ∨ mark = '"') (text : String) :
    Parser.literalBody (Text.quote mark text) = text := by
  rw [Parser.literalBody, Text.quote, String.toList_ofList, List.cons_append,
    List.drop_succ_cons, List.drop_zero, List.dropLast_concat, Text.unescape,
    String.toList_ofList, unescapeChars_escape hmark, String.ofList_toList]

/-! ### Cutting what is written -/

/-- The kind of the literals between these quotes. -/
def quotedKind (mark : Char) : TokenKind :=
  if mark = '\'' then .character else .string

/-- A text without backslashes is written as a token, between single quotes if it is one
character. -/
theorem tokenClass_quote {mark : Char} (hmark : mark = '\'' ∨ mark = '"') {text : String}
    (hslash : '\\' ∉ text.toList) (hone : mark = '\'' → text.length = 1) :
    TokenClass (quotedKind mark) (Text.quote mark text).toList := by
  have hquoted := quotedText_quote hmark hslash
  rw [String.ofList_toList] at hquoted
  rcases hmark with rfl | rfl
  · have hlength : text.toList.length = 1 := by
      rw [String.length_toList]
      exact hone rfl
    obtain ⟨c, hc⟩ := List.length_eq_one_iff.mp hlength
    rw [hc] at hquoted
    exact .character hquoted
  · exact .string hquoted

/-! ### Reading what is cut -/

/-- The body of a character token stands for one character, which is no backslash. -/
theorem literalBody_of_character {literal : String}
    (h : TokenClass .character literal.toList) :
    (Parser.literalBody literal).length = 1 ∧ '\\' ∉ (Parser.literalBody literal).toList := by
  generalize hchars : literal.toList = chars at h
  cases h with
  | character h =>
      have hnone := h.not_mem
      rw [← hchars] at h
      rw [literalBody_eq h, String.length_ofList, String.toList_ofList]
      exact ⟨rfl, hnone⟩

/-- The body of a string token stands for a text without backslashes. -/
theorem literalBody_of_string {literal : String} (h : TokenClass .string literal.toList) :
    '\\' ∉ (Parser.literalBody literal).toList := by
  generalize hchars : literal.toList = chars at h
  cases h with
  | string h =>
      have hnone := h.not_mem
      rw [← hchars] at h
      rw [literalBody_eq h, String.toList_ofList]
      exact hnone

/-! ### The three together -/

/-- Whatever is written between quotes is read back as it was. If it has no backslash, and
is one character where the quotes are single ones, the lexer makes one token of what is
written. And what the lexer makes character and string tokens of stands for one
character or for a text, and never for a backslash. -/
theorem quoted_texts_read_back :
    (∀ mark, mark = '\'' ∨ mark = '"' → ∀ text,
        Parser.literalBody (Text.quote mark text) = text
          ∧ ('\\' ∉ text.toList → (mark = '\'' → text.length = 1) →
            tokenize (Text.quote mark text)
              = .ok [⟨quotedKind mark, Text.quote mark text, 0⟩]))
      ∧ ∀ text tokens, tokenize text = .ok tokens → ∀ token ∈ tokens,
          (token.kind = .character → (Parser.literalBody token.literal).length = 1
            ∧ '\\' ∉ (Parser.literalBody token.literal).toList)
          ∧ (token.kind = .string → '\\' ∉ (Parser.literalBody token.literal).toList) := by
  constructor
  · intro mark hmark text
    refine ⟨literalBody_quote hmark text, fun hslash hone => ?_⟩
    exact tokenize_eq_singleton (tokenClass_quote hmark hslash hone)
  · intro text tokens htokens token htoken
    have hclass := tokenClass_of_tokenize htokens token htoken
    constructor
    · intro hkind
      rw [hkind] at hclass
      exact literalBody_of_character hclass
    · intro hkind
      rw [hkind] at hclass
      exact literalBody_of_string hclass

/-- A double quote between two double quotes is written behind a backslash, and cut and
read back as it was. -/
theorem quoted_quote_reads_back :
    '\\' ∉ "say \"hi\"\n".toList
      ∧ Text.quote '"' "say \"hi\"\n" = "\"say \\\"hi\\\"\\n\""
      ∧ Parser.literalBody "\"say \\\"hi\\\"\\n\"" = "say \"hi\"\n"
      ∧ tokenize "\"say \\\"hi\\\"\\n\"" = .ok [⟨.string, "\"say \\\"hi\\\"\\n\"", 0⟩] := by
  have hwritten : Text.quote '"' "say \"hi\"\n" = "\"say \\\"hi\\\"\\n\"" := by rfl
  have hslash : '\\' ∉ "say \"hi\"\n".toList := by decide
  obtain ⟨hread, hcut⟩ := quoted_texts_read_back.1 '"' (.inr rfl) "say \"hi\"\n"
  have htoken := hcut hslash (by decide)
  rw [hwritten] at hread htoken
  exact ⟨hslash, hwritten, hread, htoken⟩

end PlcLang.Proofs
