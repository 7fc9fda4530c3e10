import PlcLang.Proofs.Printing.Expressions
import PlcLang.Proofs.Printing.Lines

/-!
# `PlcLang.Proofs.Printing.Breaks`: line ends inside literals

The printer writes some of the characters that end a line as they are: a
literal with a line separator in it has one in its printed text too. These are
the raw breaks. They are counted here, in three places:

* in the literals of a tree (`rawBreaks` of its `texts`),
* in the characters and strings among the tokens that derive the tree, which have
  at least as many (`DerivesExpr.rawBreaks_le`),
* in the printed text of an expression, which has no line ends but those of its
  literals (`DerivesExpr.lineBreaks_le`).
-/

set_option autoImplicit false

namespace PlcLang

variable {α : Type}

/-- A character that ends a line and that the printer writes as it is: one for which
it has no escape. -/
def isRawBreak (c : Char) : Bool :=
  Text.isLineBreak c && !(c == '\n' || c == '\r' || c == '\x0c')

/-- How many raw breaks a text has. -/
def rawBreaks (text : List Char) : Nat :=
  text.countP isRawBreak

/-- How many characters of a text end a line. -/
def lineBreaks (text : List Char) : Nat :=
  text.countP Text.isLineBreak

/-- How many raw breaks the text of a token has, if it is a character or a string.
A raw break outside quotes is an operator of its own. -/
def Token.quotedBreaks (token : Token) : Nat :=
  match token.kind with
  | .character | .string => rawBreaks token.literal.toList
  | _ => 0

/-- The text of a character or string literal, and nothing for any other expression. -/
def Expr.literalText : Expr α → List Char
  | .character _ text | .string _ text => text.toList
  | _ => []

/-- The texts of the literals among the expressions, one behind the other. -/
def literalTexts (exprs : List (Expr α)) : List Char :=
  exprs.flatMap Expr.literalText

namespace Proofs

open Lexer

/-- No text has no raw breaks. -/
@[simp] theorem rawBreaks_nil : rawBreaks [] = 0 := rfl

/-- Raw breaks are counted in both parts of a text. -/
@[simp] theorem rawBreaks_append (text other : List Char) :
    rawBreaks (text ++ other) = rawBreaks text + rawBreaks other :=
  List.countP_append

/-- No text has no line ends. -/
@[simp] theorem lineBreaks_nil : lineBreaks [] = 0 := rfl

/-- Line ends are counted in both parts of a text. -/
@[simp] theorem lineBreaks_append (text other : List Char) :
    lineBreaks (text ++ other) = lineBreaks text + lineBreaks other :=
  List.countP_append

/-- A character counts if it ends a line. -/
@[simp] theorem lineBreaks_cons (c : Char) (rest : List Char) :
    lineBreaks (c :: rest) = lineBreaks rest + if Text.isLineBreak c then 1 else 0 :=
  List.countP_cons

/-- The texts of more expressions come behind those of the first ones. -/
@[simp] theorem literalTexts_append (exprs others : List (Expr α)) :
    literalTexts (exprs ++ others) = literalTexts exprs ++ literalTexts others :=
  List.flatMap_append

/-- The text of the first expression comes first. -/
@[simp] theorem literalTexts_cons (e : Expr α) (rest : List (Expr α)) :
    literalTexts (e :: rest) = e.literalText ++ literalTexts rest :=
  List.flatMap_cons

/-- No expressions have no texts. -/
@[simp] theorem literalTexts_nil : literalTexts ([] : List (Expr α)) = [] := rfl

/-- Raw breaks end lines, so there are not more of them than line ends. -/
theorem rawBreaks_le_lineBreaks (text : List Char) : rawBreaks text ≤ lineBreaks text := by
  refine List.countP_mono_left fun c _ h => ?_
  simp only [isRawBreak, Bool.and_eq_true] at h
  exact h.1

/-- No line ends are counted exactly where no character ends a line. -/
theorem lineBreaks_eq_zero {text : List Char} :
    lineBreaks text = 0 ↔ ∀ c ∈ text, Text.isLineBreak c = false := by
  simp [lineBreaks, List.countP_eq_zero]

/-! ### Characters of tokens -/

/-- What ends a line is none of the characters of names and numbers, and no quote. -/
theorem facts_of_isLineBreak {c : Char} (h : Text.isLineBreak c = true) :
    isNameChar c = false ∧ Text.isDigit c = false ∧ c ≠ '.' ∧ c ≠ '+' ∧ c ≠ '-' ∧ c ≠ '\''
      ∧ c ≠ '"' := by
  simp only [Text.isLineBreak, Bool.or_eq_true, beq_iff_eq] at h
  rcases h with ((((((((rfl | rfl) | rfl) | rfl) | rfl) | rfl) | rfl) | rfl) | rfl) | rfl <;>
    decide +kernel

/-- Names and numbers have no line ends. Characters and strings may have some, and
so may operators. -/
theorem lineBreaks_of_tokenClass {kind : TokenKind} {literal : List Char}
    (h : TokenClass kind literal)
    (hkind : kind = .identifier ∨ kind = .integer ∨ kind = .decimal) :
    lineBreaks literal = 0 := by
  rw [lineBreaks_eq_zero]
  intro c hc
  rw [Bool.eq_false_iff]
  intro hbreak
  obtain ⟨hname, hdigit, hpoint, hplus, hminus, -, -⟩ := facts_of_isLineBreak hbreak
  -- Integers and decimals are both a sign and digits with at most a point
  -- between them, which none of the line ends is.
  have hnumber {negative : Bool} {sign digits : List Char} (hsign : OptionalSign negative sign)
      (hdigits : ∀ d ∈ digits, Text.isDigit d = true ∨ d = '.') : c ∉ sign ++ digits := by
    intro hmem
    rcases List.mem_append.mp hmem with hmem | hmem
    · cases hsign with
      | absent => simp at hmem
      | plus => exact hplus (by simpa using hmem)
      | minus => exact hminus (by simpa using hmem)
    · rcases hdigits c hmem with hd | hd
      · rw [hdigit] at hd
        exact absurd hd (by decide)
      · exact hpoint hd
  cases h with
  | identifier hstart hmore =>
      rcases List.mem_cons.mp hc with rfl | hc
      · rw [isNameChar_of_isNameStart hstart] at hname
        exact absurd hname (by decide)
      · rw [hmore c hc] at hname
        exact absurd hname (by decide)
  | integer h =>
      cases h with
      | mk hsign hdigits => exact hnumber hsign (fun d hd => .inl (hdigits.all d hd)) hc
  | decimal h =>
      cases h with
      | mk hsign hwhole hfraction =>
          refine hnumber hsign (fun d hd => ?_) hc
          rw [List.mem_append, List.mem_cons] at hd
          rcases hd with hd | rfl | hd
          · exact .inl (hwhole.all d hd)
          · exact .inr rfl
          · exact .inl (hfraction.all d hd)
  | character | string | comparison | symbol => simp at hkind

/-- The line ends of a written text are its raw breaks, as all others are escaped. -/
theorem lineBreaks_escape {mark : Char} (hmark : Text.isLineBreak mark = false)
    (text : List Char) : lineBreaks (Text.escape mark text) ≤ rawBreaks text := by
  induction text with
  | nil => exact Nat.le_refl 0
  | cons c rest ih =>
      have hc : lineBreaks (Text.escapeChar mark c) ≤ rawBreaks [c] := by
        unfold Text.escapeChar
        split
        · decide
        · decide
        · decide
        · decide
        · decide
        · decide
        · next hfeed hnewline hreturn _ _ =>
            -- No escape is written for this character. A line end that has none is raw,
            -- and what is not raw does not end a line.
            have hraw : Text.isLineBreak c = true → isRawBreak c = true := by
              intro h
              simp only [isRawBreak, h, Bool.true_and, Bool.not_eq_true', Bool.or_eq_false_iff,
                beq_eq_false_iff_ne]
              exact ⟨⟨hnewline, hreturn⟩, hfeed⟩
            have hslash : Text.isLineBreak '\\' = false := by decide
            split
            · next heq => subst heq; simp [hmark, hslash]
            · cases hbreak : Text.isLineBreak c with
              | true => simp [rawBreaks, hbreak, hraw hbreak]
              | false => simp [hbreak]
      rw [Text.escape, List.flatMap_cons, lineBreaks_append, ← List.singleton_append,
        rawBreaks_append]
      exact Nat.add_le_add hc ih

/-- A written literal has no line ends but the raw breaks of its text. -/
theorem lineBreaks_quote {mark : Char} (hmark : Text.isLineBreak mark = false) (text : String) :
    lineBreaks (Text.quote mark text).toList ≤ rawBreaks text.toList := by
  have h := lineBreaks_escape hmark text.toList
  rw [Text.quote, String.toList_ofList, List.cons_append, lineBreaks_cons, lineBreaks_append,
    lineBreaks_cons, lineBreaks_nil, hmark]
  simpa using h

/-! ### Printed expressions -/

/-- The text of a name has no line ends. -/
theorem lineBreaks_of_isName {token : Token} (h : token.isName = true)
    (hclass : TokenClass token.kind token.literal.toList) :
    lineBreaks token.literal.toList = 0 :=
  lineBreaks_of_tokenClass hclass (.inl (isName_iff.mp h).1)

/-- The text of an operator of the grammar has no line ends. -/
theorem lineBreaks_symbol {op : BinaryOp} {p : Precedence} (h : op.precedence? = some p) :
    lineBreaks op.symbol.toList = 0 := by
  cases op with
  | other => simp [BinaryOp.precedence?] at h
  | _ => decide

/-- The signs and the spaces that stand between the parts of an expression have no
line ends. -/
theorem lineBreaks_between :
    lineBreaks " ".toList = 0 ∧ lineBreaks ".".toList = 0 ∧ lineBreaks "(".toList = 0
      ∧ lineBreaks ")".toList = 0 := by
  decide

mutual

/-- The text of an expression has no line ends but those of its literals. By
induction on the derivation. -/
theorem DerivesExpr.lineBreaks_le {level : Level} {tokens : List Token} {e : Expr Unit} :
    DerivesExpr level tokens e → Readable tokens →
      lineBreaks e.format.toList ≤ rawBreaks (literalTexts e.subs)
  | .operand h, hread => h.lineBreaks_le hread
  -- Between the parts stand spaces, points and brackets only. So in every case the breaks are
  -- those of the parts, which the induction counts.
  | .binary hleft hop hright, hread => by
      have hl := hleft.lineBreaks_le (hread.mono (by simp))
      have hr := hright.lineBreaks_le (hread.mono fun t ht => by simp [ht])
      have hsymbol := lineBreaks_symbol hop.precedence
      obtain ⟨hspace, -, -, -⟩ := lineBreaks_between
      simp only [Expr.format, Expr.subs, String.toList_append, lineBreaks_append,
        literalTexts_cons, literalTexts_append, rawBreaks_append, hsymbol, hspace]
      omega
  | .simple h, hread => h.lineBreaks_le hread
  | .field hreceiver _ hname, hread => by
      have hr := hreceiver.lineBreaks_le (hread.mono (by simp))
      have hn := lineBreaks_of_isName hname (hread.genuine _ (by simp))
      obtain ⟨-, hpoint, -, -⟩ := lineBreaks_between
      simp only [Expr.format, Expr.subs, String.toList_append, lineBreaks_append,
        literalTexts_cons, rawBreaks_append, hn, hpoint]
      omega
  | .methodCall hreceiver _ hname _ harguments, hread => by
      have hr := hreceiver.lineBreaks_le (hread.mono (by simp))
      have ha := harguments.lineBreaks_le (hread.mono fun t ht => by simp [ht])
      have hn := lineBreaks_of_isName hname (hread.genuine _ (by simp))
      obtain ⟨-, hpoint, hopening, hclosing⟩ := lineBreaks_between
      simp only [Expr.format, Expr.subs, String.toList_append, lineBreaks_append,
        literalTexts_cons, literalTexts_append, rawBreaks_append, hn, hpoint, hopening, hclosing]
      rw [seriesText] at ha
      omega
  | .nil _, _ => by simp only [Expr.format]; exact Nat.zero_le _
  | @DerivesExpr.boolean _ value _, _ => by cases value <;> exact Nat.zero_le _
  | @DerivesExpr.integer _ value _ _, _ => by
      have hvalue := integerText_toString value
      rw [Expr.format, lineBreaks_of_tokenClass (.integer hvalue) (.inr (.inl rfl))]
      exact Nat.zero_le _
  | .decimal _ hvalue, _ => by
      have hprinted := decimalText_plain hvalue.exponent_neg
      have h := lineBreaks_of_tokenClass (.decimal hprinted) (.inr (.inr rfl))
      rw [Expr.format, h]
      exact Nat.zero_le _
  -- The quotes are no line ends themselves, and escapes leave at most the raw breaks of the text.
  | @DerivesExpr.character _ text _ _, _ => by
      have hmark : Text.isLineBreak '\'' = false := by decide
      simpa [Expr.format, Expr.subs, Expr.literalText] using
        lineBreaks_quote hmark (String.ofList text)
  | @DerivesExpr.string _ text _ _, _ => by
      have hmark : Text.isLineBreak '"' = false := by decide
      simpa [Expr.format, Expr.subs, Expr.literalText] using
        lineBreaks_quote hmark (String.ofList text)
  | .var hname, hread => by
      rw [Expr.format, lineBreaks_of_isName hname (hread.genuine _ (by simp))]
      exact Nat.zero_le _
  | .call hname _ harguments, hread => by
      have ha := harguments.lineBreaks_le (hread.mono fun t ht => by simp [ht])
      have hn := lineBreaks_of_isName hname (hread.genuine _ (by simp))
      obtain ⟨-, -, hopening, hclosing⟩ := lineBreaks_between
      simp only [Expr.format, Expr.subs, String.toList_append, lineBreaks_append,
        literalTexts_cons, rawBreaks_append, hn, hopening, hclosing]
      rw [seriesText] at ha
      omega
  | .group _ hinner _, hread => by
      have h := hinner.lineBreaks_le (hread.mono fun t ht => by simp [ht])
      obtain ⟨-, -, hopening, hclosing⟩ := lineBreaks_between
      simp only [Expr.format, Expr.subs, String.toList_append, lineBreaks_append,
        literalTexts_cons, rawBreaks_append, hopening, hclosing]
      omega

/-- The text of arguments has no line ends but those of the literals in them. -/
theorem DerivesArguments.lineBreaks_le {tokens : List Token} {list : List (Expr Unit)} :
    DerivesArguments tokens list → Readable tokens →
      lineBreaks (seriesText list) ≤ rawBreaks (literalTexts (Expr.subsAll list))
  | .none _, _ => Nat.zero_le _
  | .some harguments _, hread => harguments.lineBreaks_le (hread.mono (by simp))

/-- The text of a series of expressions has no line ends but those of the literals
in them. -/
theorem DerivesSeries.lineBreaks_le {tokens : List Token} {list : List (Expr Unit)} :
    DerivesSeries tokens list → Readable tokens →
      lineBreaks (seriesText list) ≤ rawBreaks (literalTexts (Expr.subsAll list))
  | .one h, hread => by
      have h := h.lineBreaks_le hread
      rw [seriesText_singleton]
      simpa [Expr.subsAll] using h
  | .more h _ hrest, hread => by
      have h := h.lineBreaks_le (hread.mono (by simp))
      have hr := hrest.lineBreaks_le (hread.mono fun t ht => by simp [ht])
      have hcomma : Text.isLineBreak ',' = false ∧ Text.isLineBreak ' ' = false := by decide
      rw [seriesText_cons hrest.ne_nil]
      simp only [lineBreaks_append, lineBreaks_cons, hcomma, Expr.subsAll, literalTexts_append,
        rawBreaks_append]
      simp only [Bool.false_eq_true, if_false, Nat.add_zero]
      omega

end

/-! ### Tokens -/

/-- How many raw breaks the texts of tokens have, between quotes or not. -/
def tokenBreaks (tokens : List Token) : Nat :=
  rawBreaks (tokens.flatMap (·.literal.toList))

/-- The raw breaks of the first token are counted first. -/
@[simp] theorem tokenBreaks_cons (token : Token) (rest : List Token) :
    tokenBreaks (token :: rest) = rawBreaks token.literal.toList + tokenBreaks rest := by
  simp [tokenBreaks]

/-- How many raw breaks the texts of the tokens have that are characters or
strings. -/
def quotedBreaks : List Token → Nat
  | [] => 0
  | token :: rest => token.quotedBreaks + quotedBreaks rest

/-- The raw breaks of the first token count if it is between quotes. -/
@[simp] theorem quotedBreaks_cons (token : Token) (rest : List Token) :
    quotedBreaks (token :: rest) = token.quotedBreaks + quotedBreaks rest := rfl

/-- Quoted raw breaks are counted in both lists of tokens. -/
@[simp] theorem quotedBreaks_append (tokens others : List Token) :
    quotedBreaks (tokens ++ others) = quotedBreaks tokens + quotedBreaks others := by
  induction tokens with
  | nil => rw [List.nil_append, quotedBreaks, Nat.zero_add]
  | cons token rest ih => rw [List.cons_append, quotedBreaks, ih, quotedBreaks, Nat.add_assoc]

/-- Tokens whose line ends are all operators have no quoted raw breaks. -/
theorem quotedBreaks_eq_zero {tokens : List Token}
    (h : ∀ token ∈ tokens, ∀ c ∈ token.literal.toList, Text.isLineBreak c = true →
      token.kind = .operator) : quotedBreaks tokens = 0 := by
  induction tokens with
  | nil => rfl
  | cons token rest ih =>
      obtain ⟨htoken, hrest⟩ := List.forall_mem_cons.mp h
      have hquoted (hkind : token.kind ≠ .operator) : rawBreaks token.literal.toList = 0 := by
        refine List.countP_eq_zero.mpr fun c hc hraw => hkind (htoken c hc ?_)
        rw [isRawBreak, Bool.and_eq_true] at hraw
        exact hraw.1
      have hnone : token.quotedBreaks = 0 := by
        rw [Token.quotedBreaks]
        split
        · next hkind => exact hquoted (by simp [hkind])
        · next hkind => exact hquoted (by simp [hkind])
        · rfl
      rw [quotedBreaks_cons, hnone, ih hrest]

/-- Quoted raw breaks are raw breaks, so there are not more of them. -/
theorem quotedBreaks_le (tokens : List Token) : quotedBreaks tokens ≤ tokenBreaks tokens := by
  induction tokens with
  | nil => exact Nat.le_refl 0
  | cons token rest ih =>
      have htoken : token.quotedBreaks ≤ rawBreaks token.literal.toList := by
        rw [Token.quotedBreaks]
        split
        · exact Nat.le_refl _
        · exact Nat.le_refl _
        · exact Nat.zero_le _
      rw [quotedBreaks_cons, tokenBreaks_cons]
      exact Nat.add_le_add htoken ih

/-- A literal has the raw breaks of its text: none of them has an escape. -/
theorem QuotedText.rawBreaks_le {mark : Char} {literal text : List Char}
    (h : QuotedText mark literal text) : rawBreaks text ≤ rawBreaks literal := by
  have hbody {body text : List Char} (h : QuotedBody mark body text) :
      rawBreaks text ≤ rawBreaks body := by
    induction h with
    | nil => exact Nat.le_refl 0
    | @plain c body text _ _ _ ih =>
        simp only [rawBreaks, List.countP_cons] at ih ⊢
        omega
    | @escape letter c body text hletter _ ih =>
        -- An escape stands for a control character, and those that end lines are
        -- not raw.
        have hc : isRawBreak c = false := by
          unfold Text.controlOf? at hletter
          split at hletter <;> first | (cases hletter; rfl) | simp at hletter
        simp only [rawBreaks, List.countP_cons, hc] at ih ⊢
        simp only [Bool.false_eq_true, if_false]
        omega
  cases h with
  | mk h =>
      have hle := hbody h
      simp only [rawBreaks, List.countP_cons, List.countP_append] at hle ⊢
      omega

mutual

/-- The characters and strings among the tokens of an expression have all the raw breaks of
its literals. -/
theorem DerivesExpr.rawBreaks_le {level : Level} {tokens : List Token} {e : Expr Unit} :
    DerivesExpr level tokens e → rawBreaks (literalTexts e.subs) ≤ quotedBreaks tokens
  | .operand h => h.rawBreaks_le
  | .binary hleft _ hright => by
      have hl := hleft.rawBreaks_le
      have hr := hright.rawBreaks_le
      simp only [Expr.subs, literalTexts_cons, literalTexts_append, rawBreaks_append,
        Expr.literalText, rawBreaks_nil, quotedBreaks_append, quotedBreaks_cons]
      omega
  | .simple h => h.rawBreaks_le
  | .field hreceiver _ _ => by
      have hr := hreceiver.rawBreaks_le
      simp only [Expr.subs, literalTexts_cons, rawBreaks_append, Expr.literalText, rawBreaks_nil,
        quotedBreaks_append]
      omega
  | .methodCall hreceiver _ _ _ harguments => by
      have hr := hreceiver.rawBreaks_le
      have ha := harguments.rawBreaks_le
      simp only [Expr.subs, literalTexts_cons, literalTexts_append, rawBreaks_append,
        Expr.literalText, rawBreaks_nil, quotedBreaks_append, quotedBreaks_cons]
      omega
  | .nil _ | .boolean _ | .integer _ _ | .decimal _ _ | .var _ => by
      simp [Expr.subs, Expr.literalText]
  -- Only these tokens count. No escape stands for a raw break, so those of the text are all in
  -- the token.
  | .character hkind htext | .string hkind htext => by
      have h := htext.rawBreaks_le
      simp only [Expr.subs, literalTexts_cons, literalTexts_nil, Expr.literalText,
        rawBreaks_append, rawBreaks_nil, String.toList_ofList, quotedBreaks_cons,
        Token.quotedBreaks, hkind]
      omega
  | .call _ _ harguments => by
      have ha := harguments.rawBreaks_le
      simp only [Expr.subs, literalTexts_cons, rawBreaks_append, Expr.literalText, rawBreaks_nil,
        quotedBreaks_cons]
      omega
  | .group _ hinner _ => by
      have h := hinner.rawBreaks_le
      simp only [Expr.subs, literalTexts_cons, rawBreaks_append, Expr.literalText, rawBreaks_nil,
        quotedBreaks_cons, quotedBreaks_append]
      omega

/-- The characters and strings among the tokens of arguments have all the raw breaks
of their literals. -/
theorem DerivesArguments.rawBreaks_le {tokens : List Token} {list : List (Expr Unit)} :
    DerivesArguments tokens list →
      rawBreaks (literalTexts (Expr.subsAll list)) ≤ quotedBreaks tokens
  | .none _ => Nat.zero_le _
  | .some harguments _ => by
      have h := harguments.rawBreaks_le
      rw [quotedBreaks_append]
      omega

/-- The characters and strings among the tokens of a series of expressions have all
the raw breaks of their literals. -/
theorem DerivesSeries.rawBreaks_le {tokens : List Token} {list : List (Expr Unit)} :
    DerivesSeries tokens list → rawBreaks (literalTexts (Expr.subsAll list)) ≤ quotedBreaks tokens
  | .one h => by
      have h := h.rawBreaks_le
      simpa [Expr.subsAll] using h
  | .more h _ hrest => by
      have h := h.rawBreaks_le
      have hr := hrest.rawBreaks_le
      simp only [Expr.subsAll, literalTexts_append, rawBreaks_append, quotedBreaks_append,
        quotedBreaks_cons]
      omega

end

/-- So it is with the tokens of a declaration, for the literals of its first value. -/
theorem DerivesDeclaration.rawBreaks_le {tokens : List Token} {d : Declaration Unit}
    (h : DerivesDeclaration tokens d) : rawBreaks (literalTexts d.exprs) ≤ quotedBreaks tokens := by
  cases h with
  | mk hname htype hvalue =>
      cases hvalue with
      | absent => exact Nat.zero_le _
      | present hequals h =>
          have h := h.rawBreaks_le
          simp only [Declaration.exprs, quotedBreaks_cons, quotedBreaks_append]
          omega

mutual

/-- So it is with the tokens of a statement, for the literals of all its
expressions. -/
theorem DerivesStmt.rawBreaks_le {tokens : List Token} {s : Stmt Unit} :
    DerivesStmt tokens s → rawBreaks (literalTexts s.exprs) ≤ quotedBreaks tokens
  | .declare _ hd _ => by
      have h := hd.rawBreaks_le
      simp only [Stmt.exprs, quotedBreaks_cons, quotedBreaks_append]
      omega
  | .cond _ hcondition _ hthen helse _ => by
      have hc := hcondition.rawBreaks_le
      have ht := hthen.rawBreaks_le
      have he := helse.rawBreaks_le
      simp only [Stmt.exprs, literalTexts_append, rawBreaks_append, quotedBreaks_cons,
        quotedBreaks_append]
      omega
  | .forIn _ _ _ hvalue _ hbody _ => by
      have hv := hvalue.rawBreaks_le
      have hb := hbody.rawBreaks_le
      simp only [Stmt.exprs, literalTexts_append, rawBreaks_append, quotedBreaks_cons,
        quotedBreaks_append]
      omega
  | .whileDo _ hcondition _ hbody _ => by
      have hc := hcondition.rawBreaks_le
      have hb := hbody.rawBreaks_le
      simp only [Stmt.exprs, literalTexts_append, rawBreaks_append, quotedBreaks_cons,
        quotedBreaks_append]
      omega
  | .result _ hvalue _ => by
      have h := hvalue.rawBreaks_le
      simp only [Stmt.exprs, quotedBreaks_cons, quotedBreaks_append]
      omega
  | .expression h _ => by
      have h := h.rawBreaks_le
      simp only [Stmt.exprs, quotedBreaks_append]
      omega
  | .assign htarget _ hvalue _ => by
      have ht := htarget.rawBreaks_le
      have hv := hvalue.rawBreaks_le
      simp only [Stmt.exprs, literalTexts_append, rawBreaks_append, quotedBreaks_cons,
        quotedBreaks_append]
      omega

/-- So it is with the tokens of a block, for the literals of all its statements. -/
theorem DerivesBlock.rawBreaks_le {tokens : List Token} {body : List (Stmt Unit)} :
    DerivesBlock tokens body → rawBreaks (literalTexts (Stmt.exprsAll body)) ≤ quotedBreaks tokens
  | .nil => Nat.zero_le _
  | .cons hs hrest => by
      have h := hs.rawBreaks_le
      have hr := hrest.rawBreaks_le
      simp only [Stmt.exprsAll, literalTexts_append, rawBreaks_append, quotedBreaks_append]
      omega

/-- So it is with the tokens of the second branch of a conditional, which may be
left out. -/
theorem DerivesElse.rawBreaks_le {tokens : List Token} {body : List (Stmt Unit)} :
    DerivesElse tokens body → rawBreaks (literalTexts (Stmt.exprsAll body)) ≤ quotedBreaks tokens
  | .absent => Nat.zero_le _
  | .present _ hbody => by
      have h := hbody.rawBreaks_le
      rw [quotedBreaks_cons]
      omega

end

/-- The tokens of a text have no raw breaks but those of the text. -/
theorem Segmentation.tokenBreaks_le {offset : Nat} {text : List Char} {tokens : List Token}
    (h : Segmentation offset text tokens) : tokenBreaks tokens ≤ rawBreaks text := by
  induction h with
  | nil => exact Nat.le_refl 0
  | @space offset c text tokens _ _ ih =>
      rw [← List.singleton_append, rawBreaks_append]
      omega
  | token _ _ _ ih =>
      rw [tokenBreaks_cons, rawBreaks_append, String.toList_ofList]
      omega

end Proofs

end PlcLang
