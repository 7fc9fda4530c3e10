import PlcLang.Proofs.Layout.LineByLine
import PlcLang.Proofs.Printing.RoundTrip

/-!
# `PlcLang.Proofs.Printing.Indentation`: indenting printed statements

The printer writes a statement and then indents its text, once for each block
around it. That changes what the statement says if a literal in it has a raw break,
and only then: `indented_statement_keepsWords_iff`.

A raw break of a literal is a line end in the text, at whatever depth the literal
stands: printed as it is, or as the newline and the margin that indenting the inner
statement has left of it. So the tokens of the text end where its lines do if and only
if there are no raw breaks (`DerivesStmt.lineByLine_iff`), and that is what indenting
needs (`indent_keepsWords_iff`).
-/

set_option autoImplicit false

namespace PlcLang

variable {α β : Type}

/-- The expressions are printed so that tokens end where lines do: no member of an integer
literal is accessed, and no literal has a raw break. -/
structure Legible (exprs : List (Expr α)) : Prop where
  plain : ∀ e ∈ exprs, e.hasIntegerReceiver = false
  unbroken : Unbroken exprs

namespace Proofs

open Lexer

/-- No expressions are legible. -/
theorem legible_nil : Legible ([] : List (Expr α)) :=
  ⟨by simp, rfl⟩

/-- Expressions are legible if both parts of the list are. -/
theorem legible_append {exprs others : List (Expr α)} :
    Legible (exprs ++ others) ↔ Legible exprs ∧ Legible others := by
  constructor
  · rintro ⟨hplain, hunbroken⟩
    obtain ⟨hfirst, hsecond⟩ := List.forall_mem_append.mp hplain
    obtain ⟨hbare, hbareOther⟩ := unbroken_append.mp hunbroken
    exact ⟨⟨hfirst, hbare⟩, ⟨hsecond, hbareOther⟩⟩
  · rintro ⟨⟨hfirst, hbare⟩, ⟨hsecond, hbareOther⟩⟩
    exact ⟨List.forall_mem_append.mpr ⟨hfirst, hsecond⟩, unbroken_append.mpr ⟨hbare, hbareOther⟩⟩

/-! ### Texts of one line -/

/-- The text has no line ends but the raw breaks of the expressions, and lexes before a
boundary as tokens in whose characters and strings are all these raw breaks. -/
structure LexesLine (text : List Char) (exprs : List (Expr Unit)) : Prop where
  lexes : Lexes text Boundary (∀ e ∈ exprs, e.hasIntegerReceiver = false)
    fun tokens => rawBreaks (literalTexts exprs) ≤ quotedBreaks tokens
  lineBreaks_le : lineBreaks text ≤ rawBreaks (literalTexts exprs)

variable {text other : List Char} {exprs others : List (Expr Unit)} {tokens : List Token}

/-- Two such texts one behind the other, if the second one begins with a boundary. -/
theorem LexesLine.append (h : LexesLine text exprs) (hother : LexesLine other others)
    (hboundary : ∀ tail, Boundary tail → Boundary (other ++ tail)) :
    LexesLine (text ++ other) (exprs ++ others) where
  lexes := by
    refine (h.lexes.append hother.lexes hboundary).mono (fun _ h => h) List.forall_mem_append ?_
    rintro _ ⟨first, second, rfl, hfirst, hsecond⟩
    rw [literalTexts_append, rawBreaks_append, quotedBreaks_append]
    exact Nat.add_le_add hfirst hsecond
  lineBreaks_le := by
    rw [literalTexts_append, rawBreaks_append, lineBreaks_append]
    exact Nat.add_le_add h.lineBreaks_le hother.lineBreaks_le

/-- A space in front changes nothing. -/
theorem LexesLine.space (h : LexesLine text exprs) : LexesLine (' ' :: text) exprs where
  lexes := h.lexes.space rfl
  lineBreaks_le := by
    rw [lineBreaks_cons]
    exact h.lineBreaks_le

/-- A name, a keyword or a sign is such a text, with no expressions in it. -/
theorem lexesLine_word {kind : TokenKind} (hclass : TokenClass kind text) (hkind : kind ≠ .decimal)
    (hbreaks : lineBreaks text = 0) : LexesLine text [] where
  lexes := (lexes_token hclass (fun h => absurd h hkind) fun _ => ends_of_boundary).mono
    (fun _ h => h) (by simp) fun tokens _ => Nat.zero_le _
  lineBreaks_le := Nat.le_of_eq hbreaks

/-- A keyword is such a text. -/
theorem lexesLine_keyword (word : String) (h : word ∈ keywords) : LexesLine word.toList [] :=
  have hclass := tokenClass_of_mem_keywords h
  lexesLine_word hclass (by decide) (lineBreaks_of_tokenClass hclass (.inl rfl))

/-- A sign that ends no line is such a text. -/
theorem lexesLine_sign {c : Char} (hc : isSymbol c = true) (hbreak : Text.isLineBreak c = false) :
    LexesLine [c] [] :=
  lexesLine_word (.symbol hc) (by decide) (by simp [hbreak])

/-- The text of an expression is such a text. -/
theorem DerivesExpr.lexesLine {level : Level} {e : Expr Unit} (h : DerivesExpr level tokens e)
    (hread : Readable tokens) : LexesLine e.format.toList e.subs where
  lexes := (h.lexes hread).closed.mono (fun _ h => h) Iff.rfl fun _ h => h.rawBreaks_le
  lineBreaks_le := h.lineBreaks_le hread

/-- The text of a declaration is such a text. -/
theorem DerivesDeclaration.lexesLine {d : Declaration Unit} (h : DerivesDeclaration tokens d)
    (hread : Readable tokens) : LexesLine d.format.toList d.exprs where
  lexes := (h.lexes hread).mono (fun _ h => h) Iff.rfl fun _ h => h.rawBreaks_le
  lineBreaks_le := h.lineBreaks_le hread

/-- With nothing behind it, such a text lexes if no member of an integer literal is
accessed, and not otherwise. -/
theorem LexesLine.alone (h : LexesLine text exprs) :
    ((∀ e ∈ exprs, e.hasIntegerReceiver = false)
        ∧ ∃ tokens, rawBreaks (literalTexts exprs) ≤ quotedBreaks tokens
          ∧ Segmentation 0 text tokens)
      ∨ (¬ ∀ e ∈ exprs, e.hasIntegerReceiver = false)
        ∧ ∃ error, tokensFrom 0 0 text = .error error := by
  rcases h.lexes 0 with ⟨hplain, tokens, -, hbreaks, htokens⟩ | ⟨hplain, herror⟩
  · have hwhole := htokens [] boundary_nil
    rw [List.append_nil, tokensFrom] at hwhole
    have hlex := hwhole.trans (congrArg Except.ok (List.append_nil tokens))
    exact .inl ⟨hplain, tokens, hbreaks, tokensFrom_eq_ok_iff.mp hlex⟩
  · have hwhole := herror [] boundary_nil
    rw [List.append_nil] at hwhole
    exact .inr ⟨hplain, hwhole⟩

/-- The tokens of such a text end where its lines do exactly if the expressions are
legible. A raw break inside of quotes would be a line end in a token. -/
theorem LexesLine.lineByLine_iff (h : LexesLine text exprs) : LineByLine text ↔ Legible exprs := by
  constructor
  · -- Line by line, no character or string is left that a raw break could be in.
    intro hlines
    obtain ⟨tokens, htokens, hoperators⟩ := hlines.exists_segmentation 0
    have hquoted := quotedBreaks_eq_zero fun token htoken c hc hbreak =>
      (hoperators token htoken c hc hbreak).1
    rcases h.alone with ⟨hplain, others, hbreaks, hothers⟩ | ⟨-, error, herror⟩
    · obtain rfl : tokens = others :=
        Except.ok.inj (htokens.tokensFrom_eq.symm.trans hothers.tokensFrom_eq)
      rw [hquoted] at hbreaks
      exact ⟨hplain, Nat.le_zero.mp hbreaks⟩
    · rw [htokens.tokensFrom_eq] at herror
      cases herror
  · -- Without raw breaks the text is one line, and its tokens are inside it.
    rintro ⟨hplain, hunbroken⟩
    have hnone : lineBreaks text = 0 := by
      have hle := h.lineBreaks_le
      rw [hunbroken] at hle
      omega
    rcases h.alone with ⟨-, tokens, -, htokens⟩ | ⟨hnot, -⟩
    · refine htokens.lineByLine fun token htoken => lineBreaks_eq_zero.mpr fun c hc => ?_
      exact lineBreaks_eq_zero.mp hnone c (htokens.mem_text htoken hc)
    · exact absurd hplain hnot

/-! ### Statements -/

/-- Joined lines are cut line by line if each of them is. -/
theorem lineByLine_intercalate (parts : List String) :
    LineByLine ("\n".intercalate parts).toList ↔ ∀ part ∈ parts, LineByLine part.toList := by
  induction parts with
  | nil => exact iff_of_true .nil (by simp)
  | cons part rest ih =>
      cases rest with
      | nil => simp
      | cons next more =>
          have htext : ("\n".intercalate (part :: next :: more)).toList
              = part.toList ++ '\n' :: ("\n".intercalate (next :: more)).toList := by
            simp [String.intercalate_cons_cons, String.toList_append]
          simp only [htext, lineByLine_newline, ih, List.forall_mem_cons]

/-- A semicolon ends a line. -/
theorem LexesLine.semicolon (h : LexesLine text exprs) : LexesLine (text ++ [';']) exprs := by
  have hsemicolon := lexesLine_sign (c := ';') (by decide) (by decide)
  simpa using h.append hsemicolon fun _ _ => boundary_cons rfl

/-- A keyword and a space begin a line. -/
theorem LexesLine.keyword (word : String) (h : LexesLine text exprs) (hword : word ∈ keywords) :
    LexesLine (word.toList ++ ' ' :: text) exprs :=
  (lexesLine_keyword word hword).append h.space fun _ _ => boundary_cons rfl

/-- `DO` ends a line. -/
theorem LexesLine.opening (h : LexesLine text exprs) :
    LexesLine (text ++ " DO".toList) exprs := by
  have hopening := (lexesLine_keyword "DO" (by decide)).space
  simpa using h.append hopening fun _ _ => boundary_cons rfl

/-- The statements of a block stand between a line that opens it and the line that ends
it. -/
theorem lineByLine_block {header : String} (hheader : LexesLine header.toList exprs)
    (body : List String) :
    LineByLine ("\n".intercalate (header :: body ++ ["END"])).toList
      ↔ Legible exprs ∧ ∀ part ∈ body, LineByLine part.toList := by
  have hend := (lexesLine_keyword "END" (by decide)).lineByLine_iff
  rw [lineByLine_intercalate, List.cons_append, List.forall_mem_cons, List.forall_mem_append,
    List.forall_mem_singleton, hheader.lineByLine_iff, hend, and_iff_left legible_nil]

mutual

/-- The tokens of a printed statement end where its lines do if its expressions are
legible. -/
theorem DerivesStmt.lineByLine_iff {tokens : List Token} {s : Stmt Unit} :
    DerivesStmt tokens s → Readable tokens → (LineByLine s.format.toList ↔ Legible s.exprs)
  | @DerivesStmt.declare _ _ _ d _ hd _, hread => by
      have hline := ((hd.lexesLine (hread.mono fun t ht => by simp [ht])).semicolon).keyword
        "LET" (by decide)
      have htext : (Stmt.declare () d).format.toList
          = "LET".toList ++ ' ' :: (d.format.toList ++ [';']) := by
        simp [Stmt.format, String.toList_append]
      rw [htext, hline.lineByLine_iff, Stmt.exprs]
  | @DerivesStmt.result _ _ _ value _ hvalue _, hread => by
      have hline := ((hvalue.lexesLine (hread.mono fun t ht => by simp [ht])).semicolon).keyword
        "RETURN" (by decide)
      have htext : (Stmt.result () value).format.toList
          = "RETURN".toList ++ ' ' :: (value.format.toList ++ [';']) := by
        simp [Stmt.format, String.toList_append]
      rw [htext, hline.lineByLine_iff, Stmt.exprs]
  | @DerivesStmt.expression _ _ e h _, hread => by
      have hline := (h.lexesLine (hread.mono fun t ht => by simp [ht])).semicolon
      have htext : (Stmt.expression () e).format.toList = e.format.toList ++ [';'] := by
        simp [Stmt.format, String.toList_append]
      rw [htext, hline.lineByLine_iff, Stmt.exprs]
  | @DerivesStmt.assign _ _ _ _ target value htarget _ hvalue _, hread => by
      have hsign := lexesLine_sign (c := '=') (by decide) (by decide)
      have hbehind := hsign.append (hvalue.lexesLine (hread.mono fun t ht => by simp [ht])).space
        fun _ _ => boundary_cons rfl
      have hline := ((htarget.lexesLine (hread.mono fun t ht => by simp [ht])).append hbehind.space
        fun _ _ => boundary_cons rfl).semicolon
      have htext : (Stmt.assign () target value).format.toList
          = (target.format.toList ++ ' ' :: (['='] ++ ' ' :: value.format.toList)) ++ [';'] := by
        simp [Stmt.format, String.toList_append]
      rw [htext, hline.lineByLine_iff, Stmt.exprs, List.nil_append]
  | @DerivesStmt.cond _ _ _ _ _ _ condition thenBody elseBody _ hcondition _ hthen helse _,
    hread => by
      have hheader : LexesLine ("IF " ++ condition.format ++ " DO").toList condition.subs := by
        have hline := ((hcondition.lexesLine (hread.mono fun t ht => by simp [ht])).opening).keyword
          "IF" (by decide)
        simpa [String.toList_append] using hline
      have hfirst := hthen.lineByLine_iff (hread.mono fun t ht => by simp [ht])
      have hsecond := helse.lineByLine_iff (hread.mono fun t ht => by simp [ht])
      have hword := (lexesLine_keyword "ELSE" (by decide)).lineByLine_iff
      -- The word is printed only if there are statements in the second branch.
      have helseLines :
          (∀ part ∈ if elseBody.isEmpty then [] else "ELSE" :: Stmt.formatBody elseBody,
            LineByLine part.toList) ↔ Legible (Stmt.exprsAll elseBody) := by
        cases elseBody with
        | nil => exact iff_of_true (by simp) legible_nil
        | cons s rest =>
            rw [List.isEmpty_cons, if_neg (by simp), List.forall_mem_cons, hword, hsecond,
              and_iff_right legible_nil]
      rw [Stmt.format, List.cons_append, lineByLine_block hheader, List.forall_mem_append, hfirst,
        helseLines, Stmt.exprs, legible_append, legible_append]
  | @DerivesStmt.forIn _ name _ _ _ _ _ value body _ hname _ hvalue _ hbody _, hread => by
      have hclass := hread.genuine name (by simp)
      have hheader : LexesLine ("FOR " ++ name.literal ++ " IN " ++ value.format ++ " DO").toList
          value.subs := by
        have hin := (hvalue.lexesLine (hread.mono fun t ht => by simp [ht])).keyword
          "IN" (by decide)
        have hword := lexesLine_word (tokenClass_of_isName hname hclass) (by decide)
          (lineBreaks_of_isName hname hclass)
        have hline := ((hword.append hin.space fun _ _ => boundary_cons rfl).opening).keyword
          "FOR" (by decide)
        simpa [String.toList_append] using hline
      have hblock := hbody.lineByLine_iff (hread.mono fun t ht => by simp [ht])
      rw [Stmt.format, lineByLine_block hheader, hblock, Stmt.exprs, legible_append]
  | @DerivesStmt.whileDo _ _ _ _ _ condition body _ hcondition _ hbody _, hread => by
      have hheader : LexesLine ("WHILE " ++ condition.format ++ " DO").toList condition.subs := by
        have hline := ((hcondition.lexesLine (hread.mono fun t ht => by simp [ht])).opening).keyword
          "WHILE" (by decide)
        simpa [String.toList_append] using hline
      have hblock := hbody.lineByLine_iff (hread.mono fun t ht => by simp [ht])
      rw [Stmt.format, lineByLine_block hheader, hblock, Stmt.exprs, legible_append]

/-- The tokens of the statements of a block end where their lines do if their
expressions are legible. -/
theorem DerivesBlock.lineByLine_iff {tokens : List Token} {body : List (Stmt Unit)} :
    DerivesBlock tokens body → Readable tokens →
      ((∀ part ∈ Stmt.formatBody body, LineByLine part.toList) ↔ Legible (Stmt.exprsAll body))
  | .nil, _ => iff_of_true (by simp [Stmt.formatBody]) legible_nil
  | .cons hs hrest, hread => by
      have hfirst := hs.lineByLine_iff (hread.mono (by simp))
      have hmore := hrest.lineByLine_iff (hread.mono (by simp))
      rw [Stmt.formatBody, List.forall_mem_cons, lineByLine_indent, hfirst, hmore, Stmt.exprsAll,
        legible_append]

/-- So do those of the second branch of a conditional, which may be left out. -/
theorem DerivesElse.lineByLine_iff {tokens : List Token} {body : List (Stmt Unit)} :
    DerivesElse tokens body → Readable tokens →
      ((∀ part ∈ Stmt.formatBody body, LineByLine part.toList) ↔ Legible (Stmt.exprsAll body))
  | .absent, _ => iff_of_true (by simp [Stmt.formatBody]) legible_nil
  | .present _ hbody, hread => hbody.lineByLine_iff (hread.mono (by simp))

end

/-! ### Indented statements -/

variable {good : Prop} {D : List Token → Prop}

/-- A text that is laid out has no line ends but newlines. -/
theorem LaidOut.eq_newline (h : LaidOut text good D) {c : Char} (hc : c ∈ text)
    (hbreak : Text.isLineBreak c = true) : c = '\n' := by
  obtain ⟨lines, hlines, rfl, -⟩ := h
  obtain ⟨line, hline, hc⟩ := List.mem_flatMap.mp hc
  rcases List.mem_append.mp hc with hc | hc
  · rw [(hlines line hline).unbroken c hc] at hbreak
    cases hbreak
  · exact List.mem_singleton.mp hc

/-- A text that is laid out and lexes is good, since one that is not good does not
lex. -/
theorem LaidOut.good_of_segmentation (h : LaidOut text good D) {offset : Nat}
    (htokens : Segmentation offset text tokens) : good := by
  obtain ⟨lines, -, rfl, hlexes⟩ := h
  have hindented : indented 0 lines = lines := by simp [indented]
  rcases hlexes 0 offset with ⟨hgood, -⟩ | ⟨-, herror⟩
  · exact hgood
  · obtain ⟨error, he⟩ := herror [] trivial
    rw [List.append_nil, hindented, htokens.tokensFrom_eq] at he
    cases he

/-- The words of a printed statement have no line ends if no literal has a raw
break. -/
theorem DerivesStmt.isLineBreak_eq_false {s : Stmt Unit} {cut : List Token}
    (h : DerivesStmt tokens s) (hread : Readable tokens) (hcut : Segmentation 0 s.format.toList cut)
    (hunbroken : Unbroken s.exprs) :
    ∀ token ∈ cut, ∀ c ∈ token.literal.toList, Text.isLineBreak c = false := by
  have hlaid := h.laidOut hread hunbroken
  have hplain : s.Plain := hlaid.good_of_segmentation (segmentation_newline_iff.mpr hcut)
  obtain ⟨others, hothers, hoperators⟩ :=
    ((h.lineByLine_iff hread).mpr ⟨hplain, hunbroken⟩).exists_segmentation 0
  obtain rfl : cut = others :=
    Except.ok.inj (hcut.tokensFrom_eq.symm.trans hothers.tokensFrom_eq)
  intro token htoken c hc
  rw [Bool.eq_false_iff]
  intro hbreak
  -- Such a line end would be an operator of its own, but newlines are white space.
  have hmem : c ∈ s.format.toList ++ ['\n'] := List.mem_append_left _ (hcut.mem_text htoken hc)
  have hspace := (hoperators token htoken c hc hbreak).2
  rw [hlaid.eq_newline hmem hbreak] at hspace
  exact absurd hspace (by decide)

/-- Indenting a printed statement keeps its words if no literal in it has a raw break. If
it has one, the words are kept only where nothing is put in front of the lines, and only
if all line ends in the words are newlines by then. -/
theorem DerivesStmt.keepsWords_iff {s : Stmt Unit} {cut : List Token} (h : DerivesStmt tokens s)
    (hread : Readable tokens) (hcut : tokenize s.format = .ok cut) (levels : Nat) :
    KeepsWords s.format levels
      ↔ Unbroken s.exprs ∨ levels = 0 ∧ ∀ token ∈ cut, ∀ c ∈ token.literal.toList,
          Text.isLineBreak c = true → c = '\n' := by
  have hsegmentation := tokensFrom_eq_ok_iff.mp hcut
  have hunbroken : Unbroken s.exprs
      ↔ ∀ token ∈ cut, ∀ c ∈ token.literal.toList, Text.isLineBreak c = false := by
    refine ⟨h.isLineBreak_eq_false hread hsegmentation, fun hnone => ?_⟩
    have hlines := hsegmentation.lineByLine fun token htoken =>
      lineBreaks_eq_zero.mpr (hnone token htoken)
    exact ((h.lineByLine_iff hread).mp hlines).unbroken
  rw [indent_keepsWords_iff hcut levels, hunbroken]
  constructor
  · intro hkept
    by_cases hlevels : levels = 0
    · exact .inr ⟨hlevels, fun token htoken c hc hbreak => (hkept token htoken c hc hbreak).1⟩
    · refine .inl fun token htoken c hc => ?_
      rw [Bool.eq_false_iff]
      exact fun hbreak => hlevels (hkept token htoken c hc hbreak).2
  · rintro (hnone | ⟨hlevels, hnewlines⟩) token htoken c hc hbreak
    · rw [hnone token htoken c hc] at hbreak
      cases hbreak
    · exact ⟨hnewlines token htoken c hc hbreak, hlevels⟩

/-- Marks play no part for raw breaks. -/
theorem unbroken_map (f : α → β) (exprs : List (Expr α)) :
    Unbroken (exprs.map (Expr.map f)) ↔ Unbroken exprs := by
  have htexts : literalTexts (exprs.map (Expr.map f)) = literalTexts exprs := by
    rw [literalTexts, List.flatMap_map, literalTexts]
    congr 1
    funext e
    cases e <;> rfl
  rw [Unbroken, Unbroken, htexts]

/-- A statement of a program that was read, at whatever depth, keeps its words when its
printed text is indented, if that lexes and no literal in the statement has a raw break.
With a raw break the words are kept only where nothing is put in front of the lines, and
only if all line ends in the words are newlines in the printed text. -/
theorem indented_statement_keepsWords_iff {text : String} {tokens cut : List Token}
    {program : Program Offset} (hlex : tokenize text = .ok tokens)
    (hparse : parse tokens = .ok program) {s : Stmt Offset} (hs : s ∈ program.statements)
    (hcut : tokenize s.format = .ok cut) (levels : Nat) :
    KeepsWords s.format levels
      ↔ Unbroken s.exprs ∨ levels = 0 ∧ ∀ token ∈ cut, ∀ c ∈ token.literal.toList,
          Text.isLineBreak c = true → c = '\n' := by
  obtain ⟨hread, hderives⟩ :=
    (parse_eq_ok_iff_readable (tokenClass_of_tokenize hlex)).mp ⟨program, hparse, rfl⟩
  have hbare : s.bare ∈ program.bare.statements := by
    rw [Program.bare, Program.statements_map]
    exact List.mem_map_of_mem hs
  obtain ⟨part, hpart, hsub⟩ := hderives.derivedFrom s.bare hbare
  have hformat : s.bare.format = s.format := Stmt.format_map _ s
  rw [← hformat] at hcut ⊢
  rw [hpart.keepsWords_iff (hread.mono hsub) hcut, Stmt.bare, Stmt.exprs_map, unbroken_map]

/-- A loop keeps its words two levels deeper, with an escaped newline in a string. -/
theorem nested_loop_keepsWords :
    ∃ tokens program s, tokenize "DEF m() DO WHILE TRUE DO RETURN \"a\\nb\"; END END" = .ok tokens
      ∧ parse tokens = .ok program ∧ s ∈ program.statements
      ∧ s.format = "WHILE TRUE DO\n    RETURN \"a\\nb\";\nEND" ∧ KeepsWords s.format 2 := by
  have hlex : tokenize "DEF m() DO WHILE TRUE DO RETURN \"a\\nb\"; END END" = .ok
      [⟨.identifier, "DEF", 0⟩, ⟨.identifier, "m", 4⟩, ⟨.operator, "(", 5⟩, ⟨.operator, ")", 6⟩,
        ⟨.identifier, "DO", 8⟩, ⟨.identifier, "WHILE", 11⟩, ⟨.identifier, "TRUE", 17⟩,
        ⟨.identifier, "DO", 22⟩, ⟨.identifier, "RETURN", 25⟩, ⟨.string, "\"a\\nb\"", 32⟩,
        ⟨.operator, ";", 38⟩, ⟨.identifier, "END", 40⟩, ⟨.identifier, "END", 44⟩] := by
    rfl
  have hparse : parse
      [⟨.identifier, "DEF", 0⟩, ⟨.identifier, "m", 4⟩, ⟨.operator, "(", 5⟩, ⟨.operator, ")", 6⟩,
        ⟨.identifier, "DO", 8⟩, ⟨.identifier, "WHILE", 11⟩, ⟨.identifier, "TRUE", 17⟩,
        ⟨.identifier, "DO", 22⟩, ⟨.identifier, "RETURN", 25⟩, ⟨.string, "\"a\\nb\"", 32⟩,
        ⟨.operator, ";", 38⟩, ⟨.identifier, "END", 40⟩, ⟨.identifier, "END", 44⟩]
      = .ok ⟨[], [⟨0, "m", [], [], none,
          [.whileDo 11 (.boolean 17 true) [.result 25 (.string 32 "a\nb")]]⟩]⟩ := by
    rfl
  have hcut : tokenize "WHILE TRUE DO\n    RETURN \"a\\nb\";\nEND" = .ok
      [⟨.identifier, "WHILE", 0⟩, ⟨.identifier, "TRUE", 6⟩, ⟨.identifier, "DO", 11⟩,
        ⟨.identifier, "RETURN", 18⟩, ⟨.string, "\"a\\nb\"", 25⟩, ⟨.operator, ";", 31⟩,
        ⟨.identifier, "END", 33⟩] := by
    rfl
  have hs : (.whileDo 11 (.boolean 17 true) [.result 25 (.string 32 "a\nb")] : Stmt Offset)
      ∈ Program.statements ⟨[], [⟨0, "m", [], [], none,
          [.whileDo 11 (.boolean 17 true) [.result 25 (.string 32 "a\nb")]]⟩]⟩ :=
    List.mem_cons_self
  exact ⟨_, _, _, hlex, hparse, hs, rfl,
    (indented_statement_keepsWords_iff hlex hparse hs hcut 2).mpr (.inl rfl)⟩

/-- A line separator in a string is a line end to the printer: one level deeper, the string
has a newline and four spaces in its place. -/
theorem not_keepsWords_line_separator :
    ∃ tokens program s cut, tokenize "DEF m() DO RETURN \"a\u2028b\"; END" = .ok tokens
      ∧ parse tokens = .ok program ∧ s ∈ program.statements ∧ tokenize s.format = .ok cut
      ∧ ¬ KeepsWords s.format 1 := by
  have hlex : tokenize "DEF m() DO RETURN \"a\u2028b\"; END" = .ok
      [⟨.identifier, "DEF", 0⟩, ⟨.identifier, "m", 4⟩, ⟨.operator, "(", 5⟩, ⟨.operator, ")", 6⟩,
        ⟨.identifier, "DO", 8⟩, ⟨.identifier, "RETURN", 11⟩, ⟨.string, "\"a\u2028b\"", 18⟩,
        ⟨.operator, ";", 23⟩, ⟨.identifier, "END", 25⟩] := by
    rfl
  have hparse : parse
      [⟨.identifier, "DEF", 0⟩, ⟨.identifier, "m", 4⟩, ⟨.operator, "(", 5⟩, ⟨.operator, ")", 6⟩,
        ⟨.identifier, "DO", 8⟩, ⟨.identifier, "RETURN", 11⟩, ⟨.string, "\"a\u2028b\"", 18⟩,
        ⟨.operator, ";", 23⟩, ⟨.identifier, "END", 25⟩]
      = .ok ⟨[], [⟨0, "m", [], [], none, [.result 11 (.string 18 "a\u2028b")]⟩]⟩ := by
    rfl
  have hcut : tokenize (Stmt.result 11 (.string 18 "a\u2028b") : Stmt Offset).format = .ok
      [⟨.identifier, "RETURN", 0⟩, ⟨.string, "\"a\u2028b\"", 7⟩, ⟨.operator, ";", 12⟩] := by
    rfl
  have hplaced : tokenize
      (Text.indent (Stmt.result 11 (.string 18 "a\u2028b") : Stmt Offset).format 1) = .ok
      [⟨.identifier, "RETURN", 4⟩, ⟨.string, "\"a\n    b\"", 11⟩, ⟨.operator, ";", 20⟩] := by
    rfl
  refine ⟨_, _, _, _, hlex, hparse, List.mem_cons_self, hcut, ?_⟩
  rintro ⟨words, placed, hwords, hindented, hsame⟩
  rw [hcut] at hwords
  rw [hplaced] at hindented
  cases hwords
  cases hindented
  exact absurd hsame (by simp [SameWords, Token.word])

end Proofs

end PlcLang
