import PlcLang.Proofs.Printing.Breaks

/-!
# `PlcLang.Proofs.Printing.Statements`: printed statements

A statement is printed on one line or on several, and a block is its
statements' lines with four more spaces before each. `LaidOut text good D` says
that `text` is made of lines that lex as `Lexes` has it, however far all of them
are indented; so it goes through the indenting of the printer, and blocks may be
nested to any depth (`DerivesStmt.laidOut`).

Lines are found again only where no literal has a raw break in it. So the
statements here are `Unbroken`.
-/

set_option autoImplicit false

namespace PlcLang

variable {α : Type}

/-- No member of an integer literal is accessed in the statement, at whatever depth. -/
def Stmt.Plain (s : Stmt α) : Prop :=
  ∀ e ∈ s.exprs, e.hasIntegerReceiver = false

/-- No member of an integer literal is accessed in any of the statements. -/
def Stmt.PlainAll (list : List (Stmt α)) : Prop :=
  ∀ e ∈ exprsAll list, e.hasIntegerReceiver = false

/-- No member of an integer literal is accessed in the declaration. -/
def Declaration.Plain (d : Declaration α) : Prop :=
  ∀ e ∈ d.exprs, e.hasIntegerReceiver = false

/-- No literal among the expressions has a raw break. -/
def Unbroken (exprs : List (Expr α)) : Prop :=
  rawBreaks (literalTexts exprs) = 0

namespace Proofs

open Lexer

/-- Expressions are unbroken if both parts of the list are. -/
theorem unbroken_append {exprs others : List (Expr α)} :
    Unbroken (exprs ++ others) ↔ Unbroken exprs ∧ Unbroken others := by
  simp only [Unbroken, literalTexts_append, rawBreaks_append]
  omega

/-! ### Lines -/

variable {text other : List Char} {follow : List Char → Prop} {good good' : Prop}
  {D D' : List Token → Prop}

/-- Spaces in front make no tokens. -/
theorem Lexes.margin (h : Lexes text follow good D) (n : Nat) :
    Lexes (List.replicate n ' ' ++ text) follow good D := by
  induction n with
  | zero => exact h
  | succ n ih =>
      rw [List.replicate_succ, List.cons_append]
      exact ih.space rfl

/-- The text is made of lines, and lexes with any margin before them. -/
def LaidOut (text : List Char) (good : Prop) (D : List Token → Prop) : Prop :=
  ∃ lines, (∀ line ∈ lines, IsLine line) ∧ text = terminated lines
    ∧ ∀ margin, Lexes (terminated (indented margin lines)) Anything good D

/-- No lines are laid out. -/
theorem laidOut_nil : LaidOut [] True (· = []) :=
  ⟨[], by simp, rfl, fun _ => lexes_nil⟩

/-- What is laid out stays so if less is said of its tokens. -/
theorem LaidOut.mono (h : LaidOut text good D) (hgood : good' ↔ good)
    (hD : ∀ tokens, D tokens → D' tokens) : LaidOut text good' D' := by
  obtain ⟨lines, hlines, htext, hlexes⟩ := h
  exact ⟨lines, hlines, htext, fun margin => (hlexes margin).mono (fun _ h => h) hgood hD⟩

/-- Lines go before other lines. -/
theorem LaidOut.append (h : LaidOut text good D) (hother : LaidOut other good' D') :
    LaidOut (text ++ other) (good ∧ good')
      fun tokens => ∃ first second, tokens = first ++ second ∧ D first ∧ D' second := by
  obtain ⟨lines, hlines, rfl, hlexes⟩ := h
  obtain ⟨others, hothers, rfl, hlexes'⟩ := hother
  refine ⟨lines ++ others, ?_, (terminated_append lines others).symm, fun margin => ?_⟩
  · intro line hline
    exact (List.mem_append.mp hline).elim (hlines line) (hothers line)
  · rw [indented, List.map_append, terminated_append]
    exact (hlexes margin).append (hlexes' margin) fun _ _ => trivial

/-- A line is laid out if it lexes before a boundary. -/
theorem LaidOut.line (hline : IsLine text) (h : Lexes text Boundary good D) :
    LaidOut (text ++ ['\n']) good D := by
  refine ⟨[text], by simpa using hline, by simp, fun margin => ?_⟩
  have hnewline : Lexes ['\n'] Anything True (· = []) := lexes_nil.space rfl
  have htext : terminated (indented margin [text])
      = List.replicate margin ' ' ++ (text ++ ['\n']) := by
    simp [indented]
  rw [htext]
  refine ((h.append hnewline fun _ _ => boundary_cons rfl).mono (fun _ h => h) (by simp) ?_).margin
    margin
  rintro tokens ⟨first, second, rfl, hfirst, rfl⟩
  rwa [List.append_nil]

/-- Indenting keeps lines laid out: it makes the margin wider by four. -/
theorem LaidOut.indent {text : String} (h : LaidOut (text.toList ++ ['\n']) good D) :
    LaidOut ((Text.indent text 1).toList ++ ['\n']) good D := by
  obtain ⟨lines, hlines, htext, hlexes⟩ := h
  refine ⟨indented 4 lines, ?_, indent_eq hlines htext, fun margin => ?_⟩
  · intro line hline
    obtain ⟨line, hmem, rfl⟩ := List.mem_map.mp hline
    refine ⟨by simp, fun c hc => ?_⟩
    rcases List.mem_append.mp hc with hc | hc
    · rw [(List.mem_replicate.mp hc).2]
      rfl
    · exact (hlines line hmem).unbroken c hc
  -- A margin before indented lines is a wider margin, and the lines lex with
  -- any; this is what blocks in blocks come to.
  · have hmargin : indented margin (indented 4 lines) = indented (margin + 4) lines := by
      rw [indented, indented, indented, List.map_map]
      refine List.map_congr_left fun line _ => ?_
      rw [← List.replicate_append_replicate, List.append_assoc]
      rfl
    rw [hmargin]
    exact hlexes (margin + 4)

/-! ### Declarations -/

/-- The text of an optional type, with its colon. -/
def typeText : Option String → List Char
  | some name => ':' :: ' ' :: name.toList
  | none => []

/-- The text of an optional first value, with its equals sign. -/
def valueText : Option (Expr Unit) → List Char
  | some value => ' ' :: '=' :: ' ' :: value.format.toList
  | none => []

/-- A declaration is printed as its name, its type and its value. -/
theorem toList_declaration (d : Declaration Unit) :
    d.format.toList = d.name.toList ++ (typeText d.typeName ++ valueText d.value) := by
  obtain ⟨name, typeName, value⟩ := d
  cases typeName <;> cases value <;>
    simp [Declaration.format, typeText, valueText, String.toList_append]

/-- An optional type begins with a boundary, or is not there. -/
theorem boundary_typeText {tail : List Char} (h : Boundary tail) (typeName : Option String) :
    Boundary (typeText typeName ++ tail) := by
  cases typeName with
  | none => exact h
  | some => exact boundary_cons rfl

/-- An optional first value begins with a boundary, or is not there. -/
theorem boundary_valueText {tail : List Char} (h : Boundary tail)
    (value : Option (Expr Unit)) : Boundary (valueText value ++ tail) := by
  cases value with
  | none => exact h
  | some => exact boundary_cons rfl

variable {tokens : List Token}

/-- An optional type lexes as it is. -/
theorem DerivesTypeName.lexes {typeName : Option String} (h : DerivesTypeName tokens typeName)
    (hread : Readable tokens) :
    Lexes (typeText typeName) Boundary True (DerivesTypeName · typeName) := by
  cases h with
  | absent =>
      refine lexes_nil.mono (fun _ h => h) Iff.rfl ?_
      rintro _ rfl
      exact .absent
  | @present colon name hcolon hname =>
      -- The grammar has the texts of the tokens, the lexer makes new ones of the
      -- printed text, and only kinds and texts agree.
      have hclass := tokenClass_of_isName hname (hread.genuine name (by simp))
      have hname' := lexes_token hclass (by simp) fun _ => ends_of_boundary
      have hspace : isSpace ' ' = true := rfl
      refine ((hname'.space hspace).sign ':' (by decide)).mono (fun _ h => h) Iff.rfl ?_
      rintro _ ⟨colon, _, rfl, -, hcolon, token, _, rfl, hkind, hliteral, rfl⟩
      rw [String.ofList_toList] at hliteral
      rw [← hliteral]
      exact .present hcolon (isName_of_eq hname hkind hliteral)

/-- The expressions of an optional first value. -/
def valueExprs : Option (Expr Unit) → List (Expr Unit)
  | some value => value.subs
  | none => []

/-- An optional first value lexes if it is plain. -/
theorem DerivesValue.lexes {value : Option (Expr Unit)} (h : DerivesValue tokens value)
    (hread : Readable tokens) :
    Lexes (valueText value) Boundary (∀ e ∈ valueExprs value, e.hasIntegerReceiver = false)
      (DerivesValue · value) := by
  cases h with
  | absent =>
      refine lexes_nil.mono (fun _ h => h) (iff_true_intro (by simp [valueExprs])) ?_
      rintro _ rfl
      exact .absent
  | @present equals tokens e hequals h =>
      have hlexes := (h.lexes (hread.mono (by simp))).closed
      have hspace : isSpace ' ' = true := rfl
      have hclass : TokenClass .operator ['='] := .symbol (by decide)
      refine (((hlexes.space hspace).token hclass (by decide) fun _ _ =>
        ends_of_boundary (boundary_cons rfl)).space hspace).mono (fun _ h => h) Iff.rfl ?_
      rintro _ ⟨equals, rest, rfl, -, hequals, hrest⟩
      exact .present hequals hrest

/-- A declaration lexes if it is plain. -/
theorem DerivesDeclaration.lexes {d : Declaration Unit} (h : DerivesDeclaration tokens d)
    (hread : Readable tokens) :
    Lexes d.format.toList Boundary d.Plain (DerivesDeclaration · d) := by
  rw [toList_declaration]
  cases h with
  | @mk name typeTokens valueTokens typeName value hname htype hvalue =>
      have hclass := tokenClass_of_isName hname (hread.genuine name (by simp))
      have htype := htype.lexes (hread.mono fun t ht => by simp [ht])
      have hvalue := hvalue.lexes (hread.mono fun t ht => by simp [ht])
      have hbehind := htype.append hvalue fun _ h => boundary_valueText h value
      refine (hbehind.token hclass (by decide) fun tail h => ends_of_boundary ?_).mono
        (fun _ h => h) ?_ ?_
      -- Behind the name stands a colon, a space or what follows the declaration,
      -- according to which parts there are.
      · rw [List.append_assoc]
        exact boundary_typeText (boundary_valueText h value) typeName
      · cases value <;> simp [Declaration.Plain, Declaration.exprs, valueExprs]
      · rintro _ ⟨token, _, rfl, hkind, hliteral, first, second, rfl, hfirst, hsecond⟩
        rw [String.ofList_toList] at hliteral
        rw [← hliteral]
        exact .mk (isName_of_eq hname hkind hliteral) hfirst hsecond

/-! ### Line ends -/

/-- A text that is not empty and has no line ends is a line. -/
theorem isLine_of_lineBreaks (hne : text ≠ []) (h : lineBreaks text = 0) : IsLine text :=
  ⟨hne, lineBreaks_eq_zero.mp h⟩

/-- An unbroken expression is printed without line ends. -/
theorem DerivesExpr.lineBreaks_eq {level : Level} {e : Expr Unit}
    (h : DerivesExpr level tokens e) (hread : Readable tokens) (hunbroken : Unbroken e.subs) :
    lineBreaks e.format.toList = 0 := by
  have hle := h.lineBreaks_le hread
  rw [hunbroken] at hle
  omega

/-- An optional type is printed without line ends. -/
theorem DerivesTypeName.lineBreaks_eq {typeName : Option String}
    (h : DerivesTypeName tokens typeName) (hread : Readable tokens) :
    lineBreaks (typeText typeName) = 0 := by
  cases h with
  | absent => rfl
  | @present colon name hcolon hname =>
      have hn := lineBreaks_of_isName hname (hread.genuine name (by simp))
      have hsigns : Text.isLineBreak ':' = false ∧ Text.isLineBreak ' ' = false := by decide
      simp [typeText, hn, hsigns.1, hsigns.2]

/-- An unbroken first value is printed without line ends. -/
theorem DerivesValue.lineBreaks_eq {value : Expr Unit} (h : DerivesValue tokens (some value))
    (hread : Readable tokens) (hunbroken : Unbroken value.subs) :
    lineBreaks (valueText (some value)) = 0 := by
  cases h with
  | present hequals h =>
      have he := h.lineBreaks_eq (hread.mono (by simp)) hunbroken
      have hsigns : Text.isLineBreak '=' = false ∧ Text.isLineBreak ' ' = false := by decide
      simpa [valueText, hsigns.1, hsigns.2] using he

/-- A declaration is printed without line ends but those of its literals. -/
theorem DerivesDeclaration.lineBreaks_le {d : Declaration Unit} (h : DerivesDeclaration tokens d)
    (hread : Readable tokens) :
    lineBreaks d.format.toList ≤ rawBreaks (literalTexts d.exprs) := by
  rw [toList_declaration]
  cases h with
  | @mk name typeTokens valueTokens typeName value hname htype hvalue =>
      have hn := lineBreaks_of_isName hname (hread.genuine name (by simp))
      have ht := htype.lineBreaks_eq (hread.mono fun t ht => by simp [ht])
      rw [lineBreaks_append, lineBreaks_append, hn, ht, Nat.zero_add, Nat.zero_add]
      cases hvalue with
      | absent => exact Nat.zero_le _
      | @present equals tokens e hequals he =>
          have he := he.lineBreaks_le (hread.mono fun t ht => by simp [ht])
          have hsigns : Text.isLineBreak '=' = false ∧ Text.isLineBreak ' ' = false := by decide
          simpa [valueText, Declaration.exprs, hsigns.1, hsigns.2] using he

/-! ### Statements of one line -/

variable {e target : Expr Unit}

/-- A semicolon ends a statement. -/
theorem Lexes.semicolon (h : Lexes text Boundary good D) :
    Lexes (text ++ [';']) Boundary good
      fun tokens => ∃ first last, tokens = first ++ [last] ∧ D first ∧ last.literal = ";" := by
  have hlast : Lexes [';'] Boundary True (Headed .operator [';'] (· = [])) :=
    lexes_nil.sign ';' (by decide)
  refine (h.append hlast fun _ _ => boundary_cons rfl).mono (fun _ h => h) (by simp) ?_
  rintro _ ⟨first, _, rfl, hfirst, last, _, rfl, -, hlast, rfl⟩
  exact ⟨first, last, rfl, hfirst, hlast⟩

/-- The first token is this keyword, and the others satisfy `D`. -/
def Begun (word : String) (D : List Token → Prop) (tokens : List Token) : Prop :=
  ∃ first rest, tokens = first :: rest ∧ first.literal = word ∧ D rest

/-- A keyword goes before what it begins, which must begin with a boundary. -/
theorem Lexes.keyword (word : String) (h : Lexes text follow good D) (hword : word ∈ keywords)
    (hboundary : ∀ tail, follow tail → Boundary (text ++ tail)) :
    Lexes (word.toList ++ text) follow good (Begun word D) := by
  refine (h.token (tokenClass_of_mem_keywords hword) (by decide) fun tail htail =>
    ends_of_boundary (hboundary tail htail)).mono (fun _ h => h) Iff.rfl ?_
  rintro _ ⟨first, rest, rfl, -, hfirst, hrest⟩
  rw [String.ofList_toList] at hfirst
  exact ⟨first, rest, rfl, hfirst, hrest⟩

/-- An expression as a statement is one line. -/
theorem laidOut_expression (h : DerivesExpr anyLevel tokens e) (hread : Readable tokens)
    (hunbroken : Unbroken e.subs) :
    LaidOut ((Stmt.expression () e).format.toList ++ ['\n']) (Stmt.expression () e).Plain
      (DerivesStmt · (.expression () e)) := by
  have htext : (Stmt.expression () e).format.toList = e.format.toList ++ [';'] := by
    simp [Stmt.format, String.toList_append]
  have hline : IsLine (e.format.toList ++ [';']) := by
    refine isLine_of_lineBreaks (by simp) ?_
    rw [lineBreaks_append, h.lineBreaks_eq hread hunbroken]
    rfl
  rw [htext]
  refine (LaidOut.line hline (h.lexes hread).closed.semicolon).mono Iff.rfl ?_
  rintro _ ⟨first, last, rfl, hfirst, hlast⟩
  exact .expression hfirst hlast

/-- An assignment is one line. -/
theorem laidOut_assign {targetTokens valueTokens : List Token} {value : Expr Unit}
    (htarget : DerivesExpr anyLevel targetTokens target) (hread : Readable targetTokens)
    (hvalue : DerivesValue valueTokens (some value)) (hreadValue : Readable valueTokens)
    (hunbroken : Unbroken (target.subs ++ value.subs)) :
    LaidOut ((Stmt.assign () target value).format.toList ++ ['\n'])
      (Stmt.assign () target value).Plain (DerivesStmt · (.assign () target value)) := by
  obtain ⟨hbare, hbareValue⟩ := unbroken_append.mp hunbroken
  have htext : (Stmt.assign () target value).format.toList
      = (target.format.toList ++ valueText (some value)) ++ [';'] := by
    simp [Stmt.format, valueText, String.toList_append]
  have hline : IsLine ((target.format.toList ++ valueText (some value)) ++ [';']) := by
    refine isLine_of_lineBreaks (by simp) ?_
    rw [lineBreaks_append, lineBreaks_append, htarget.lineBreaks_eq hread hbare,
      hvalue.lineBreaks_eq hreadValue hbareValue]
    rfl
  rw [htext]
  have hboth := (htarget.lexes hread).closed.append (hvalue.lexes hreadValue)
    fun _ _ => boundary_cons rfl
  refine (LaidOut.line hline hboth.semicolon).mono ?_ ?_
  · simp only [Stmt.Plain, Stmt.exprs, List.forall_mem_append, Expr.Plain, valueExprs]
  · rintro _ ⟨_, last, rfl, ⟨first, second, rfl, hfirst, hsecond⟩, hlast⟩
    cases hsecond with
    | present hequals hsecond =>
        rw [List.append_assoc, List.cons_append]
        exact .assign hfirst hequals hsecond hlast

/-- A line that a keyword begins and a semicolon ends is laid out. -/
theorem laidOut_clause {word : String} (hword : word ∈ keywords)
    (h : Lexes text Boundary good D) (hbreaks : lineBreaks text = 0) :
    LaidOut (word.toList ++ ' ' :: (text ++ [';']) ++ ['\n']) good
      fun tokens => ∃ first middle last, tokens = first :: (middle ++ [last])
        ∧ first.literal = word ∧ D middle ∧ last.literal = ";" := by
  have hwordBreaks : lineBreaks word.toList = 0 :=
    lineBreaks_of_tokenClass (tokenClass_of_mem_keywords hword) (.inl rfl)
  have hline : IsLine (word.toList ++ ' ' :: (text ++ [';'])) := by
    refine isLine_of_lineBreaks (by simp) ?_
    rw [lineBreaks_append, lineBreaks_cons, lineBreaks_append, hwordBreaks, hbreaks]
    rfl
  have hspace : isSpace ' ' = true := rfl
  refine (LaidOut.line hline ((h.semicolon.space hspace).keyword word hword
    fun _ _ => boundary_cons rfl)).mono Iff.rfl ?_
  rintro _ ⟨first, _, rfl, hfirst, middle, last, rfl, hmiddle, hlast⟩
  exact ⟨first, middle, last, rfl, hfirst, hmiddle, hlast⟩

/-- A statement with a result is one line. -/
theorem laidOut_result (h : DerivesExpr anyLevel tokens e) (hread : Readable tokens)
    (hunbroken : Unbroken e.subs) :
    LaidOut ((Stmt.result () e).format.toList ++ ['\n']) (Stmt.result () e).Plain
      (DerivesStmt · (.result () e)) := by
  have htext : (Stmt.result () e).format.toList
      = "RETURN".toList ++ ' ' :: (e.format.toList ++ [';']) := by
    simp [Stmt.format, String.toList_append]
  rw [htext]
  refine (laidOut_clause (by decide) (h.lexes hread).closed
    (h.lineBreaks_eq hread hunbroken)).mono Iff.rfl ?_
  rintro _ ⟨first, middle, last, rfl, hfirst, hmiddle, hlast⟩
  exact .result hfirst hmiddle hlast

/-- A declaration as a statement is one line. -/
theorem laidOut_declare {d : Declaration Unit} (h : DerivesDeclaration tokens d)
    (hread : Readable tokens) (hunbroken : Unbroken d.exprs) :
    LaidOut ((Stmt.declare () d).format.toList ++ ['\n']) (Stmt.declare () d).Plain
      (DerivesStmt · (.declare () d)) := by
  have htext : (Stmt.declare () d).format.toList
      = "LET".toList ++ ' ' :: (d.format.toList ++ [';']) := by
    simp [Stmt.format, String.toList_append]
  -- The line is one line only if no literal in it is broken across lines.
  have hbreaks := h.lineBreaks_le hread
  rw [hunbroken] at hbreaks
  rw [htext]
  refine (laidOut_clause (by decide) (h.lexes hread) (by omega)).mono Iff.rfl ?_
  rintro _ ⟨first, middle, last, rfl, hfirst, hmiddle, hlast⟩
  exact .declare hfirst hmiddle hlast

/-! ### Statements of several lines -/

/-- A line with a keyword and nothing else is laid out. -/
theorem laidOut_word {word : String} (hword : word ∈ keywords) :
    LaidOut (word.toList ++ ['\n']) True
      fun tokens => ∃ token, tokens = [token] ∧ token.literal = word := by
  have hclass := tokenClass_of_mem_keywords hword
  have hline : IsLine word.toList :=
    isLine_of_lineBreaks hclass.ne_nil (lineBreaks_of_tokenClass hclass (.inl rfl))
  refine (LaidOut.line hline (lexes_token hclass (by simp) fun _ => ends_of_boundary)).mono
    Iff.rfl ?_
  rintro _ ⟨token, _, rfl, -, hliteral, rfl⟩
  rw [String.ofList_toList] at hliteral
  exact ⟨token, rfl, hliteral⟩

/-- `DO` goes behind what it opens. -/
theorem Lexes.opening (h : Lexes text Boundary good D) :
    Lexes (text ++ " DO".toList) Boundary good
      fun tokens => ∃ first last, tokens = first ++ [last] ∧ D first ∧ last.literal = "DO" := by
  have hword : Lexes "DO".toList Boundary True (Headed .identifier "DO".toList (· = [])) :=
    lexes_token (tokenClass_of_mem_keywords (by decide)) (by simp) fun _ => ends_of_boundary
  have hspace : isSpace ' ' = true := rfl
  refine (h.append (hword.space hspace) fun _ _ => boundary_cons rfl).mono (fun _ h => h)
    (by simp) ?_
  rintro _ ⟨first, _, rfl, hfirst, last, _, rfl, -, hlast, rfl⟩
  rw [String.ofList_toList] at hlast
  exact ⟨first, last, rfl, hfirst, hlast⟩

/-- A line that a keyword begins and `DO` ends is laid out. -/
theorem laidOut_header {word : String} (hword : word ∈ keywords)
    (h : Lexes text Boundary good D) (hbreaks : lineBreaks text = 0) :
    LaidOut (word.toList ++ ' ' :: (text ++ " DO".toList) ++ ['\n']) good
      fun tokens => ∃ first middle last, tokens = first :: (middle ++ [last])
        ∧ first.literal = word ∧ D middle ∧ last.literal = "DO" := by
  have hwordBreaks : lineBreaks word.toList = 0 :=
    lineBreaks_of_tokenClass (tokenClass_of_mem_keywords hword) (.inl rfl)
  have hline : IsLine (word.toList ++ ' ' :: (text ++ " DO".toList)) := by
    refine isLine_of_lineBreaks (by simp) ?_
    rw [lineBreaks_append, lineBreaks_cons, lineBreaks_append, hwordBreaks, hbreaks]
    rfl
  have hspace : isSpace ' ' = true := rfl
  refine (LaidOut.line hline ((h.opening.space hspace).keyword word hword
    fun _ _ => boundary_cons rfl)).mono Iff.rfl ?_
  rintro _ ⟨first, _, rfl, hfirst, middle, last, rfl, hmiddle, hlast⟩
  exact ⟨first, middle, last, rfl, hfirst, hmiddle, hlast⟩

/-- The lines of a block, indented and each with its newline. -/
def bodyText (body : List (Stmt Unit)) : List Char :=
  terminated ((Stmt.formatBody body).map String.toList)

/-- The lines of the first statement come first. -/
theorem bodyText_cons (s : Stmt Unit) (rest : List (Stmt Unit)) :
    bodyText (s :: rest) = ((Text.indent s.format 1).toList ++ ['\n']) ++ bodyText rest := by
  simp [bodyText, Stmt.formatBody]

/-- A block stands between a line that opens it and the line that ends it. -/
theorem toList_block (header : String) (body : List String) :
    ("\n".intercalate (header :: body ++ ["END"])).toList ++ ['\n']
      = (header.toList ++ ['\n'])
        ++ (terminated (body.map String.toList) ++ ("END".toList ++ ['\n'])) := by
  rw [intercalate_append_newline (by simp)]
  simp

/-- A loop on a condition, if its body is laid out. -/
theorem LaidOut.whileDo {body : List (Stmt Unit)}
    (he : DerivesExpr anyLevel tokens e) (hread : Readable tokens) (hunbroken : Unbroken e.subs)
    (hbody : LaidOut (bodyText body) (Stmt.PlainAll body) (DerivesBlock · body)) :
    LaidOut ((Stmt.whileDo () e body).format.toList ++ ['\n']) (Stmt.whileDo () e body).Plain
      (DerivesStmt · (.whileDo () e body)) := by
  have hheader : ("WHILE " ++ e.format ++ " DO").toList
      = "WHILE".toList ++ ' ' :: (e.format.toList ++ " DO".toList) := by
    simp [String.toList_append]
  have hword : "WHILE" ∈ keywords := by decide
  have hopening := laidOut_header hword (he.lexes hread).closed (he.lineBreaks_eq hread hunbroken)
  rw [Stmt.format, toList_block, hheader]
  refine (hopening.append (hbody.append (laidOut_word (by decide)))).mono ?_ ?_
  · simp only [Stmt.Plain, Stmt.PlainAll, Stmt.exprs, List.forall_mem_append, Expr.Plain, and_true]
  · rintro _ ⟨_, _, rfl, ⟨first, middle, opening, rfl, hfirst, hmiddle, hlast⟩, inner, _, rfl,
      hinner, last, rfl, hend⟩
    rw [List.cons_append, List.append_assoc, List.singleton_append]
    exact .whileDo hfirst hmiddle hlast hinner hend

/-- A loop over a sequence, if its body is laid out. -/
theorem LaidOut.forIn {name : Token} {body : List (Stmt Unit)}
    (hname : name.isName = true) (hclass : TokenClass name.kind name.literal.toList)
    (he : DerivesExpr anyLevel tokens e) (hread : Readable tokens) (hunbroken : Unbroken e.subs)
    (hbody : LaidOut (bodyText body) (Stmt.PlainAll body) (DerivesBlock · body)) :
    LaidOut ((Stmt.forIn () name.literal e body).format.toList ++ ['\n'])
      (Stmt.forIn () name.literal e body).Plain
      (DerivesStmt · (.forIn () name.literal e body)) := by
  have hidentifier := tokenClass_of_isName hname hclass
  have hheader : ("FOR " ++ name.literal ++ " IN " ++ e.format ++ " DO").toList
      = "FOR".toList ++ ' ' :: ((name.literal.toList ++ ' ' :: ("IN".toList
        ++ ' ' :: e.format.toList)) ++ " DO".toList) := by
    simp [String.toList_append]
  have hword : "FOR" ∈ keywords := by decide
  have hspace : isSpace ' ' = true := rfl
  -- The header is lexed from its end: what follows a part decides where it ends.
  have hin := (((he.lexes hread).closed.space hspace).keyword "IN" (by decide)
    fun _ _ => boundary_cons rfl).space hspace
  have hbetween := hin.token hidentifier (by decide) fun _ _ => ends_of_boundary (boundary_cons rfl)
  have hbreaks : lineBreaks (name.literal.toList ++ ' ' :: ("IN".toList
      ++ ' ' :: e.format.toList)) = 0 := by
    have hspace : Text.isLineBreak ' ' = false := by decide
    have hin : lineBreaks "IN".toList = 0 := by decide
    simp only [lineBreaks_append, lineBreaks_cons, lineBreaks_of_isName hname hclass,
      he.lineBreaks_eq hread hunbroken, hspace, hin]
    rfl
  rw [Stmt.format, toList_block, hheader]
  refine ((laidOut_header hword hbetween hbreaks).append
    (hbody.append (laidOut_word (by decide)))).mono ?_ ?_
  · simp only [Stmt.Plain, Stmt.PlainAll, Stmt.exprs, List.forall_mem_append, Expr.Plain, and_true]
  · rintro _ ⟨_, _, rfl, ⟨first, _, opening, rfl, hfirst, ⟨token, _, rfl, hkind, hliteral, between,
      middle, rfl, hbetween, hmiddle⟩, hlast⟩, inner, _, rfl, hinner, last, rfl, hend⟩
    rw [String.ofList_toList] at hliteral
    rw [← hliteral, List.cons_append, List.cons_append, List.cons_append, List.cons_append,
      List.cons_append, List.append_assoc, List.singleton_append]
    exact .forIn hfirst (isName_of_eq hname hkind hliteral) hbetween hmiddle hlast hinner hend

/-- The lines of the second branch of a conditional. An empty one is not printed. -/
def elseText (body : List (Stmt Unit)) : List Char :=
  if body.isEmpty then [] else "ELSE".toList ++ '\n' :: bodyText body

/-- A conditional is printed as its two branches, one behind the other. -/
theorem toList_cond (thenBody elseBody : List (Stmt Unit)) :
    (Stmt.cond () e thenBody elseBody).format.toList ++ ['\n']
      = (("IF".toList ++ ' ' :: (e.format.toList ++ " DO".toList)) ++ ['\n'])
        ++ (bodyText thenBody ++ (elseText elseBody ++ ("END".toList ++ ['\n']))) := by
  -- Both branches together stand between the first and the last line.
  have hparts : (("IF " ++ e.format ++ " DO") :: Stmt.formatBody thenBody
        ++ (if elseBody.isEmpty then [] else "ELSE" :: Stmt.formatBody elseBody) ++ ["END"])
      = ("IF " ++ e.format ++ " DO") :: (Stmt.formatBody thenBody
        ++ (if elseBody.isEmpty then [] else "ELSE" :: Stmt.formatBody elseBody)) ++ ["END"] := by
    simp
  have helse : terminated ((if elseBody.isEmpty then []
      else "ELSE" :: Stmt.formatBody elseBody).map String.toList) = elseText elseBody := by
    cases elseBody <;> simp [elseText, bodyText]
  rw [Stmt.format, hparts, toList_block, List.map_append, terminated_append, helse]
  simp [bodyText, String.toList_append]

/-- A conditional, if both of its branches are laid out. -/
theorem LaidOut.cond {thenBody elseBody : List (Stmt Unit)}
    (he : DerivesExpr anyLevel tokens e) (hread : Readable tokens) (hunbroken : Unbroken e.subs)
    (hthen : LaidOut (bodyText thenBody) (Stmt.PlainAll thenBody) (DerivesBlock · thenBody))
    (helse : LaidOut (elseText elseBody) (Stmt.PlainAll elseBody) (DerivesElse · elseBody)) :
    LaidOut ((Stmt.cond () e thenBody elseBody).format.toList ++ ['\n'])
      (Stmt.cond () e thenBody elseBody).Plain
      (DerivesStmt · (.cond () e thenBody elseBody)) := by
  have hword : "IF" ∈ keywords := by decide
  have hopening := laidOut_header hword (he.lexes hread).closed (he.lineBreaks_eq hread hunbroken)
  rw [toList_cond]
  refine (hopening.append (hthen.append (helse.append (laidOut_word (by decide))))).mono ?_ ?_
  · simp only [Stmt.Plain, Stmt.PlainAll, Stmt.exprs, List.forall_mem_append, Expr.Plain, and_true]
  · rintro _ ⟨_, _, rfl, ⟨first, middle, opening, rfl, hfirst, hmiddle, hlast⟩, inner, _, rfl,
      hinner, other, _, rfl, hother, last, rfl, hend⟩
    rw [List.cons_append, List.append_assoc, List.singleton_append]
    exact .cond hfirst hmiddle hlast hinner hother hend

/-- A second branch that is not printed is derived from no tokens. -/
theorem laidOut_noElse : LaidOut (elseText []) (Stmt.PlainAll ([] : List (Stmt Unit)))
    (DerivesElse · []) := by
  refine laidOut_nil.mono (iff_true_intro (by simp [Stmt.PlainAll, Stmt.exprsAll])) ?_
  rintro _ rfl
  exact .absent

/-- A second branch is laid out if its statements are. -/
theorem LaidOut.elseBody {body : List (Stmt Unit)}
    (h : LaidOut (bodyText body) (Stmt.PlainAll body) (DerivesBlock · body)) :
    LaidOut (elseText body) (Stmt.PlainAll body) (DerivesElse · body) := by
  cases body with
  | nil => exact laidOut_noElse
  | cons s rest =>
      have hword : "ELSE" ∈ keywords := by decide
      -- The word is printed only if there are statements, and a branch without
      -- any is derived as if it were not there.
      have htext : elseText (s :: rest)
          = ("ELSE".toList ++ ['\n']) ++ bodyText (s :: rest) := by
        simp [elseText]
      rw [htext]
      refine ((laidOut_word hword).append h).mono (by rw [true_and]) ?_
      rintro _ ⟨_, second, rfl, ⟨token, rfl, htoken⟩, hsecond⟩
      exact .present htoken hsecond

/-! ### All statements -/

mutual

/-- A statement is laid out as a text of the statement, if it is plain. By induction
on the derivation, with the blocks in it. -/
theorem DerivesStmt.laidOut {tokens : List Token} {s : Stmt Unit} :
    DerivesStmt tokens s → Readable tokens → Unbroken s.exprs →
      LaidOut (s.format.toList ++ ['\n']) s.Plain (DerivesStmt · s)
  | .declare _ hd _, hread, hunbroken =>
      laidOut_declare hd (hread.mono fun t ht => by simp [ht]) hunbroken
  | .cond _ hcondition _ hthen helse _, hread, hunbroken => by
      obtain ⟨he, hbodies⟩ := unbroken_append.mp hunbroken
      obtain ⟨hfirst, hsecond⟩ := unbroken_append.mp hbodies
      exact .cond hcondition (hread.mono fun t ht => by simp [ht]) he
        (hthen.laidOut (hread.mono fun t ht => by simp [ht]) hfirst)
        (helse.laidOut (hread.mono fun t ht => by simp [ht]) hsecond)
  | .forIn _ hname _ hvalue _ hbody _, hread, hunbroken => by
      obtain ⟨he, hbodies⟩ := unbroken_append.mp hunbroken
      exact .forIn hname (hread.genuine _ (by simp)) hvalue
        (hread.mono fun t ht => by simp [ht]) he
        (hbody.laidOut (hread.mono fun t ht => by simp [ht]) hbodies)
  | .whileDo _ hcondition _ hbody _, hread, hunbroken => by
      obtain ⟨he, hbodies⟩ := unbroken_append.mp hunbroken
      exact .whileDo hcondition (hread.mono fun t ht => by simp [ht]) he
        (hbody.laidOut (hread.mono fun t ht => by simp [ht]) hbodies)
  | .result _ hvalue _, hread, hunbroken =>
      laidOut_result hvalue (hread.mono fun t ht => by simp [ht]) hunbroken
  | .expression h _, hread, hunbroken =>
      laidOut_expression h (hread.mono (by simp)) hunbroken
  | .assign htarget hequals hvalue _, hread, hunbroken =>
      laidOut_assign htarget (hread.mono (by simp)) (.present hequals hvalue)
        (hread.mono fun t ht => by rcases List.mem_cons.mp ht with h | h <;> simp [h]) hunbroken

/-- The statements of a block are laid out one behind the other. -/
theorem DerivesBlock.laidOut {tokens : List Token} {body : List (Stmt Unit)} :
    DerivesBlock tokens body → Readable tokens → Unbroken (Stmt.exprsAll body) →
      LaidOut (bodyText body) (Stmt.PlainAll body) (DerivesBlock · body)
  | .nil, _, _ => by
      refine laidOut_nil.mono (iff_true_intro (by simp [Stmt.PlainAll, Stmt.exprsAll])) ?_
      rintro _ rfl
      exact .nil
  | .cons hs hrest, hread, hunbroken => by
      obtain ⟨hfirst, hsecond⟩ := unbroken_append.mp hunbroken
      rw [bodyText_cons]
      refine ((hs.laidOut (hread.mono (by simp)) hfirst).indent.append
        (hrest.laidOut (hread.mono (by simp)) hsecond)).mono ?_ ?_
      · simp only [Stmt.PlainAll, Stmt.Plain, Stmt.exprsAll, List.forall_mem_append]
      · rintro _ ⟨first, second, rfl, hfirst, hsecond⟩
        exact .cons hfirst hsecond

/-- So are those of the second branch of a conditional, which may be left out. -/
theorem DerivesElse.laidOut {tokens : List Token} {body : List (Stmt Unit)} :
    DerivesElse tokens body → Readable tokens → Unbroken (Stmt.exprsAll body) →
      LaidOut (elseText body) (Stmt.PlainAll body) (DerivesElse · body)
  | .absent, _, _ => laidOut_noElse
  | .present _ hbody, hread, hunbroken =>
      (hbody.laidOut (hread.mono (by simp)) hunbroken).elseBody

end

end Proofs

end PlcLang
