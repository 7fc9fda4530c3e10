import PlcLang.Proofs.Grammar.Parts
import PlcLang.Proofs.Printing.Statements

/-!
# `PlcLang.Proofs.Printing.Programs`: printed programs

Fields and methods are printed one behind the other, with newlines between them.
`Derives.lexes` puts their texts together: the text of a program whose methods
have no raw breaks lexes as the program, if no member of an integer literal is
accessed in it, and does not lex at all otherwise.

Fields are never indented, so raw breaks do them no harm. The methods of a
program lose them when their bodies are indented: `Derives.rawBreaks_format_le`
says that all the raw breaks of the whole text stand in fields.
-/

set_option autoImplicit false

namespace PlcLang

/-- No member of an integer literal is accessed in the program. -/
def Program.Plain {α : Type} (program : Program α) : Prop :=
  ∀ e ∈ program.exprs, e.hasIntegerReceiver = false

namespace Proofs

open Lexer

variable {tokens : List Token}

/-! ### Fields and methods -/

/-- A field is a keyword, a declaration and a semicolon, and lexes if the
declaration does. -/
theorem DerivesField.lexes {field : Field Unit} (h : DerivesField tokens field)
    (hread : Readable tokens) :
    Lexes field.format.toList Boundary field.declaration.Plain (DerivesField · field) := by
  cases h with
  | @mk first last tokens d hfirst hd hlast =>
      have htext : (Field.mk () d).format.toList
          = "LET".toList ++ ' ' :: (d.format.toList ++ [';']) := by
        simp [Field.format, String.toList_append]
      have hspace : isSpace ' ' = true := rfl
      have hlexes := (hd.lexes (hread.mono fun t ht => by simp [ht])).semicolon
      rw [htext]
      refine ((hlexes.space hspace).keyword "LET" (by decide) fun _ _ => boundary_cons rfl).mono
        (fun _ h => h) Iff.rfl ?_
      rintro _ ⟨first, _, rfl, hfirst, middle, last, rfl, hmiddle, hlast⟩
      exact .mk hfirst hmiddle hlast

/-- The parameters of a method with their types, as they are written. -/
def parametersText (parameters : List (String × String)) : List Char :=
  (", ".intercalate (parameters.map fun (name, typeName) => name ++ ": " ++ typeName)).toList

/-- More parameters come behind a comma and a space. -/
theorem parametersText_cons (name typeName : String) {rest : List (String × String)}
    (hne : rest ≠ []) :
    parametersText ((name, typeName) :: rest)
      = name.toList ++ ':' :: ' ' :: (typeName.toList ++ ',' :: ' ' :: parametersText rest) := by
  rw [parametersText, List.map_cons, String.intercalate_cons_of_ne_nil (by simpa using hne),
    parametersText]
  simp [String.toList_append]

/-- A list of parameters that is not empty always lexes. -/
theorem DerivesParameterSeries.lexes {parameters : List (String × String)}
    (h : DerivesParameterSeries tokens parameters) (hread : Readable tokens) :
    parameters ≠ [] ∧ Lexes (parametersText parameters) Boundary True
      (DerivesParameterSeries · parameters) := by
  have hspace : isSpace ' ' = true := rfl
  induction h with
  | @one name colon type hname hcolon htype =>
      have hn := tokenClass_of_isName hname (hread.genuine _ (by simp))
      have ht := tokenClass_of_isName htype (hread.genuine _ (by simp))
      have htext : parametersText [(name.literal, type.literal)]
          = name.literal.toList ++ ':' :: ' ' :: type.literal.toList := by
        simp [parametersText, String.toList_append]
      -- The text is lexed from its end: what may follow decides where a token ends.
      have htypeLexes := lexes_token ht (by simp) fun _ => ends_of_boundary
      refine ⟨by simp, ?_⟩
      rw [htext]
      refine (((htypeLexes.space hspace).sign ':' (by decide)).token hn (by decide) fun _ _ =>
        ends_of_boundary (boundary_cons rfl)).mono (fun _ h => h) Iff.rfl ?_
      rintro _ ⟨first, _, rfl, hkind, hliteral, colon, _, rfl, -, hcolon, last, _, rfl, hkind',
        hliteral', rfl⟩
      rw [String.ofList_toList] at hliteral hliteral'
      rw [← hliteral, ← hliteral']
      exact .one (isName_of_eq hname hkind hliteral) hcolon (isName_of_eq htype hkind' hliteral')
  | @more name colon type comma tokens rest hname hcolon htype hcomma _ ih =>
      have hn := tokenClass_of_isName hname (hread.genuine _ (by simp))
      have ht := tokenClass_of_isName htype (hread.genuine _ (by simp))
      obtain ⟨hne, hrest⟩ := ih (hread.mono fun t ht => by simp [ht])
      have hbehind := ((hrest.space hspace).sign ',' (by decide)).token ht (by decide) fun _ _ =>
        ends_of_boundary (boundary_cons rfl)
      refine ⟨by simp, ?_⟩
      rw [parametersText_cons _ _ hne]
      refine (((hbehind.space hspace).sign ':' (by decide)).token hn (by decide) fun _ _ =>
        ends_of_boundary (boundary_cons rfl)).mono (fun _ h => h) Iff.rfl ?_
      rintro _ ⟨first, _, rfl, hkind, hliteral, colon, _, rfl, -, hcolon, next, _, rfl, hkind',
        hliteral', comma, more, rfl, -, hcomma, hmore⟩
      rw [String.ofList_toList] at hliteral hliteral'
      rw [← hliteral, ← hliteral']
      exact .more (isName_of_eq hname hkind hliteral) hcolon (isName_of_eq htype hkind' hliteral')
        hcomma hmore

/-- Parameters and the parenthesis that closes them lex before anything. -/
theorem DerivesParameters.lexes {parameters : List (String × String)}
    (h : DerivesParameters tokens parameters) (hread : Readable tokens) :
    Lexes (parametersText parameters ++ [')']) Anything True (DerivesParameters · parameters) := by
  have hclosing : Lexes [')'] Anything True (Headed .operator [')'] (· = [])) :=
    lexes_nil.sign ')' (by decide)
  cases h with
  | none hparen =>
      refine hclosing.mono (fun _ h => h) Iff.rfl ?_
      rintro _ ⟨paren, _, rfl, -, hparen, rfl⟩
      exact .none hparen
  | some hparameters hparen =>
      have hseries := (hparameters.lexes (hread.mono (by simp))).2
      refine (hseries.append hclosing fun _ _ => boundary_cons rfl).mono (fun _ h => h) (by simp) ?_
      rintro _ ⟨first, _, rfl, hfirst, paren, _, rfl, -, hparen, rfl⟩
      exact .some hfirst hparen

/-- The text of a method but for its body. -/
def headerText (method : Method Unit) : List Char :=
  "DEF".toList ++ ' ' :: (method.name.toList ++ '(' :: (method.parameterText.toList
    ++ ')' :: (typeText method.returnType ++ " DO".toList)))

/-- A method is printed as its header, its body and a last line. -/
theorem toList_method (method : Method Unit) :
    method.format.toList = headerText method ++ '\n' :: (bodyText method.body ++ "END".toList) := by
  have hblock (header : String) :
      ("\n".intercalate (header :: Stmt.formatBody method.body ++ ["END"])).toList
        = header.toList ++ '\n' :: (bodyText method.body ++ "END".toList) := by
    have h := toList_block header (Stmt.formatBody method.body)
    refine List.append_cancel_right (h.trans ?_)
    simp [bodyText]
  obtain ⟨m, name, parameters, types, returnType, body⟩ := method
  cases returnType with
  | none =>
      refine (hblock _).trans ?_
      simp [headerText, typeText, String.toList_append]
  | some returnType =>
      refine (hblock _).trans ?_
      simp [headerText, typeText, String.toList_append]

/-- Parameters are printed as they were written. -/
theorem parameterText_eq (parameters : List (String × String)) (name : String)
    (returnType : Option String) (body : List (Stmt Unit)) :
    (Method.mk () name (parameters.map (·.1)) (parameters.map (·.2)) returnType body
      ).parameterText.toList = parametersText parameters := by
  have hzip : (parameters.map (·.1)).zip (parameters.map (·.2)) = parameters := by
    induction parameters with
    | nil => rfl
    | cons p rest ih => rw [List.map_cons, List.map_cons, List.zip_cons_cons, ih]
  rw [Method.parameterText, hzip, parametersText]

/-- A method lexes if the expressions in it are plain. Its body is indented, so no
literal may have a raw break. -/
theorem DerivesMethod.lexes {method : Method Unit} (h : DerivesMethod tokens method)
    (hread : Readable tokens) (hunbroken : Unbroken method.exprs) :
    Lexes method.format.toList Boundary (Stmt.PlainAll method.body) (DerivesMethod · method) := by
  rw [toList_method]
  cases h with
  | @mk first name paren opening last parameterTokens typeTokens bodyTokens parameters returnType
      body hfirst hname hparen hparameters htype hopening hbody hlast =>
      have hspace : isSpace ' ' = true := rfl
      have hnewline : isSpace '\n' = true := rfl
      have hidentifier := tokenClass_of_isName hname (hread.genuine name (by simp))
      have hend : Lexes "END".toList Boundary True (Headed .identifier "END".toList (· = [])) :=
        lexes_token (tokenClass_of_mem_keywords (by decide)) (by simp) fun _ => ends_of_boundary
      -- A method stands at the margin, so its body is taken as it is laid out.
      obtain ⟨lines, -, hlines, hlexes⟩ :=
        hbody.laidOut (hread.mono fun t ht => by simp [ht]) hunbroken
      have hblock : Lexes (bodyText body) Anything (Stmt.PlainAll body) (DerivesBlock · body) := by
        have h := hlexes 0
        have hmargin : indented 0 lines = lines := List.map_id lines
        rwa [hmargin, ← hlines] at h
      have htypeLexes := (htype.lexes (hread.mono fun t ht => by simp [ht])).opening
      have hparametersLexes := hparameters.lexes (hread.mono fun t ht => by simp [ht])
      have hsignature := (((((hparametersLexes.append htypeLexes fun _ _ => trivial).sign '('
        (by decide)).token hidentifier (by decide) fun _ _ =>
          ends_of_boundary (boundary_cons rfl)).space hspace).keyword "DEF" (by decide)
            fun _ _ => boundary_cons rfl)
      have htext : headerText ⟨(), name.literal, parameters.map (·.1), parameters.map (·.2),
            returnType, body⟩
          = "DEF".toList ++ ' ' :: (name.literal.toList ++ '(' :: ((parametersText parameters
            ++ [')']) ++ (typeText returnType ++ " DO".toList))) := by
        rw [headerText, parameterText_eq]
        simp
      rw [htext]
      refine (hsignature.append ((hblock.append hend fun _ _ => trivial).space hnewline)
        fun _ _ => boundary_cons rfl).mono (fun _ h => h) (by simp) ?_
      rintro _ ⟨_, _, rfl, ⟨first, _, rfl, hfirst, token, _, rfl, hkind, hliteral, paren, _, rfl, -,
        hparen, ps, _, rfl, hps, type, opening, rfl, htype, hopening⟩, inner, _, rfl, hinner, last,
        _, rfl, -, hlast, rfl⟩
      rw [String.ofList_toList] at hliteral
      rw [← hliteral, List.cons_append, List.cons_append, List.cons_append, List.append_assoc,
        List.append_assoc, List.singleton_append]
      exact .mk hfirst (isName_of_eq hname hkind hliteral) hparen hps htype hopening hinner hlast

/-! ### Items with newlines between them -/

/-- Texts with newlines between them lex if each of them does. -/
theorem lexes_intercalate {β : Type} {separator : String} {R : List Token → β → Prop}
    {print : β → String} {good : β → Prop}
    (hseparator : ∃ n, separator.toList = List.replicate (n + 1) '\n') {list : List β}
    (h : ∀ b ∈ list, Lexes (print b).toList Boundary (good b) (R · b)) :
    Lexes (separator.intercalate (list.map print)).toList Boundary (∀ b ∈ list, good b)
      (DerivesAll R · list) := by
  induction list with
  | nil =>
      refine lexes_nil.mono (fun _ h => h) (by simp) ?_
      rintro _ rfl
      exact .nil
  | cons b rest ih =>
      have hb := h b (by simp)
      have hrest := ih fun b hb => h b (by simp [hb])
      cases rest with
      | nil =>
          rw [List.map_singleton, String.intercalate_singleton]
          refine hb.mono (fun _ h => h) (by simp) fun tokens htokens => ?_
          simpa using DerivesAll.cons htokens .nil
      | cons next more =>
          -- The newlines are behind the first text and in front of the others, where
          -- they are white space; the first text ends at the first of them.
          obtain ⟨n, hn⟩ := hseparator
          have hbehind : Lexes (separator.toList
              ++ (separator.intercalate ((next :: more).map print)).toList) Boundary
              (∀ b ∈ next :: more, good b) (DerivesAll R · (next :: more)) := by
            rw [hn]
            induction n + 1 with
            | zero => exact hrest
            | succ n ih => rw [List.replicate_succ, List.cons_append]; exact ih.space rfl
          rw [List.map_cons, String.intercalate_cons_of_ne_nil (by simp), String.toList_append,
            String.toList_append, List.append_assoc]
          refine (hb.append hbehind fun tail _ => ?_).mono (fun _ h => h)
            List.forall_mem_cons ?_
          · rw [hn, List.replicate_succ]
            exact boundary_cons rfl
          · rintro _ ⟨first, second, rfl, hfirst, hsecond⟩
            exact .cons hfirst hsecond

/-- Each of the items is derived from readable tokens. -/
theorem DerivesAll.exists_derives {β : Type} {R : List Token → β → Prop} {list : List β}
    (h : DerivesAll R tokens list) (hread : Readable tokens) :
    ∀ b ∈ list, ∃ part, R part b ∧ Readable part := by
  intro b hb
  obtain ⟨part, hpart, hsub⟩ := h.exists_part b hb
  exact ⟨part, hpart, hread.mono hsub⟩

/-! ### Programs -/

/-- The text of a program but for the newline at its end. -/
def programText (program : Program Unit) : List Char :=
  ("\n\n".intercalate program.parts).toList

/-- Without fields the parts of a program are its methods. -/
theorem parts_of_nil (methods : List (Method Unit)) :
    (⟨[], methods⟩ : Program Unit).parts = methods.map Method.format := rfl

/-- Fields are one part of a program, before its methods. -/
theorem parts_of_ne_nil {fields : List (Field Unit)} (h : fields ≠ [])
    (methods : List (Method Unit)) :
    (⟨fields, methods⟩ : Program Unit).parts
      = "\n".intercalate (fields.map Field.format) :: methods.map Method.format := by
  have hempty : fields.isEmpty = false := by simpa using h
  simp [Program.parts, hempty]

/-- A program is plain if its fields and its methods are. -/
theorem plain_iff (fields : List (Field Unit)) (methods : List (Method Unit)) :
    (⟨fields, methods⟩ : Program Unit).Plain
      ↔ (∀ field ∈ fields, field.declaration.Plain)
        ∧ ∀ method ∈ methods, Stmt.PlainAll method.body := by
  simp only [Program.Plain, Program.exprs, List.mem_append, List.mem_flatMap, or_imp, forall_and,
    forall_exists_index, and_imp]
  constructor
  · rintro ⟨hfields, hmethods⟩
    exact ⟨fun field hfield e he => hfields e field hfield he,
      fun method hmethod e he => hmethods e method hmethod he⟩
  · rintro ⟨hfields, hmethods⟩
    exact ⟨fun e field hfield he => hfields field hfield e he,
      fun e method hmethod he => hmethods method hmethod e he⟩

/-- The text of a program lexes as the program, if it has no raw breaks in
methods. -/
theorem Derives.lexes {program : Program Unit} (h : Derives tokens program)
    (hread : Readable tokens) (hunbroken : ∀ method ∈ program.methods, Unbroken method.exprs) :
    Lexes (programText program) Boundary program.Plain (Derives · program) := by
  cases h with
  | @mk fieldTokens methodTokens fields methods hfields hmethods =>
      have hfieldLexes : Lexes ("\n".intercalate (fields.map Field.format)).toList Boundary
          (∀ field ∈ fields, field.declaration.Plain) (DerivesAll DerivesField · fields) := by
        refine lexes_intercalate ⟨0, rfl⟩ fun field hfield => ?_
        obtain ⟨part, hpart, hreadPart⟩ :=
          hfields.exists_derives (hread.mono (by simp)) field hfield
        exact hpart.lexes hreadPart
      have hmethodLexes : Lexes ("\n\n".intercalate (methods.map Method.format)).toList Boundary
          (∀ method ∈ methods, Stmt.PlainAll method.body)
          (DerivesAll DerivesMethod · methods) := by
        refine lexes_intercalate ⟨1, rfl⟩ fun method hmethod => ?_
        obtain ⟨part, hpart, hreadPart⟩ :=
          hmethods.exists_derives (hread.mono (by simp)) method hmethod
        exact hpart.lexes hreadPart (hunbroken method hmethod)
      rw [programText]
      -- The gap between fields and methods is printed only if there are both.
      by_cases hfieldsNil : fields = []
      · subst hfieldsNil
        rw [parts_of_nil]
        refine hmethodLexes.mono (fun _ h => h) (by simp [plain_iff]) fun used hused => ?_
        exact .mk .nil hused
      · rw [parts_of_ne_nil hfieldsNil]
        by_cases hmethodsNil : methods = []
        · subst hmethodsNil
          rw [List.map_nil, String.intercalate_singleton]
          refine hfieldLexes.mono (fun _ h => h) (by simp [plain_iff]) fun used hused => ?_
          simpa using Derives.mk hused .nil
        · have hgap : "\n\n".toList = ['\n', '\n'] := rfl
          rw [String.intercalate_cons_of_ne_nil (by simpa using hmethodsNil), String.toList_append,
            String.toList_append, List.append_assoc, hgap]
          refine (hfieldLexes.append ((hmethodLexes.space rfl).space rfl) fun tail _ =>
            boundary_cons rfl).mono (fun _ h => h) (plain_iff fields methods) ?_
          rintro _ ⟨first, second, rfl, hfirst, hsecond⟩
          exact .mk hfirst hsecond

/-- The printed text of a program is its text with nothing or a newline behind
it. -/
theorem toList_format (program : Program Unit) :
    ∃ tail, (tail = [] ∨ tail = ['\n']) ∧ program.format.toList = programText program ++ tail := by
  rw [Program.format, programText]
  split
  · exact ⟨[], .inl rfl, by simp⟩
  · exact ⟨['\n'], .inr rfl, by simp [String.toList_append]⟩

/-! ### Raw breaks of programs -/

/-- Every raw break in the text of a field is one of its literals. -/
theorem DerivesField.rawBreaks_format_le {field : Field Unit} (h : DerivesField tokens field)
    (hread : Readable tokens) :
    rawBreaks field.format.toList ≤ rawBreaks (literalTexts field.exprs) := by
  cases h with
  | @mk first last tokens d hfirst hd hlast =>
      have hlines := hd.lineBreaks_le (hread.mono fun t ht => by simp [ht])
      have hraw := rawBreaks_le_lineBreaks d.format.toList
      have hlet : rawBreaks "LET ".toList = 0 := by decide
      have hsemicolon : rawBreaks ";".toList = 0 := by decide
      rw [Field.format, String.toList_append, String.toList_append, rawBreaks_append,
        rawBreaks_append, hlet, hsemicolon, Nat.zero_add, Nat.add_zero]
      exact Nat.le_trans hraw hlines

/-- No raw break survives in the text of a block: all of it is indented. -/
theorem rawBreaks_bodyText (body : List (Stmt Unit)) : rawBreaks (bodyText body) = 0 := by
  have hnewline : isRawBreak '\n' = false := by decide
  induction body with
  | nil => rfl
  | cons s rest ih =>
      have hindent : rawBreaks (Text.indent s.format 1).toList = 0 := by
        refine List.countP_eq_zero.mpr fun c hc hraw => ?_
        have hbreak : Text.isLineBreak c = true := by
          rw [isRawBreak, Bool.and_eq_true] at hraw
          exact hraw.1
        rw [eq_newline_of_mem_indent hc hbreak, hnewline] at hraw
        exact absurd hraw (by decide)
      have hend : rawBreaks ['\n'] = 0 := by decide
      rw [bodyText_cons, rawBreaks_append, rawBreaks_append, hindent, hend, ih]

/-- Parameters are printed without line ends. -/
theorem DerivesParameterSeries.lineBreaks_eq {parameters : List (String × String)}
    (h : DerivesParameterSeries tokens parameters) (hread : Readable tokens) :
    parameters ≠ [] ∧ lineBreaks (parametersText parameters) = 0 := by
  have hcolon : lineBreaks ": ".toList = 0 := by decide
  have hsigns : Text.isLineBreak ':' = false ∧ Text.isLineBreak ',' = false
      ∧ Text.isLineBreak ' ' = false := by decide
  induction h with
  | one hname _ htype =>
      have hn := lineBreaks_of_isName hname (hread.genuine _ (by simp))
      have ht := lineBreaks_of_isName htype (hread.genuine _ (by simp))
      refine ⟨by simp, ?_⟩
      rw [parametersText, List.map_singleton, String.intercalate_singleton, String.toList_append,
        String.toList_append, lineBreaks_append, lineBreaks_append, hn, ht, hcolon]
  | more hname _ htype _ _ ih =>
      have hn := lineBreaks_of_isName hname (hread.genuine _ (by simp))
      have ht := lineBreaks_of_isName htype (hread.genuine _ (by simp))
      obtain ⟨hne, hrest⟩ := ih (hread.mono fun t ht => by simp [ht])
      refine ⟨by simp, ?_⟩
      rw [parametersText_cons _ _ hne]
      simp [hn, ht, hrest, hsigns.1, hsigns.2.1, hsigns.2.2]

/-- The header of a method is one line. -/
theorem DerivesMethod.lineBreaks_headerText {method : Method Unit} (h : DerivesMethod tokens method)
    (hread : Readable tokens) : lineBreaks (headerText method) = 0 := by
  have hsigns : Text.isLineBreak '(' = false ∧ Text.isLineBreak ')' = false
      ∧ Text.isLineBreak ' ' = false := by decide
  have hwords : lineBreaks "DEF".toList = 0 ∧ lineBreaks " DO".toList = 0 := by decide
  cases h with
  | @mk first name paren opening last parameterTokens typeTokens bodyTokens parameters returnType
      body hfirst hname hparen hparameters htype hopening hbody hlast =>
      have hn := lineBreaks_of_isName hname (hread.genuine _ (by simp))
      have ht := htype.lineBreaks_eq (hread.mono fun t ht => by simp [ht])
      have hp : lineBreaks (parametersText parameters) = 0 := by
        cases hparameters with
        | none => rfl
        | some hseries _ => exact (hseries.lineBreaks_eq (hread.mono fun t ht => by simp [ht])).2
      rw [headerText, parameterText_eq]
      simp only [lineBreaks_append, lineBreaks_cons, hn, ht, hp, hsigns, hwords]
      rfl

/-- The text of a method has no raw breaks, whatever its literals have. -/
theorem DerivesMethod.rawBreaks_format {method : Method Unit} (h : DerivesMethod tokens method)
    (hread : Readable tokens) : rawBreaks method.format.toList = 0 := by
  have hheader := h.lineBreaks_headerText hread
  have hraw := rawBreaks_le_lineBreaks (headerText method)
  have hbody := rawBreaks_bodyText method.body
  have hnewline : rawBreaks ['\n'] = 0 := by decide
  have hend : rawBreaks "END".toList = 0 := by decide
  rw [toList_method, ← List.singleton_append, rawBreaks_append, rawBreaks_append, rawBreaks_append,
    hnewline, hbody, hend]
  omega

/-- Joined texts have the raw breaks of the texts, if there are none between
them. -/
theorem rawBreaks_intercalate {separator : String} (h : rawBreaks separator.toList = 0)
    (parts : List String) :
    rawBreaks (separator.intercalate parts).toList
      = rawBreaks (parts.flatMap String.toList) := by
  induction parts with
  | nil => simp
  | cons part rest ih =>
      cases rest with
      | nil => simp
      | cons next more =>
          rw [String.intercalate_cons_cons, String.toList_append, String.toList_append,
            rawBreaks_append, rawBreaks_append, h, ih, Nat.add_zero]
          exact (rawBreaks_append _ _).symm

/-- All raw breaks in the text of a program are those of literals in fields. -/
theorem Derives.rawBreaks_format_le {program : Program Unit} (h : Derives tokens program)
    (hread : Readable tokens) :
    rawBreaks program.format.toList
      ≤ rawBreaks (literalTexts (program.fields.flatMap Field.exprs)) := by
  have hgap : rawBreaks "\n".toList = 0 ∧ rawBreaks "\n\n".toList = 0 := by decide
  obtain ⟨tail, htail, htext⟩ := toList_format program
  have hend : rawBreaks tail = 0 := by rcases htail with rfl | rfl <;> decide
  rw [htext, rawBreaks_append, hend, Nat.add_zero, programText, rawBreaks_intercalate hgap.2]
  cases h with
  | @mk fieldTokens methodTokens fields methods hfields hmethods =>
      have hmethodTexts : rawBreaks ((methods.map Method.format).flatMap String.toList) = 0 := by
        have heach := hmethods.exists_derives (hread.mono (by simp))
        rw [List.flatMap_map]
        refine List.countP_eq_zero.mpr fun c hc => ?_
        obtain ⟨method, hmethod, hc⟩ := List.mem_flatMap.mp hc
        obtain ⟨part, hpart, hreadPart⟩ := heach method hmethod
        exact List.countP_eq_zero.mp (hpart.rawBreaks_format hreadPart) c hc
      have hfieldTexts : rawBreaks ("\n".intercalate (fields.map Field.format)).toList
          ≤ rawBreaks (literalTexts (fields.flatMap Field.exprs)) := by
        have heach := hfields.exists_derives (hread.mono (by simp))
        rw [rawBreaks_intercalate hgap.1]
        -- The induction is on the fields alone, and these speak of all of them.
        clear hfields htext
        induction fields with
        | nil => exact Nat.zero_le _
        | cons field rest ih =>
            rw [List.forall_mem_cons] at heach
            obtain ⟨⟨part, hpart, hreadPart⟩, hrest⟩ := heach
            have hfield := hpart.rawBreaks_format_le hreadPart
            have hmore := ih hrest
            simp only [List.map_cons, List.flatMap_cons, literalTexts_append, rawBreaks_append]
            omega
      by_cases hfieldsNil : fields = []
      · subst hfieldsNil
        rw [parts_of_nil, hmethodTexts]
        exact Nat.zero_le _
      · rw [parts_of_ne_nil hfieldsNil, List.flatMap_cons, rawBreaks_append, hmethodTexts,
          Nat.add_zero]
        exact hfieldTexts

/-- The characters and strings among the tokens of a program have all the raw breaks of its
literals. -/
theorem Derives.rawBreaks_le {program : Program Unit} (h : Derives tokens program) :
    rawBreaks (literalTexts program.exprs) ≤ quotedBreaks tokens := by
  -- Fields and methods are counted alike, each item by its own tokens.
  have hitems {β : Type} {R : List Token → β → Prop} {exprs : β → List (Expr Unit)}
      (hR : ∀ tokens b, R tokens b → rawBreaks (literalTexts (exprs b)) ≤ quotedBreaks tokens)
      {tokens : List Token} {list : List β} (h : DerivesAll R tokens list) :
      rawBreaks (literalTexts (list.flatMap exprs)) ≤ quotedBreaks tokens := by
    induction h with
    | nil => exact Nat.zero_le _
    | cons ha _ ih =>
        have hfirst := hR _ _ ha
        rw [List.flatMap_cons, literalTexts_append, rawBreaks_append, quotedBreaks_append]
        omega
  cases h with
  | @mk fieldTokens methodTokens fields methods hfields hmethods =>
      have hf : rawBreaks (literalTexts (fields.flatMap Field.exprs))
          ≤ quotedBreaks fieldTokens := by
        refine hitems (fun tokens field hfield => ?_) hfields
        cases hfield with
        | mk _ hd _ =>
            have h := hd.rawBreaks_le
            simp only [Field.exprs, quotedBreaks_cons, quotedBreaks_append]
            omega
      have hm : rawBreaks (literalTexts (methods.flatMap Method.exprs))
          ≤ quotedBreaks methodTokens := by
        refine hitems (fun tokens method hmethod => ?_) hmethods
        cases hmethod with
        | mk _ _ _ _ _ _ hbody _ =>
            have h := hbody.rawBreaks_le
            simp only [Method.exprs, quotedBreaks_cons, quotedBreaks_append]
            omega
      rw [Program.exprs, literalTexts_append, rawBreaks_append, quotedBreaks_append]
      exact Nat.add_le_add hf hm

end Proofs

end PlcLang
