import PlcLang.Proofs.Grammar.Agreement
import PlcLang.Proofs.Printing.Programs

/-!
# `PlcLang.Proofs.Printing.RoundTrip`: reading printed programs back

The printed text of a program is meant to parse back into its tree. It does
for all trees but two kinds, and for those it never does
(`roundTrips_iff`):

* A member of an integer literal is accessed. The literal and the point behind
  it are printed without a space, and the lexer takes the point for the begin of
  a fraction.
* A literal in a method has a raw break. The printer indents the method's lines,
  and cuts the literal in two where it does.
-/

set_option autoImplicit false

namespace PlcLang.Proofs

variable {α : Type}

/-- The printed text of the program parses back into its tree, marks apart. -/
def RoundTrips (program : Program α) : Prop :=
  ∃ tokens again, tokenize program.format = .ok tokens ∧ parse tokens = .ok again
    ∧ again.bare = program.bare

/-- The lexer makes of the printed text what it makes of the pieces it is made of. -/
theorem Derives.tokenize_format {tokens : List Token} {program : Program Unit}
    (h : Derives tokens program) (hread : Readable tokens)
    (hunbroken : ∀ method ∈ program.methods, Unbroken method.exprs) :
    (program.Plain ∧ ∃ again, tokenize program.format = .ok again ∧ Readable again
        ∧ Derives again program)
      ∨ (¬ program.Plain ∧ ∃ error, tokenize program.format = .error error) := by
  obtain ⟨tail, htail, htext⟩ := toList_format program
  have hend (offset : Nat) : Lexer.tokensFrom offset 0 tail = .ok [] := by
    rcases htail with rfl | rfl <;> rfl
  have hboundary : Boundary tail := by
    rcases htail with rfl | rfl
    · exact boundary_nil
    · exact boundary_cons rfl
  exact (h.lexes hread hunbroken).tokenize_eq htext hboundary hend

/-- A program whose printed text lexes as the program has no raw breaks in
methods: in the text there are none but those of fields. -/
theorem Derives.unbroken {tokens printed : List Token} {program : Program Unit}
    (h : Derives tokens program) (hread : Readable tokens)
    (hlex : tokenize program.format = .ok printed) (hprinted : Derives printed program) :
    ∀ method ∈ program.methods, Unbroken method.exprs := by
  -- The raw breaks are counted twice over. The printed tokens need those of
  -- all literals of the program, and the printed text has no more than those
  -- of its fields, so none is left for the methods.
  have hneeded := hprinted.rawBreaks_le
  have hquoted := quotedBreaks_le printed
  have htokens := (tokensFrom_eq_ok_iff.mp hlex).tokenBreaks_le
  have htext := h.rawBreaks_format_le hread
  have hsplit : rawBreaks (literalTexts program.exprs)
      = rawBreaks (literalTexts (program.fields.flatMap Field.exprs))
        + rawBreaks (literalTexts (program.methods.flatMap Method.exprs)) := by
    rw [Program.exprs, literalTexts_append, rawBreaks_append]
  have hnone : Unbroken (program.methods.flatMap Method.exprs) := by
    rw [Unbroken]
    omega
  intro method hmethod
  obtain ⟨before, behind, hmethods⟩ := List.append_of_mem hmethod
  rw [hmethods, List.flatMap_append, List.flatMap_cons] at hnone
  exact (unbroken_append.mp (unbroken_append.mp hnone).2).1

/-- The printed text of a program that was read parses back into its tree if and
only if no member of an integer literal is accessed in it and no literal in
a method has a raw break. -/
theorem roundTrips_iff {text : String} {tokens : List Token} {program : Program Offset}
    (hlex : tokenize text = .ok tokens) (hparse : parse tokens = .ok program) :
    RoundTrips program
      ↔ program.bare.Plain ∧ ∀ method ∈ program.bare.methods, Unbroken method.exprs := by
  obtain ⟨hread, hderives⟩ :=
    (parse_eq_ok_iff_readable (tokenClass_of_tokenize hlex)).mp ⟨program, hparse, rfl⟩
  constructor
  · rintro ⟨printed, again, hprinted, hagain, hbare⟩
    -- The printed text lexes, so the second of the outcomes is impossible; that
    -- it also derives the program is what rules out raw breaks first.
    have hback := ((parse_eq_ok_iff_readable (tokenClass_of_tokenize hprinted)).mp
      ⟨again, hagain, hbare⟩).2
    rw [← Program.format_bare] at hprinted
    have hunbroken := hderives.unbroken hread hprinted hback
    rcases hderives.tokenize_format hread hunbroken with ⟨hplain, -⟩ | ⟨-, e, he⟩
    · exact ⟨hplain, hunbroken⟩
    · rw [hprinted] at he
      cases he
  · rintro ⟨hplain, hunbroken⟩
    rcases hderives.tokenize_format hread hunbroken with ⟨-, printed, hprinted, hback⟩ | ⟨hnot, -⟩
    · obtain ⟨again, hagain, hbare⟩ :=
        (parse_eq_ok_iff_readable (tokenClass_of_tokenize hprinted)).mpr hback
      rw [Program.format_bare] at hprinted
      exact ⟨printed, again, hprinted, hagain, hbare⟩
    · exact absurd hplain hnot

/-- Indenting ends the line at a line separator, in a string too. -/
example :
    (⟨[], [⟨(), "m", [], [], none, [.result () (.string () "a\u2028b")]⟩]⟩ : Program Unit).format
      = "DEF m() DO\n    RETURN \"a\n    b\";\nEND\n" := by
  rfl

/-- The member of a decimal literal in a method is read back. -/
theorem roundTrips_decimal_receiver :
    ∃ tokens program, tokenize "DEF m() DO s = -2.50.k; END" = .ok tokens
      ∧ parse tokens = .ok program ∧ RoundTrips program := by
  have hlex : tokenize "DEF m() DO s = -2.50.k; END" = .ok
      [⟨.identifier, "DEF", 0⟩, ⟨.identifier, "m", 4⟩, ⟨.operator, "(", 5⟩, ⟨.operator, ")", 6⟩,
        ⟨.identifier, "DO", 8⟩, ⟨.identifier, "s", 11⟩, ⟨.operator, "=", 13⟩,
        ⟨.decimal, "-2.50", 15⟩, ⟨.operator, ".", 20⟩, ⟨.identifier, "k", 21⟩,
        ⟨.operator, ";", 22⟩, ⟨.identifier, "END", 24⟩] := by
    rfl
  have hparse : parse
      [⟨.identifier, "DEF", 0⟩, ⟨.identifier, "m", 4⟩, ⟨.operator, "(", 5⟩, ⟨.operator, ")", 6⟩,
        ⟨.identifier, "DO", 8⟩, ⟨.identifier, "s", 11⟩, ⟨.operator, "=", 13⟩,
        ⟨.decimal, "-2.50", 15⟩, ⟨.operator, ".", 20⟩, ⟨.identifier, "k", 21⟩,
        ⟨.operator, ";", 22⟩, ⟨.identifier, "END", 24⟩]
      = .ok ⟨[], [⟨0, "m", [], [], none,
          [.assign 11 (.var 11 "s") (.field 15 (.decimal 15 ⟨true, 250, -2⟩) "k")]⟩]⟩ := by
    rfl
  refine ⟨_, _, hlex, hparse, (roundTrips_iff hlex hparse).mpr ⟨?_, ?_⟩⟩
  · simp [Program.Plain, Program.exprs, Program.bare, Program.map, Method.map, Method.exprs,
      Stmt.mapAll, Stmt.map, Stmt.exprsAll, Stmt.exprs, Expr.map, Expr.subs,
      Expr.hasIntegerReceiver, Expr.isInteger]
  · intro method hmethod
    rw [List.mem_singleton.mp hmethod]
    exact rfl

/-- The member of an integer literal is printed right behind it, and its point
with it: the text does not lex. -/
theorem not_roundTrips_integer_receiver :
    ∃ tokens program, tokenize "LET x = 1 .foo;" = .ok tokens ∧ parse tokens = .ok program
      ∧ ¬ RoundTrips program := by
  have hlex : tokenize "LET x = 1 .foo;" = .ok
      [⟨.identifier, "LET", 0⟩, ⟨.identifier, "x", 4⟩, ⟨.operator, "=", 6⟩, ⟨.integer, "1", 8⟩,
        ⟨.operator, ".", 10⟩, ⟨.identifier, "foo", 11⟩, ⟨.operator, ";", 14⟩] := by
    rfl
  have hparse : parse
      [⟨.identifier, "LET", 0⟩, ⟨.identifier, "x", 4⟩, ⟨.operator, "=", 6⟩, ⟨.integer, "1", 8⟩,
        ⟨.operator, ".", 10⟩, ⟨.identifier, "foo", 11⟩, ⟨.operator, ";", 14⟩]
      = .ok ⟨[⟨0, "x", none, some (.field 8 (.integer 8 1) "foo")⟩], []⟩ := by
    rfl
  have hprinted : tokenize
      (⟨[⟨0, "x", none, some (.field 8 (.integer 8 1) "foo")⟩], []⟩ : Program Offset).format
      = .error ⟨.missingFraction, 10⟩ := by
    rfl
  refine ⟨_, _, hlex, hparse, ?_⟩
  rintro ⟨printed, again, hagain, -, -⟩
  rw [hprinted] at hagain
  cases hagain

end PlcLang.Proofs
