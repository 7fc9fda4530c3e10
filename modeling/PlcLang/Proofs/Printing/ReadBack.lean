import PlcLang.Proofs.Grammar.Agreement
import PlcLang.Proofs.Grammar.Ownership
import PlcLang.Proofs.Printing.Expressions

/-!
# `PlcLang.Proofs.Printing.ReadBack`: reading printed expressions back

The printer adds no parentheses: what holds a printed expression together is that the tree it is
printed from was read. The text of such an expression, with a semicolon behind it, is read as
the same expression again, down to the digits and the scale of its decimals, and the semicolon
is left. This holds of every expression in a tree that the parser made, at whatever depth, if
and only if no member of an integer literal is accessed in it (`readsBack_iff`).

How tightly the expression was held where it stood does not matter. A printed operand is read
as an expression of its own, and any expression may be (`DerivesExpr.any`).
-/

set_option autoImplicit false

namespace PlcLang.Proofs

open Lexer

/-- An expression that the parser makes of tokens of the lexer: all of what is read as an
expression somewhere in a text, or a part of it, or a part of a program that was read. -/
inductive Parsed (e : Expr Offset) : Prop where
  | ofExpression {text : String} {before tokens rest : List Token} {budget : Nat}
      {whole : Expr Offset} (hlex : tokenize text = .ok (before ++ tokens))
      (hparse : Parser.expression budget tokens = .ok (whole, rest))
      (h : (Node.expression e).Among [.expression whole]) : Parsed e
  | ofProgram {text : String} {tokens : List Token} {program : Program Offset}
      (hlex : tokenize text = .ok tokens) (hparse : parse tokens = .ok program)
      (h : (Node.expression e).Among program.nodes) : Parsed e

/-- The printed expression is read as the expression up to the semicolon behind it, whatever
the budget, if it suffices for the tokens. -/
def ReadsBack (e : Expr Offset) : Prop :=
  ∃ printed semicolon, tokenize (e.format ++ ";") = .ok (printed ++ [semicolon])
    ∧ semicolon.literal = ";"
    ∧ ∀ budget, printed.length < budget → ∃ again, again.bare = e.bare
      ∧ Parser.expression budget (printed ++ [semicolon]) = .ok (again, [semicolon])

/-! ### What was parsed is derived -/

variable {level : Level} {tokens : List Token} {e : Expr Unit}

/-- What derives an expression of some level derives it as an expression of any. By
induction on how tightly the level binds. -/
theorem DerivesExpr.any (h : DerivesExpr level tokens e) : DerivesExpr anyLevel tokens e := by
  have hcomparison (h : DerivesExpr (.operators .comparison) tokens e) :
      DerivesExpr anyLevel tokens e := .operand h
  have hadditive (h : DerivesExpr (.operators .additive) tokens e) :
      DerivesExpr anyLevel tokens e := hcomparison (.operand h)
  have hmultiplicative (h : DerivesExpr (.operators .multiplicative) tokens e) :
      DerivesExpr anyLevel tokens e := hadditive (.operand h)
  have hmembers (h : DerivesExpr .members tokens e) : DerivesExpr anyLevel tokens e :=
    hmultiplicative (.operand h)
  cases level with
  | operators precedence =>
      cases precedence with
      | logical => exact h
      | comparison => exact hcomparison h
      | additive => exact hadditive h
      | multiplicative => exact hmultiplicative h
  | members => exact hmembers h
  | primary => exact hmembers (.simple h)

/-- An expression below nodes that own tokens is derived from some of them. -/
theorem OwnsAll.exists_derives {nodes : List (Node Offset)} {e : Expr Offset}
    (h : OwnsAll tokens nodes) (hread : Readable tokens)
    (hamong : (Node.expression e).Among nodes) :
    ∃ run, Readable run ∧ DerivesExpr anyLevel run e.bare := by
  obtain ⟨before, run, behind, rfl, howns⟩ := h.exists_run hamong
  obtain ⟨level, hderives⟩ := howns.derivesNode
  exact ⟨run, hread.mono fun token htoken => by simp [htoken], hderives.any⟩

/-- An expression that was parsed is derived from readable tokens. -/
theorem Parsed.exists_derives {e : Expr Offset} (h : Parsed e) :
    ∃ run, Readable run ∧ DerivesExpr anyLevel run e.bare := by
  cases h with
  | @ofExpression _ _ _ _ budget _ hlex hparse hamong =>
      have hgenuine := Genuine.right (tokenClass_of_tokenize hlex)
      obtain ⟨used, rfl, hread, howns⟩ := owns_expression budget _ _ _ hgenuine hparse
      exact howns.owns.one.exists_derives hread hamong
  | ofProgram hlex hparse hamong =>
      have hgenuine := tokenClass_of_tokenize hlex
      obtain ⟨rest, hprogram⟩ := parse_eq_ok_iff.mp hparse
      have hread := (derives_of_program hgenuine hprogram).2.1
      exact (ownsAll_of_program hgenuine hprogram).exists_derives hread hamong

/-! ### Printing and reading -/

/-- The text of an expression with a semicolon behind it lexes as the expression and the
semicolon if the expression is plain, and does not lex if it is not. -/
theorem DerivesExpr.tokenize_format (h : DerivesExpr anyLevel tokens e) (hread : Readable tokens) :
    (e.Plain ∧ ∃ printed semicolon, tokenize (e.format ++ ";") = .ok (printed ++ [semicolon])
        ∧ Readable printed ∧ DerivesExpr anyLevel printed e ∧ semicolon.literal = ";")
      ∨ (¬ e.Plain ∧ ∃ error, tokenize (e.format ++ ";") = .error error) := by
  have hsemicolon : Lexes [';'] Anything True (Headed .operator [';'] (· = [])) :=
    lexes_nil.sign ';' (by decide)
  have hlexes := (h.lexes hread).closed.append hsemicolon fun _ _ => boundary_cons rfl
  have htext : (e.format ++ ";").toList = (e.format.toList ++ [';']) ++ [] := by
    rw [String.toList_append, List.append_nil]
    rfl
  rcases hlexes.tokenize_eq htext trivial fun _ => rfl with
    ⟨⟨hplain, -⟩, again, hlex, hagain, hparts⟩ | ⟨hplain, herror⟩
  · obtain ⟨printed, _, rfl, hderives, semicolon, _, rfl, -, hliteral, rfl⟩ := hparts
    exact .inl ⟨hplain, printed, semicolon, hlex, hagain.mono (by simp), hderives, hliteral⟩
  · exact .inr ⟨fun h => hplain ⟨h, trivial⟩, herror⟩

/-- Plainness does not depend on marks. -/
theorem plain_bare (e : Expr Offset) : e.bare.Plain ↔ e.Plain := by
  have hreceiver (s : Expr Offset) : s.bare.hasIntegerReceiver = s.hasIntegerReceiver := by
    have hinteger (r : Expr Offset) : (r.map fun _ => ()).isInteger = r.isInteger := by
      cases r <;> rfl
    cases s with
    | field _ receiver _ => exact hinteger receiver
    | methodCall _ receiver _ _ => exact hinteger receiver
    | _ => rfl
  simp only [Expr.Plain, Expr.bare, Expr.subs_map, List.forall_mem_map]
  exact forall₂_congr fun s _ => by rw [← hreceiver s, Expr.bare]

/-- The text of an expression that was read is read back as the expression, with what comes
behind left alone, if and only if no member of an integer literal is accessed in it. -/
theorem readsBack_iff {e : Expr Offset} (h : Parsed e) : ReadsBack e ↔ e.Plain := by
  obtain ⟨run, hread, hderives⟩ := h.exists_derives
  have hformat : e.bare.format = e.format := Expr.format_map _ e
  have hcut := hderives.tokenize_format hread
  rw [hformat, plain_bare] at hcut
  constructor
  · -- the text of an expression that is not plain does not even lex
    rintro ⟨printed, semicolon, hlex, -⟩
    rcases hcut with ⟨hplain, -⟩ | ⟨-, error, herror⟩
    · exact hplain
    · rw [herror] at hlex
      cases hlex
  · intro hplain
    rcases hcut with ⟨-, printed, semicolon, hlex, hreadable, hprinted, hliteral⟩ | ⟨hnot, -⟩
    · have hstops : Stops anyLevel [semicolon] :=
        stops_of_mem_closers (by rw [hliteral]; decide) anyLevel
      refine ⟨printed, semicolon, hlex, hliteral, fun budget hbudget => ?_⟩
      obtain ⟨again, hbare, hanswers⟩ := hprinted.answers hreadable budget hbudget
      exact ⟨again, hbare, hanswers [semicolon] hstops⟩
    · exact absurd hplain hnot

/-- Members of a decimal literal and of an integer in parentheses are printed as they were
written, and read back. -/
theorem readsBack_decimal_receiver :
    ∃ e : Expr Offset, Parsed e ∧ e.format = "-2.50.k - (1).m" ∧ ReadsBack e := by
  have hlex : tokenize "LET x = -2.50.k -(1).m;" = .ok
      [⟨.identifier, "LET", 0⟩, ⟨.identifier, "x", 4⟩, ⟨.operator, "=", 6⟩,
        ⟨.decimal, "-2.50", 8⟩, ⟨.operator, ".", 13⟩, ⟨.identifier, "k", 14⟩,
        ⟨.operator, "-", 16⟩, ⟨.operator, "(", 17⟩, ⟨.integer, "1", 18⟩, ⟨.operator, ")", 19⟩,
        ⟨.operator, ".", 20⟩, ⟨.identifier, "m", 21⟩, ⟨.operator, ";", 22⟩] := by
    rfl
  have hparse : parse
      [⟨.identifier, "LET", 0⟩, ⟨.identifier, "x", 4⟩, ⟨.operator, "=", 6⟩,
        ⟨.decimal, "-2.50", 8⟩, ⟨.operator, ".", 13⟩, ⟨.identifier, "k", 14⟩,
        ⟨.operator, "-", 16⟩, ⟨.operator, "(", 17⟩, ⟨.integer, "1", 18⟩, ⟨.operator, ")", 19⟩,
        ⟨.operator, ".", 20⟩, ⟨.identifier, "m", 21⟩, ⟨.operator, ";", 22⟩]
      = .ok ⟨[⟨0, "x", none, some (.binary 8 .sub (.field 8 (.decimal 8 ⟨true, 250, -2⟩) "k")
          (.field 17 (.group 17 (.integer 18 1)) "m"))⟩], []⟩ := by
    rfl
  have hparsed : Parsed (.binary 8 .sub (.field 8 (.decimal 8 ⟨true, 250, -2⟩) "k")
      (.field 17 (.group 17 (.integer 18 1)) "m")) :=
    .ofProgram hlex hparse (.inside List.mem_cons_self (.here List.mem_cons_self))
  refine ⟨_, hparsed, rfl, (readsBack_iff hparsed).mpr ?_⟩
  simp [Expr.Plain, Expr.subs, Expr.hasIntegerReceiver, Expr.isInteger]

end PlcLang.Proofs
