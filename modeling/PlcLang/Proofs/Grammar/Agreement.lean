import PlcLang.Proofs.Grammar.Completeness
import PlcLang.Proofs.Lexical.Segmentation

/-!
# `PlcLang.Proofs.Grammar.Agreement`: the parser and the grammar

What the parser makes of the tokens of a text is what they derive:

* `parse_eq_ok_iff_readable`: it answers with a tree if and only if the tokens
  derive the tree and all their decimals can be read.
* `parse_eq_ok_iff_derives`: where the numbers are not absurdly long they can
  be read, and the parser accepts exactly the grammar. Tokens derive at most
  one tree, and all of them are read.
-/

set_option autoImplicit false

namespace PlcLang.Proofs

/-- The parser answers with what the program parser makes, once all tokens are
read. -/
theorem parse_eq_ok_iff {tokens : List Token} {program : Program Offset} :
    parse tokens = .ok program
      ↔ ∃ rest, (Parser.program (tokens.length + 1)).run tokens = .ok (program, rest) := by
  rw [parse]
  cases (Parser.program (tokens.length + 1)).run tokens with
  | error obstacle => simp
  | ok answer => cases answer; simp

/-- The parser makes a tree of genuine tokens if and only if they derive it and
can be read. -/
theorem parse_eq_ok_iff_readable {tokens : List Token} (hgenuine : Genuine tokens)
    {T : Program Unit} :
    (∃ program, parse tokens = .ok program ∧ program.bare = T)
      ↔ Readable tokens ∧ Derives tokens T := by
  constructor
  · rintro ⟨program, hparse, rfl⟩
    obtain ⟨rest, hprogram⟩ := parse_eq_ok_iff.mp hparse
    exact (derives_of_program hgenuine hprogram).2
  · rintro ⟨hread, h⟩
    obtain ⟨program, hbare, hprogram⟩ := h.exists_program hread (Nat.lt_succ_self tokens.length)
    exact ⟨program, parse_eq_ok_iff.mpr ⟨[], hprogram⟩, hbare⟩

/-- No number has more than this many digits. The sign and the point are not
counted. -/
def NumbersWithin (digits : Nat) (tokens : List Token) : Prop :=
  ∀ token ∈ tokens, token.kind = .integer ∨ token.kind = .decimal →
    digitCount token.literal.toList ≤ digits

/-- Whether numbers are so short can be counted. -/
instance (digits : Nat) (tokens : List Token) : Decidable (NumbersWithin digits tokens) :=
  inferInstanceAs (Decidable (∀ token ∈ tokens,
    token.kind = .integer ∨ token.kind = .decimal → digitCount token.literal.toList ≤ digits))

/-- The tokens of a text can be read, if its numbers are not too long: integers have
no other limit, and the digits of such decimals are within reach. -/
theorem readable_of_numbersWithin {tokens : List Token} (hgenuine : Genuine tokens)
    (hshort : NumbersWithin 4300 tokens) : Readable tokens := by
  refine ⟨hgenuine, fun token htoken hkind => ?_⟩
  have hclass := hgenuine token htoken
  rw [hkind] at hclass
  obtain ⟨value, hvalue⟩ : ∃ value, DecimalText token.literal.toList value := by
    cases hclass with
    | decimal h => exact ⟨_, h⟩
  have hcount := hshort token htoken (.inr hkind)
  have hreach := inReach_of_digitCount hvalue (by omega)
  rw [read?_eq hvalue, if_pos hreach]
  rfl

/-- The parser accepts exactly its grammar: it makes a tree of the tokens of a
text if and only if they derive it. Tokens derive at most one tree, and when the
parser answers it has read all of them. -/
theorem parse_eq_ok_iff_derives {text : String} {tokens : List Token}
    (hlex : tokenize text = .ok tokens) (hshort : NumbersWithin 4300 tokens) :
    (∀ T : Program Unit,
        (∃ program, parse tokens = .ok program ∧ program.bare = T) ↔ Derives tokens T)
      ∧ (∀ T U : Program Unit, Derives tokens T → Derives tokens U → T = U)
      ∧ ∀ program rest,
          (Parser.program (tokens.length + 1)).run tokens = .ok (program, rest) → rest = [] := by
  have hgenuine : Genuine tokens := tokenClass_of_tokenize hlex
  have hread := readable_of_numbersWithin hgenuine hshort
  -- Everything follows from the agreement on one tree: two trees of the same
  -- tokens are the two answers of one parser.
  have hagree (T : Program Unit) :
      (∃ program, parse tokens = .ok program ∧ program.bare = T) ↔ Derives tokens T := by
    rw [parse_eq_ok_iff_readable hgenuine]
    exact and_iff_right hread
  refine ⟨hagree, fun T U hT hU => ?_, fun program rest h => ?_⟩
  · obtain ⟨program, hprogram, rfl⟩ := (hagree T).mpr hT
    obtain ⟨other, hother, rfl⟩ := (hagree U).mpr hU
    rw [hprogram] at hother
    rw [Except.ok.inj hother]
  · exact (derives_of_program hgenuine h).1

/-- The tokens of a field whose value needs both precedence and grouping derive
it. -/
theorem derives_field_of_difference :
    ∃ tokens, tokenize "LET x = -1 - (y + 2.50) * z.n;" = .ok tokens ∧ NumbersWithin 4300 tokens
      ∧ Derives tokens ⟨[⟨(), "x", none, some (.binary () .sub (.integer () (-1))
          (.binary () .mul
            (.group () (.binary () .add (.var () "y") (.decimal () ⟨false, 250, -2⟩)))
            (.field () (.var () "z") "n")))⟩], []⟩ := by
  have hlex : tokenize "LET x = -1 - (y + 2.50) * z.n;" = .ok
      [⟨.identifier, "LET", 0⟩, ⟨.identifier, "x", 4⟩, ⟨.operator, "=", 6⟩, ⟨.integer, "-1", 8⟩,
        ⟨.operator, "-", 11⟩, ⟨.operator, "(", 13⟩, ⟨.identifier, "y", 14⟩, ⟨.operator, "+", 16⟩,
        ⟨.decimal, "2.50", 18⟩, ⟨.operator, ")", 22⟩, ⟨.operator, "*", 24⟩,
        ⟨.identifier, "z", 26⟩, ⟨.operator, ".", 27⟩, ⟨.identifier, "n", 28⟩,
        ⟨.operator, ";", 29⟩] := by
    rfl
  exact ⟨_, hlex, by decide, ((parse_eq_ok_iff_derives hlex (by decide)).1 _).mp ⟨_, rfl, rfl⟩⟩

end PlcLang.Proofs
