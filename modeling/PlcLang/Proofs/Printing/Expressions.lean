import PlcLang.Proofs.Printing.Lexing
import PlcLang.Proofs.Printing.Literals
import PlcLang.Proofs.Syntax.Subexpressions

/-!
# `PlcLang.Proofs.Printing.Expressions`: printed expressions

An expression of the grammar is printed as a text of itself: `DerivesExpr.lexes`
says that the lexer cuts the text into tokens that derive the expression. There
is one exception. In front of a point the printer leaves no space, so that an
integer literal and the point behind it are taken for a decimal. An expression
is `Plain` if no member of an integer literal is accessed in it, and the lexer
fails on the text of any other.

What an expression is followed by matters: `LexesExpr` treats the characters
that come behind a whole expression and the point that comes behind a receiver
apart.
-/

set_option autoImplicit false

namespace PlcLang

/-! ### Integer literals in front of a point -/

namespace Expr

variable {α : Type} {m : α} {e left right : Expr α} {arguments : List (Expr α)} {name : String}

/-- An integer literal. -/
def isInteger : Expr α → Bool
  | integer .. => true
  | _ => false

/-- An access to a member of an integer literal, or a call of one. -/
def hasIntegerReceiver : Expr α → Bool
  | field _ receiver _ | methodCall _ receiver _ _ => receiver.isInteger
  | _ => false

/-- No member of an integer literal is accessed in the expression, at whatever
depth. -/
def Plain (e : Expr α) : Prop :=
  ∀ s ∈ e.subs, s.hasIntegerReceiver = false

/-- No member of an integer literal is accessed in any of the expressions. -/
def PlainAll (list : List (Expr α)) : Prop :=
  ∀ s ∈ subsAll list, s.hasIntegerReceiver = false

/-- An expression with nothing inside it is plain, unless it is such an access
itself. -/
theorem plain_of_subs (h : e.subs = [e]) (hreceiver : e.hasIntegerReceiver = false) :
    e.Plain := by
  rw [Plain, h]
  simpa using hreceiver

/-- Parentheses do not matter. -/
theorem plain_group : (group m e).Plain ↔ e.Plain := by
  simp [Plain, subs, hasIntegerReceiver]

/-- An operator joins plain operands to a plain expression. -/
theorem plain_binary {op : BinaryOp} :
    (binary m op left right).Plain ↔ left.Plain ∧ right.Plain := by
  simp [Plain, subs, hasIntegerReceiver, or_imp, forall_and]

/-- An access is plain if its receiver is plain and no integer literal. -/
theorem plain_field : (field m e name).Plain ↔ e.Plain ∧ e.isInteger = false := by
  simp [Plain, subs, hasIntegerReceiver, and_comm]

/-- A call is plain if its arguments are. -/
theorem plain_call : (call m name arguments).Plain ↔ PlainAll arguments := by
  simp [Plain, PlainAll, subs, hasIntegerReceiver]

/-- A call of a member is plain if its receiver is plain and no integer literal, and
its arguments are plain. -/
theorem plain_methodCall :
    (methodCall m e name arguments).Plain
      ↔ (e.Plain ∧ e.isInteger = false) ∧ PlainAll arguments := by
  simp only [Plain, PlainAll, subs, hasIntegerReceiver, List.forall_mem_cons,
    List.forall_mem_append]
  constructor
  · rintro ⟨hreceiver, hinner, harguments⟩
    exact ⟨⟨hinner, hreceiver⟩, harguments⟩
  · rintro ⟨⟨hinner, hreceiver⟩, harguments⟩
    exact ⟨hreceiver, hinner, harguments⟩

/-- Expressions are plain one by one. -/
theorem plainAll_cons {rest : List (Expr α)} :
    PlainAll (e :: rest) ↔ e.Plain ∧ PlainAll rest := by
  simp only [PlainAll, Plain, subsAll, List.forall_mem_append]

/-- No expressions are plain. -/
theorem plainAll_nil : PlainAll ([] : List (Expr α)) := by
  simp [PlainAll, subsAll]

end Expr

namespace Proofs

open Lexer

/-! ### Leaves -/

/-- How a printed expression of a level lexes: before a boundary, and, if it can
be a receiver, before a point. -/
structure LexesExpr (level : Level) (e : Expr Unit) : Prop where
  closed : Lexes e.format.toList Boundary e.Plain (DerivesExpr level · e)
  receiver : (∀ p, level ≠ .operators p) →
    Lexes e.format.toList PointName (e.Plain ∧ e.isInteger = false) (DerivesExpr level · e)

variable {e : Expr Unit}

/-- An expression that lexes before anything does so before a boundary and before a
point. -/
theorem LexesExpr.of_anything {level : Level}
    (h : Lexes e.format.toList Anything e.Plain (DerivesExpr level · e))
    (hinteger : e.isInteger = false) : LexesExpr level e where
  closed := h.mono (fun _ _ => trivial) Iff.rfl fun _ h => h
  receiver _ := h.mono (fun _ _ => trivial) (by simp [hinteger]) fun _ h => h

/-- An expression that is a single token, and no integer. Such a token ends before a
point as well. -/
theorem LexesExpr.of_token {kind : TokenKind} (hclass : TokenClass kind e.format.toList)
    (hread : kind = .decimal → (Decimal.read? e.format).isSome = true)
    (hkind : kind ≠ .integer) (hplain : e.Plain) (hinteger : e.isInteger = false)
    (hD : ∀ token : Token, token.kind = kind → token.literal = e.format →
      DerivesExpr .primary [token] e) : LexesExpr .primary e := by
  have hread' : kind = .decimal →
      (Decimal.read? (String.ofList e.format.toList)).isSome = true := by
    rwa [String.ofList_toList]
  have hderives : ∀ tokens, Headed kind e.format.toList (· = []) tokens →
      DerivesExpr .primary tokens e := by
    rintro tokens ⟨token, rest, rfl, hk, hl, rfl⟩
    rw [String.ofList_toList] at hl
    exact hD token hk hl
  constructor
  · exact (lexes_token hclass hread' fun _ => ends_of_boundary).mono (fun _ h => h)
      (iff_true_intro hplain) hderives
  · intro _
    exact (lexes_token hclass hread' fun _ h => ends_of_pointName h hkind).mono (fun _ h => h)
      (iff_true_intro ⟨hplain, hinteger⟩) hderives

/-- What a quoted literal stands for is determined by it. -/
theorem QuotedText.unique {mark : Char} {literal text other : List Char}
    (h : QuotedText mark literal text) (hother : QuotedText mark literal other) :
    text = other := by
  -- The parser reads one text off the literal, so the two are the same text.
  have hbody (text : List Char) (h : QuotedText mark (String.ofList literal).toList text) :
      Parser.literalBody (String.ofList literal) = String.ofList text :=
    literalBody_eq h
  rw [String.toList_ofList] at hbody
  exact String.ofList_injective ((hbody text h).symm.trans (hbody other hother))

/-- The text of a name is that of an identifier. -/
theorem tokenClass_of_isName {token : Token} (h : token.isName = true)
    (hclass : TokenClass token.kind token.literal.toList) :
    TokenClass .identifier token.literal.toList := by
  rwa [(isName_iff.mp h).1] at hclass

/-- A token with the kind and the text of a name is a name, wherever it stands. -/
theorem isName_of_eq {token name : Token} (h : name.isName = true)
    (hkind : token.kind = .identifier) (hliteral : token.literal = name.literal) :
    token.isName = true := by
  rw [isName_iff] at h ⊢
  rw [hliteral]
  exact ⟨hkind, h.2⟩

/-- The constant `NIL` is a token. -/
theorem lexesExpr_nil : LexesExpr .primary (.nil ()) := by
  have hword : "NIL" ∈ keywords := by decide
  refine .of_token (tokenClass_of_mem_keywords hword) (by decide) (by decide)
    (Expr.plain_of_subs rfl rfl) rfl ?_
  intro token _ hliteral
  exact .nil hliteral

/-- So are the constants `TRUE` and `FALSE`. -/
theorem lexesExpr_boolean (value : Bool) : LexesExpr .primary (.boolean () value) := by
  have hclass : TokenClass .identifier (Expr.boolean () value).format.toList := by
    have hwords : "TRUE" ∈ keywords ∧ "FALSE" ∈ keywords := by decide
    cases value with
    | true => exact tokenClass_of_mem_keywords hwords.1
    | false => exact tokenClass_of_mem_keywords hwords.2
  refine .of_token hclass (by simp) (by decide) (Expr.plain_of_subs rfl rfl) rfl ?_
  intro token _ hliteral
  exact .boolean hliteral

/-- An integer is a token, sign included. Before a point it does not lex. -/
theorem lexesExpr_integer (value : Int) : LexesExpr .primary (.integer () value) := by
  have hvalue := integerText_toString value
  have hplain : (Expr.integer () value).Plain := Expr.plain_of_subs rfl rfl
  constructor
  · refine (lexes_token (.integer hvalue) (by simp) fun _ => ends_of_boundary).mono
      (fun _ h => h) (iff_true_intro hplain) ?_
    rintro tokens ⟨token, rest, rfl, hkind, hliteral, rfl⟩
    refine .integer hkind ?_
    rw [hliteral, String.toList_ofList]
    exact hvalue
  · intro _
    -- The one leaf that may not stand before a point.
    exact (lexes_integer_pointName hvalue _).mono (fun _ h => h)
      (iff_false_intro fun h => absurd h.2 (by simp [Expr.isInteger])) fun _ h => h

/-- A decimal is a token if a literal stands for it, and it can be read again if it
is in reach. -/
theorem lexesExpr_decimal {value : Decimal} {literal : List Char}
    (hvalue : DecimalText literal value) (hreach : value.inReach = true) :
    LexesExpr .primary (.decimal () value) := by
  have hprinted : DecimalText (Expr.decimal () value).format.toList value :=
    decimalText_plain hvalue.exponent_neg
  refine .of_token (.decimal hprinted) (fun _ => ?_) (by decide) (Expr.plain_of_subs rfl rfl) rfl ?_
  · rw [read?_eq hprinted, if_pos hreach]
    rfl
  · intro token hkind hliteral
    refine .decimal hkind ?_
    rw [hliteral]
    exact hprinted

/-- A character is a token if it is no backslash. -/
theorem lexesExpr_character {c : Char} (hslash : c ≠ '\\') :
    LexesExpr .primary (.character () (String.ofList [c])) := by
  have hprinted : QuotedText '\'' (Expr.character () (String.ofList [c])).format.toList [c] :=
    quotedText_quote (.inl rfl) (by simpa using Ne.symm hslash)
  refine .of_token (.character hprinted) (by simp) (by decide) (Expr.plain_of_subs rfl rfl) rfl ?_
  intro token hkind hliteral
  refine .character hkind ?_
  rw [hliteral]
  exact hprinted

/-- A string is a token if it has no backslash. -/
theorem lexesExpr_string {text : List Char} (hslash : '\\' ∉ text) :
    LexesExpr .primary (.string () (String.ofList text)) := by
  have hprinted : QuotedText '"' (Expr.string () (String.ofList text)).format.toList text :=
    quotedText_quote (.inr rfl) hslash
  refine .of_token (.string hprinted) (by simp) (by decide) (Expr.plain_of_subs rfl rfl) rfl ?_
  intro token hkind hliteral
  refine .string hkind ?_
  rw [hliteral]
  exact hprinted

/-- A name is a token. -/
theorem lexesExpr_var {name : Token} (hname : name.isName = true)
    (hclass : TokenClass name.kind name.literal.toList) :
    LexesExpr .primary (.var () name.literal) := by
  refine .of_token (tokenClass_of_isName hname hclass) (by simp) (by decide)
    (Expr.plain_of_subs rfl rfl) rfl ?_
  intro token hkind hliteral
  have hliteral : token.literal = name.literal := hliteral
  rw [← hliteral]
  exact .var (isName_of_eq hname hkind hliteral)

/-! ### Operators and member accesses -/

/-- Parentheses around an expression of any level. Behind the closing one anything
may stand. -/
theorem LexesExpr.group (h : LexesExpr anyLevel e) : LexesExpr .primary (.group () e) := by
  have htext : (Expr.group () e).format.toList = '(' :: (e.format.toList ++ [')']) := by
    simp [Expr.format, String.toList_append]
  have hclosing : Lexes [')'] Anything True (Headed .operator [')'] (· = [])) :=
    lexes_nil.sign ')' (by decide)
  refine .of_anything ?_ rfl
  rw [htext]
  refine ((h.closed.append hclosing fun _ _ => boundary_cons rfl).sign '(' (by decide)).mono
    (fun _ h => h) (by rw [Expr.plain_group, and_true]) ?_
  rintro tokens ⟨left, rest, rfl, -, hleft, first, second, rfl, hinner, right, _, rfl, -, hright,
    rfl⟩
  exact .group hleft hinner hright

/-- An operand alone is an expression of the level of its operators. -/
theorem LexesExpr.operand {p : Precedence} (h : LexesExpr (operandLevel p) e) :
    LexesExpr (.operators p) e where
  closed := h.closed.mono (fun _ h => h) Iff.rfl fun _ h => .operand h
  receiver hlevel := absurd rfl (hlevel p)

/-- A primary expression without member accesses behind it. -/
theorem LexesExpr.simple (h : LexesExpr .primary e) : LexesExpr .members e where
  closed := h.closed.mono (fun _ h => h) Iff.rfl fun _ h => .simple h
  receiver _ := (h.receiver fun _ h => by cases h).mono (fun _ h => h) Iff.rfl fun _ h => .simple h

/-- The text of an operator is a token: a sign or a word. -/
theorem exists_tokenClass_symbol {op : BinaryOp} {p : Precedence} (h : op.precedence? = some p) :
    ∃ kind, TokenClass kind op.symbol.toList ∧ kind ≠ .decimal := by
  cases op with
  | other => simp [BinaryOp.precedence?] at h
  | and | or => exact ⟨.identifier, tokenClass_of_mem_keywords (by decide), by decide⟩
  | equal | notEqual | lessEqual | greaterEqual =>
      exact ⟨.operator, .comparison (by decide), by decide⟩
  | less | greater | add | sub | mul | div =>
      exact ⟨.operator, .symbol (by decide), by decide⟩

/-- Two operands with spaces around the operator. A sign in front of a number is
kept from it by the space. -/
theorem LexesExpr.binary {p : Precedence} {op : BinaryOp} {left right : Expr Unit}
    (hleft : LexesExpr (.operators p) left) (hp : op.precedence? = some p)
    (hright : LexesExpr (operandLevel p) right) :
    LexesExpr (.operators p) (.binary () op left right) := by
  obtain ⟨kind, hclass, hkind⟩ := exists_tokenClass_symbol hp
  have htext : (Expr.binary () op left right).format.toList
      = left.format.toList ++ ' ' :: (op.symbol.toList ++ ' ' :: right.format.toList) := by
    simp [Expr.format, String.toList_append]
  have hbehind : Lexes (' ' :: (op.symbol.toList ++ ' ' :: right.format.toList)) Boundary
      right.Plain (Headed kind op.symbol.toList (DerivesExpr (operandLevel p) · right)) :=
    ((hright.closed.space rfl).token hclass hkind fun _ _ =>
      ends_of_boundary (boundary_cons rfl)).space rfl
  constructor
  · rw [htext]
    refine (hleft.closed.append hbehind fun _ _ => boundary_cons rfl).mono (fun _ h => h)
      Expr.plain_binary ?_
    rintro tokens ⟨first, _, rfl, hfirst, token, second, rfl, -, hsymbol, hsecond⟩
    rw [String.ofList_toList] at hsymbol
    exact .binary hfirst ⟨hsymbol, hp⟩ hsecond
  · intro hlevel
    exact absurd rfl (hlevel p)

/-- A point and a name come behind a receiver. -/
theorem pointName_cons {name : Token} (hname : name.isName = true)
    (hclass : TokenClass name.kind name.literal.toList) (tail : List Char) :
    PointName ('.' :: (name.literal.toList ++ tail)) := by
  have hclass := tokenClass_of_isName hname hclass
  generalize name.literal.toList = literal at hclass
  cases hclass with
  | identifier hstart _ => exact ⟨_, _, rfl, hstart⟩

/-- An access: the receiver, a point and a name. It lexes if the receiver does so
before a point. -/
theorem LexesExpr.field {name : Token} (h : LexesExpr .members e) (hname : name.isName = true)
    (hclass : TokenClass name.kind name.literal.toList) :
    LexesExpr .members (.field () e name.literal) := by
  have hidentifier := tokenClass_of_isName hname hclass
  have hreceiver := h.receiver fun _ h => by cases h
  have htext : (Expr.field () e name.literal).format.toList
      = e.format.toList ++ '.' :: name.literal.toList := by
    simp [Expr.format, String.toList_append]
  have hpoint (tail : List Char) : PointName (('.' :: name.literal.toList) ++ tail) :=
    pointName_cons hname hclass tail
  -- Before a boundary and before a point the text lexes for the same reason:
  -- it ends in a name, which neither of them goes on.
  have hboth (follow : List Char → Prop)
      (hends : ∀ tail, follow tail → Ends .identifier name.literal.toList tail) :
      Lexes (Expr.field () e name.literal).format.toList follow
        (Expr.field () e name.literal).Plain
        (DerivesExpr .members · (.field () e name.literal)) := by
    have hbehind := (lexes_token hidentifier (by simp) hends).sign '.' (by decide)
    rw [htext]
    refine (hreceiver.append hbehind fun tail _ => hpoint tail).mono (fun _ h => h)
      (by rw [Expr.plain_field, and_true]) ?_
    rintro tokens ⟨first, _, rfl, hfirst, point, _, rfl, -, hp, token, _, rfl, hk, hl, rfl⟩
    rw [String.ofList_toList] at hl
    rw [← hl]
    exact .field hfirst hp (isName_of_eq hname hk hl)
  constructor
  · exact hboth Boundary fun _ => ends_of_boundary
  · intro _
    refine (hboth PointName fun _ h => ends_of_pointName h (by decide)).mono (fun _ h => h) ?_
      fun _ h => h
    exact and_iff_left rfl

/-- The text of the arguments of a call behind its opening parenthesis. -/
def argumentsText (list : List (Expr Unit)) : List Char :=
  (", ".intercalate (Expr.formatAll list)).toList ++ [')']

/-- A call of a member: the receiver, a point, a name and the arguments. -/
theorem LexesExpr.methodCall {name : Token} {list : List (Expr Unit)} (h : LexesExpr .members e)
    (hname : name.isName = true) (hclass : TokenClass name.kind name.literal.toList)
    (harguments : Lexes (argumentsText list) Anything (Expr.PlainAll list)
      (DerivesArguments · list)) :
    LexesExpr .members (.methodCall () e name.literal list) := by
  have hidentifier := tokenClass_of_isName hname hclass
  have hreceiver := h.receiver fun _ h => by cases h
  have htext : (Expr.methodCall () e name.literal list).format.toList
      = e.format.toList ++ '.' :: (name.literal.toList ++ '(' :: argumentsText list) := by
    simp [Expr.format, argumentsText, String.toList_append]
  have hcalled := (harguments.sign '(' (by decide)).token hidentifier (by decide)
    fun _ _ => ends_of_boundary (boundary_cons rfl)
  have hpoint (tail : List Char) :
      PointName (('.' :: (name.literal.toList ++ '(' :: argumentsText list)) ++ tail) := by
    rw [List.cons_append, List.append_assoc]
    exact pointName_cons hname hclass _
  refine .of_anything ?_ rfl
  rw [htext]
  refine (hreceiver.append (hcalled.sign '.' (by decide)) fun tail _ => hpoint tail).mono
    (fun _ h => h) Expr.plain_methodCall ?_
  rintro tokens ⟨first, _, rfl, hfirst, point, _, rfl, -, hp, token, _, rfl, hk, hl, paren, behind,
    rfl, -, hparen, hbehind⟩
  rw [String.ofList_toList] at hl
  rw [← hl]
  exact .methodCall hfirst hp (isName_of_eq hname hk hl) hparen hbehind

/-- A call of a method of the program: a name and the arguments. -/
theorem lexesExpr_call {name : Token} {list : List (Expr Unit)} (hname : name.isName = true)
    (hclass : TokenClass name.kind name.literal.toList)
    (harguments : Lexes (argumentsText list) Anything (Expr.PlainAll list)
      (DerivesArguments · list)) :
    LexesExpr .primary (.call () name.literal list) := by
  have hidentifier := tokenClass_of_isName hname hclass
  have htext : (Expr.call () name.literal list).format.toList
      = name.literal.toList ++ '(' :: argumentsText list := by
    simp [Expr.format, argumentsText, String.toList_append]
  have hcalled := (harguments.sign '(' (by decide)).token hidentifier (by decide)
    fun _ _ => ends_of_boundary (boundary_cons rfl)
  refine .of_anything ?_ rfl
  rw [htext]
  refine hcalled.mono (fun _ h => h) Expr.plain_call ?_
  rintro tokens ⟨token, _, rfl, hk, hl, paren, behind, rfl, -, hparen, hbehind⟩
  rw [String.ofList_toList] at hl
  rw [← hl]
  exact .call (isName_of_eq hname hk hl) hparen hbehind

/-! ### Arguments -/

/-- No arguments are a closing parenthesis. -/
theorem lexes_noArguments :
    Lexes (argumentsText []) Anything (Expr.PlainAll ([] : List (Expr Unit)))
      (DerivesArguments · []) := by
  have hclosing : Lexes [')'] Anything True (Headed .operator [')'] (· = [])) :=
    lexes_nil.sign ')' (by decide)
  refine hclosing.mono (fun _ h => h) (iff_true_intro Expr.plainAll_nil) ?_
  rintro tokens ⟨paren, _, rfl, -, hparen, rfl⟩
  exact .none hparen

/-- The text of a series of expressions with commas between them. -/
def seriesText (list : List (Expr Unit)) : List Char :=
  (", ".intercalate (Expr.formatAll list)).toList

/-- The text of one expression has no comma. -/
theorem seriesText_singleton (e : Expr Unit) : seriesText [e] = e.format.toList := by
  rw [seriesText, Expr.formatAll, Expr.formatAll, String.intercalate_singleton]

/-- The text of more expressions comes behind a comma and a space. -/
theorem seriesText_cons {list : List (Expr Unit)} (hne : list ≠ []) (e : Expr Unit) :
    seriesText (e :: list) = e.format.toList ++ ',' :: ' ' :: seriesText list := by
  have hne' : Expr.formatAll list ≠ [] := by
    cases list with
    | nil => exact absurd rfl hne
    | cons => simp [Expr.formatAll]
  rw [seriesText, Expr.formatAll, String.intercalate_cons_of_ne_nil hne', seriesText]
  simp [String.toList_append]

/-- Arguments are a series of expressions and a closing parenthesis, behind which
anything may stand. -/
theorem lexes_arguments {list : List (Expr Unit)}
    (h : Lexes (seriesText list) Boundary (Expr.PlainAll list) (DerivesSeries · list)) :
    Lexes (argumentsText list) Anything (Expr.PlainAll list) (DerivesArguments · list) := by
  have hclosing : Lexes [')'] Anything True (Headed .operator [')'] (· = [])) :=
    lexes_nil.sign ')' (by decide)
  refine (h.append hclosing fun _ _ => boundary_cons rfl).mono (fun _ h => h)
    (by rw [and_true]) ?_
  rintro tokens ⟨first, _, rfl, hfirst, paren, _, rfl, -, hparen, rfl⟩
  exact .some hfirst hparen

/-- A series of one expression. -/
theorem lexes_series_one (h : LexesExpr anyLevel e) :
    Lexes (seriesText [e]) Boundary (Expr.PlainAll [e]) (DerivesSeries · [e]) := by
  rw [seriesText_singleton]
  refine h.closed.mono (fun _ h => h) ?_ fun _ h => .one h
  rw [Expr.plainAll_cons]
  exact and_iff_left Expr.plainAll_nil

/-- A series that goes on behind a comma. -/
theorem lexes_series_more {list : List (Expr Unit)} (h : LexesExpr anyLevel e) (hne : list ≠ [])
    (hrest : Lexes (seriesText list) Boundary (Expr.PlainAll list) (DerivesSeries · list)) :
    Lexes (seriesText (e :: list)) Boundary (Expr.PlainAll (e :: list))
      (DerivesSeries · (e :: list)) := by
  rw [seriesText_cons hne]
  have hspace : isSpace ' ' = true := rfl
  have hbehind := (hrest.space hspace).sign ',' (by decide)
  refine (h.closed.append hbehind fun _ _ => boundary_cons rfl).mono (fun _ h => h)
    Expr.plainAll_cons ?_
  rintro tokens ⟨first, _, rfl, hfirst, comma, behind, rfl, -, hcomma, hbehind⟩
  exact .more hfirst hcomma hbehind

/-! ### All expressions -/

/-- A series has an expression in it. -/
theorem DerivesSeries.ne_nil {tokens : List Token} {list : List (Expr Unit)}
    (h : DerivesSeries tokens list) : list ≠ [] := by
  cases h <;> simp

mutual

/-- The text of an expression lexes as the expression if it is plain, and does not
lex otherwise. By induction on the derivation. -/
theorem DerivesExpr.lexes {level : Level} {tokens : List Token} {e : Expr Unit} :
    DerivesExpr level tokens e → Readable tokens → LexesExpr level e
  | .operand h, hread => (h.lexes hread).operand
  | .binary hleft hop hright, hread =>
      (hleft.lexes (hread.mono (by simp))).binary hop.precedence
        (hright.lexes (hread.mono fun t ht => by simp [ht]))
  | .simple h, hread => (h.lexes hread).simple
  | .field hreceiver _ hname, hread =>
      (hreceiver.lexes (hread.mono (by simp))).field hname (hread.genuine _ (by simp))
  | .methodCall hreceiver _ hname _ harguments, hread =>
      (hreceiver.lexes (hread.mono (by simp))).methodCall hname (hread.genuine _ (by simp))
        (harguments.lexes (hread.mono fun t ht => by simp [ht]))
  | .nil _, _ => lexesExpr_nil
  | .boolean _, _ => lexesExpr_boolean _
  | .integer _ _, _ => lexesExpr_integer _
  | .decimal hkind hvalue, hread => by
      have hsome := hread.decimals _ (by simp) hkind
      rw [read?_eq hvalue] at hsome
      refine lexesExpr_decimal hvalue ?_
      -- The decimal has been read before, so its digits are in reach.
      split at hsome
      · assumption
      · simp at hsome
  | .character hkind htext, hread => by
      have hclass := hread.genuine _ (List.mem_singleton_self _)
      rw [hkind] at hclass
      cases hclass with
      | character h =>
          -- The grammar gives some text and the class of the token a single
          -- character; they belong to the same literal.
          obtain rfl := htext.unique h
          exact lexesExpr_character (Ne.symm (List.ne_of_not_mem_cons h.not_mem))
  | .string _ htext, _ => lexesExpr_string htext.not_mem
  | .var hname, hread => lexesExpr_var hname (hread.genuine _ (by simp))
  | .call hname _ harguments, hread =>
      lexesExpr_call hname (hread.genuine _ (by simp))
        (harguments.lexes (hread.mono fun t ht => by simp [ht]))
  | .group _ hinner _, hread => (hinner.lexes (hread.mono fun t ht => by simp [ht])).group

/-- The text of the arguments of a call lexes as the arguments if all of them are
plain, and does not lex otherwise. -/
theorem DerivesArguments.lexes {tokens : List Token} {list : List (Expr Unit)} :
    DerivesArguments tokens list → Readable tokens →
      Lexes (argumentsText list) Anything (Expr.PlainAll list) (DerivesArguments · list)
  | .none _, _ => lexes_noArguments
  | .some harguments _, hread => lexes_arguments (harguments.lexes (hread.mono (by simp)))

/-- The text of a series of expressions lexes as the series if all of them are
plain, and does not lex otherwise. -/
theorem DerivesSeries.lexes {tokens : List Token} {list : List (Expr Unit)} :
    DerivesSeries tokens list → Readable tokens →
      Lexes (seriesText list) Boundary (Expr.PlainAll list) (DerivesSeries · list)
  | .one h, hread => lexes_series_one (h.lexes hread)
  | .more h _ hrest, hread =>
      lexes_series_more (h.lexes (hread.mono (by simp))) hrest.ne_nil
        (hrest.lexes (hread.mono fun t ht => by simp [ht]))

end

end Proofs

end PlcLang
