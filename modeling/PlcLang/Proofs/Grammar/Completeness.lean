import PlcLang.Proofs.Grammar.Soundness

/-!
# `PlcLang.Proofs.Grammar.Completeness`: what is derived the parser reads

The other direction. A derivation is followed from its leaves to its root, and
at each step the parser that is named for the symbol reads exactly the tokens
of the derivation, whatever comes behind them.

Two things have to be said about what comes behind. A parser of expressions
goes on as long as it can, so the next token must not be one that goes on an
expression of that level (`Stops`). And a left recursive rule puts its tokens
behind an expression of the same level, where the loop of the parser has come
half way: for chains the statement is that after the tokens the loop still has
the rest to do (`Runs`), and `Runs.stops` ends the loop.

Budgets are counted in tokens: each parser reads every derivation that has no
more tokens than its budget.
-/

set_option autoImplicit false

namespace PlcLang.Proofs

open PlcLang.Parser

/-! ### The first token -/

/-- What the first token of an expression is: one of three words, a literal, a name,
or a parenthesis. -/
inductive StartsExpr (token : Token) : Prop where
  | word (h : token.literal = "NIL" ∨ token.literal = "TRUE" ∨ token.literal = "FALSE")
  | literal (hname : token.kind ≠ .identifier) (hsign : token.kind ≠ .operator)
  | name (h : token.isName = true)
  | group (h : token.literal = "(")

/-- The words and signs that the first token of an expression is not. By these the
parser decides where a list of expressions ends and what a statement is. -/
def notFirst : List String :=
  [")", ",", ";", ":", "=", "LET", "DEF", "DO", "END", "IF", "ELSE", "FOR", "WHILE", "RETURN"]

/-- The first token of an expression is none of the others. -/
theorem StartsExpr.not_mem {token : Token} (h : StartsExpr token)
    (hclass : TokenClass token.kind token.literal.toList) : token.literal ∉ notFirst := by
  intro hmem
  cases h with
  | word h => rcases h with h | h | h <;> simp [h, notFirst] at hmem
  | group h => simp [h, notFirst] at hmem
  | literal hname hsign =>
      have hsplit : ∀ word ∈ notFirst, word ∈ keywords ∨ word ∈ punctuation := by decide
      rcases hsplit _ hmem with h | h
      · exact hname (kind_of_mem_keywords hclass h)
      · exact hsign (kind_of_mem_punctuation hclass h)
  | name h =>
      have hsplit : ∀ word ∈ notFirst, word ∈ keywords ∨ word ∈ punctuation := by decide
      -- A keyword is no name, and a sign has another kind than a name has.
      obtain ⟨hkind, hkeyword⟩ := isName_iff.mp h
      rcases hsplit _ hmem with hword | hsign
      · exact hkeyword hword
      · rw [kind_of_mem_punctuation hclass hsign] at hkind
        exact absurd hkind (by decide)

/-- An expression is not empty, and its first token starts an expression. By
induction on the derivation: chains begin like their first part. -/
theorem DerivesExpr.exists_cons {level : Level} {tokens : List Token} {e : Expr Unit} :
    DerivesExpr level tokens e → ∃ token more, tokens = token :: more ∧ StartsExpr token
  | .operand h => h.exists_cons
  | .binary hleft _ _ => by
      obtain ⟨token, more, rfl, hstart⟩ := hleft.exists_cons
      exact ⟨token, _, rfl, hstart⟩
  | .simple h => h.exists_cons
  | .field hreceiver _ _ => by
      obtain ⟨token, more, rfl, hstart⟩ := hreceiver.exists_cons
      exact ⟨token, _, rfl, hstart⟩
  | .methodCall hreceiver _ _ _ _ => by
      obtain ⟨token, more, rfl, hstart⟩ := hreceiver.exists_cons
      exact ⟨token, _, rfl, hstart⟩
  | .nil h => ⟨_, _, rfl, .word (.inl h)⟩
  | @DerivesExpr.boolean _ value h =>
      ⟨_, _, rfl, .word (.inr (by cases value <;> simp_all))⟩
  | .integer hkind _ => ⟨_, _, rfl, .literal (by simp [hkind]) (by simp [hkind])⟩
  | .decimal hkind _ => ⟨_, _, rfl, .literal (by simp [hkind]) (by simp [hkind])⟩
  | .character hkind _ => ⟨_, _, rfl, .literal (by simp [hkind]) (by simp [hkind])⟩
  | .string hkind _ => ⟨_, _, rfl, .literal (by simp [hkind]) (by simp [hkind])⟩
  | .var hname => ⟨_, _, rfl, .name hname⟩
  | .call hname _ _ => ⟨_, _, rfl, .name hname⟩
  | .group hleft _ _ => ⟨_, _, rfl, .group hleft⟩

/-- An expression has a token. -/
theorem DerivesExpr.length_pos {level : Level} {tokens : List Token} {e : Expr Unit}
    (h : DerivesExpr level tokens e) : 0 < tokens.length := by
  obtain ⟨token, more, rfl, -⟩ := h.exists_cons
  exact Nat.succ_pos _

/-- A series of expressions begins like its first one. -/
theorem DerivesSeries.exists_cons {tokens : List Token} {list : List (Expr Unit)}
    (h : DerivesSeries tokens list) :
    ∃ token more, tokens = token :: more ∧ StartsExpr token := by
  cases h with
  | one h => exact h.exists_cons
  | more h _ _ =>
      obtain ⟨token, more, rfl, hstart⟩ := h.exists_cons
      exact ⟨token, _, rfl, hstart⟩

/-! ### Where an expression stops -/

/-- How tightly operators of a precedence bind, in numbers, so that precedences can
be compared. -/
def tightness : Precedence → Nat
  | .logical => 0
  | .comparison => 1
  | .additive => 2
  | .multiplicative => 3

/-- The token goes on an expression of that level. A parenthesis behind a name
makes a call of it, a point goes on member accesses, and an operator goes on
the operands of those that bind no tighter. -/
def GoesOnExpr (token : Token) : Level → Prop
  | .primary => token.literal = "("
  | .members => token.literal = "(" ∨ token.literal = "."
  | .operators p =>
    token.literal = "(" ∨ token.literal = "."
      ∨ ∃ q, (BinaryOp.ofSymbol token.literal).precedence? = some q ∧ tightness p ≤ tightness q

/-- An expression of that level stops before `rest`: the next token, if there is
one, does not go on with it. -/
def Stops (level : Level) (rest : List Token) : Prop :=
  ∀ token ∈ rest.head?, ¬ GoesOnExpr token level

variable {rest : List Token} {token : Token}

/-- What stops operands stops each of them, since operators that bind tighter go on
with operands as well. -/
theorem Stops.operand {p : Precedence} (h : Stops (.operators p) rest) :
    Stops (operandLevel p) rest := by
  intro token htoken hgoes
  refine h token htoken ?_
  cases p with
  | multiplicative =>
      rcases hgoes with hparen | hpoint
      · exact .inl hparen
      · exact .inr (.inl hpoint)
  | logical | comparison | additive =>
      rcases hgoes with hparen | hpoint | ⟨q, hq, hle⟩
      · exact .inl hparen
      · exact .inr (.inl hpoint)
      · refine .inr (.inr ⟨q, hq, ?_⟩)
        simp only [tightness] at hle ⊢
        omega

/-- What stops member accesses stops the receiver. -/
theorem Stops.receiver (h : Stops .members rest) : Stops .primary rest :=
  fun token htoken hgoes => h token htoken (.inl hgoes)

/-- Behind an expression there is one of these, wherever the grammar has an
expression. -/
def closers : List String :=
  [")", ",", ";", "=", "DO"]

/-- Any expression stops before one of them. -/
theorem stops_of_mem_closers (h : token.literal ∈ closers) (level : Level) :
    Stops level (token :: rest) := by
  intro other hother hgoes
  obtain rfl : token = other := by simpa using hother
  -- The words are few, so what they are not is looked up for each of them.
  have hwords : ∀ word ∈ closers, word ≠ "(" ∧ word ≠ "."
      ∧ (BinaryOp.ofSymbol word).precedence? = none := by decide
  obtain ⟨hparen, hpoint, hnone⟩ := hwords _ h
  cases level with
  | primary => exact hparen hgoes
  | members => exact hgoes.elim hparen hpoint
  | operators p =>
      rcases hgoes with h | h | ⟨q, hq, -⟩
      · exact hparen h
      · exact hpoint h
      · rw [hnone] at hq
        exact absurd hq (by simp)

/-- The operator of the text of an operator is the operator. -/
theorem ofSymbol_symbol {op : BinaryOp} {p : Precedence} (h : op.precedence? = some p) :
    BinaryOp.ofSymbol op.symbol = op := by
  cases op with
  | other => simp [BinaryOp.precedence?] at h
  | _ => rfl

/-- An operand stops before an operator of its chain, which binds less tightly. -/
theorem stops_of_isOperator {p : Precedence} {op : BinaryOp} (h : IsOperator p token op) :
    Stops (operandLevel p) (token :: rest) := by
  intro other hother hgoes
  obtain rfl : token = other := by simpa using hother
  obtain ⟨hsymbol, hp⟩ := h
  have hsign : op.symbol ≠ "(" ∧ op.symbol ≠ "." := by
    cases op with
    | other => simp [BinaryOp.precedence?] at hp
    | _ => decide
  cases p with
  | multiplicative =>
      rw [operandLevel, GoesOnExpr, hsymbol] at hgoes
      exact hgoes.elim hsign.1 hsign.2
  | logical | comparison | additive =>
      rw [operandLevel, GoesOnExpr, hsymbol, ofSymbol_symbol hp, hp] at hgoes
      rcases hgoes with h | h | ⟨q, hq, hle⟩
      · exact hsign.1 h
      · exact hsign.2 h
      · cases hq
        simp [tightness] at hle

/-- A receiver stops before a point. -/
theorem stops_of_point (h : token.literal = ".") : Stops .primary (token :: rest) := by
  intro other hother hgoes
  obtain rfl : token = other := by simpa using hother
  rw [GoesOnExpr, h] at hgoes
  exact absurd hgoes (by decide)

/-! ### The parser of a level -/

/-- The parser of the expressions of a level, with so much left for those
inside them. -/
def levelParser (budget : Nat) : Level → Parser (Expr Offset)
  | .primary => primary (expression budget) (budget + 1)
  | .members => postfixChain (expression budget) (budget + 1)
  | .operators .multiplicative =>
    operands .multiplicative (budget + 1) <| postfixChain (expression budget) (budget + 1)
  | .operators .additive =>
    operands .additive (budget + 1) <| operands .multiplicative (budget + 1) <|
    postfixChain (expression budget) (budget + 1)
  | .operators .comparison =>
    operands .comparison (budget + 1) <| operands .additive (budget + 1) <|
    operands .multiplicative (budget + 1) <| postfixChain (expression budget) (budget + 1)
  | .operators .logical => expression (budget + 1)

/-- Operands of a level are those of the next one. -/
theorem levelParser_operators (budget : Nat) (p : Precedence) :
    levelParser budget (.operators p)
      = operands p (budget + 1) (levelParser budget (operandLevel p)) := by
  cases p <;> rfl

/-- What the parser of a level has still to do behind `left`, in at most
`count` steps. -/
def loop (budget : Nat) : Level → Nat → Expr Offset → Parser (Expr Offset)
  | .primary, _, left => pure left
  | .members, count, left => members (expression budget) count left
  | .operators p, count, left => chain p (levelParser budget (operandLevel p)) count left

/-- The level of what the loop of a level joins: operands, or the receiver of member
accesses. -/
def innerLevel : Level → Level
  | .operators p => operandLevel p
  | .members | .primary => .primary

/-- After the tokens, the parser of the level has the expression in hand and
runs its loop on, whatever follows, and has spent at most one step for each
token. -/
def Runs (budget : Nat) (level : Level) (tokens : List Token) (e : Expr Unit) : Prop :=
  ∃ count left, budget + 1 ≤ count + tokens.length ∧ left.bare = e
    ∧ ∀ rest, Stops (innerLevel level) rest →
      levelParser budget level (tokens ++ rest) = loop budget level count left rest

/-- The parser gives the result for these tokens and leaves the rest, whatever
stands behind them and has `follows`. -/
def Answers {α β : Type} (p : Parser α) (bare : α → β) (follows : List Token → Prop)
    (tokens : List Token) (b : β) : Prop :=
  ∃ a, bare a = b ∧ ∀ rest, follows rest → p (tokens ++ rest) = .ok (a, rest)

/-- The result of a parser that has answered, changed. -/
theorem map_of_ok {α β : Type} {p : Parser α} {f : α → β} {tokens middle : List Token}
    {a : α} (h : p tokens = .ok (a, middle)) : (f <$> p) tokens = .ok (f a, middle) :=
  bind_of_ok (f := fun a => pure (f a)) h

/-- A word that is there is accepted. -/
theorem accept_of_eq {literal : String} (h : token.literal = literal) :
    accept literal (token :: rest) = .ok (true, rest) := by
  rw [accept_cons, if_pos h]

/-- A word that is not there is not accepted, and nothing is taken. -/
theorem accept_of_ne {literal : String} (h : ∀ token ∈ rest.head?, token.literal ≠ literal) :
    accept literal rest = .ok (false, rest) := by
  cases rest with
  | nil => rfl
  | cons token more => rw [accept_cons, if_neg (h token rfl)]

/-- An expected word that is there is taken. -/
theorem expect_of_eq {literal role : String} (h : token.literal = literal) :
    expect literal role (token :: rest) = .ok ((), rest) := by
  rw [expect_cons, if_pos h]

/-- An expected name that is there is taken. -/
theorem expectName_of_isName {expected : Expectation} (h : token.isName = true) :
    expectName expected (token :: rest) = .ok (token.literal, rest) := by
  rw [expectName_cons, if_pos h]

/-- An operator that is there is accepted. -/
theorem acceptOperator_of_isOperator {p : Precedence} {op : BinaryOp}
    (h : IsOperator p token op) : acceptOperator p (token :: rest) = .ok (some op, rest) := by
  obtain ⟨hsymbol, hp⟩ := h
  rw [acceptOperator_cons, hsymbol, ofSymbol_symbol hp]
  exact if_pos hp

/-- Where operands stop there is no operator to accept. -/
theorem acceptOperator_of_stops {p : Precedence} (h : Stops (.operators p) rest) :
    acceptOperator p rest = .ok (none, rest) := by
  cases rest with
  | nil => rfl
  | cons token more =>
      rw [acceptOperator_cons]
      exact if_neg fun hp => h token rfl (.inr (.inr ⟨p, hp, Nat.le_refl _⟩))

/-- The loop of a level ends where the level stops, with what it has in hand. -/
theorem loop_of_stops {level : Level} (h : Stops level rest) (budget count : Nat)
    (left : Expr Offset) : loop budget level count left rest = .ok (left, rest) := by
  cases level with
  | primary => rfl
  | members =>
      cases count with
      | zero => rfl
      | succ count =>
          rw [loop, members, bind_of_ok (accept_of_ne fun token htoken hpoint =>
            h token htoken (.inr hpoint))]
          rfl
  | operators p =>
      cases count with
      | zero => rfl
      | succ count =>
          rw [loop, chain, bind_of_ok (acceptOperator_of_stops h)]
          rfl

/-- What runs up to a stop is the answer. -/
theorem Runs.answers {budget : Nat} {level : Level} {tokens : List Token} {e : Expr Unit}
    (h : Runs budget level tokens e) :
    Answers (levelParser budget level) Expr.bare (Stops level) tokens e := by
  obtain ⟨count, left, -, hbare, hruns⟩ := h
  refine ⟨left, hbare, fun rest hstops => ?_⟩
  have hinner : Stops (innerLevel level) rest := by
    cases level with
    | primary => exact hstops
    | members => exact hstops.receiver
    | operators p => exact hstops.operand
  rw [hruns rest hinner, loop_of_stops hstops]

/-! ### Operators and member accesses -/

section Steps

variable {budget : Nat} {tokens : List Token} {e : Expr Unit}

/-- An operand alone is a chain of one, and the loop has not begun. -/
theorem Runs.operand {p : Precedence} (h : Runs budget (operandLevel p) tokens e) :
    Runs budget (.operators p) tokens e := by
  -- The first operand is read whole and none of the chain yet, so all steps
  -- of the loop are still to come.
  obtain ⟨left, hbare, hanswers⟩ := h.answers
  refine ⟨budget + 1, left, by omega, hbare, fun rest hstops => ?_⟩
  rw [levelParser_operators, operands, bind_of_ok (hanswers rest hstops)]
  rfl

/-- An operator and its right operand are one more step of the loop. -/
theorem Runs.binary {p : Precedence} {leftTokens rightTokens : List Token} {op : BinaryOp}
    {left right : Expr Unit} (hleft : Runs budget (.operators p) leftTokens left)
    (hop : IsOperator p token op) (hright : Runs budget (operandLevel p) rightTokens right)
    (hle : (leftTokens ++ token :: rightTokens).length ≤ budget) :
    Runs budget (.operators p) (leftTokens ++ token :: rightTokens) (.binary () op left right) := by
  -- The operands on the left leave at least one step to the loop, as there are
  -- no more tokens than steps, and that step takes the operator.
  obtain ⟨count, leftTree, hcount, rfl, hruns⟩ := hleft
  obtain ⟨rightTree, rfl, hanswers⟩ := hright.answers
  rw [List.length_append, List.length_cons] at hle
  obtain ⟨count, rfl⟩ : ∃ n, count = n + 1 := ⟨count - 1, by omega⟩
  refine ⟨count, .binary leftTree.mark op leftTree rightTree, ?_, rfl, fun rest hstops => ?_⟩
  · rw [List.length_append, List.length_cons]
    omega
  · rw [List.append_assoc, List.cons_append, hruns _ (stops_of_isOperator hop), loop, chain,
      bind_of_ok (acceptOperator_of_isOperator hop)]
    exact bind_of_ok (hanswers rest hstops)

/-- A primary expression alone is one without member accesses. -/
theorem Runs.simple (h : Runs budget .primary tokens e) : Runs budget .members tokens e := by
  obtain ⟨receiver, hbare, hanswers⟩ := h.answers
  refine ⟨budget + 1, receiver, by omega, hbare, fun rest hstops => ?_⟩
  exact bind_of_ok (hanswers rest hstops)

/-- A member access is one more step of the loop. -/
theorem Runs.field {point name : Token} {receiver : Expr Unit}
    (hreceiver : Runs budget .members tokens receiver) (hpoint : point.literal = ".")
    (hname : name.isName = true) (hle : (tokens ++ [point, name]).length ≤ budget) :
    Runs budget .members (tokens ++ [point, name]) (.field () receiver name.literal) := by
  obtain ⟨count, tree, hcount, rfl, hruns⟩ := hreceiver
  rw [List.length_append, List.length_cons, List.length_singleton] at hle
  obtain ⟨count, rfl⟩ : ∃ n, count = n + 1 := ⟨count - 1, by omega⟩
  refine ⟨count, .field tree.mark tree name.literal, ?_, rfl, fun rest hstops => ?_⟩
  · rw [List.length_append, List.length_cons, List.length_singleton]
    omega
  · have hparen : ∀ other ∈ rest.head?, other.literal ≠ "(" := hstops
    rw [List.append_assoc, List.cons_append, List.singleton_append,
      hruns _ (stops_of_point hpoint), loop, members, bind_of_ok (accept_of_eq hpoint)]
    refine (bind_of_ok (expectName_of_isName hname)).trans ?_
    exact bind_of_ok (accept_of_ne hparen)

/-- So is a call of a member, with its arguments. -/
theorem Runs.methodCall {point name paren : Token} {argumentTokens : List Token}
    {receiver : Expr Unit} {list : List (Expr Unit)}
    (hreceiver : Runs budget .members tokens receiver) (hpoint : point.literal = ".")
    (hname : name.isName = true) (hparen : paren.literal = "(")
    (harguments : ∀ count, argumentTokens.length ≤ count →
      Answers (arguments (expression budget) count) (List.map Expr.bare) (fun _ => True)
        argumentTokens list)
    (hle : (tokens ++ point :: name :: paren :: argumentTokens).length ≤ budget) :
    Runs budget .members (tokens ++ point :: name :: paren :: argumentTokens)
      (.methodCall () receiver name.literal list) := by
  obtain ⟨count, tree, hcount, rfl, hruns⟩ := hreceiver
  rw [List.length_append, List.length_cons, List.length_cons, List.length_cons] at hle
  obtain ⟨count, rfl⟩ : ∃ n, count = n + 1 := ⟨count - 1, by omega⟩
  obtain ⟨trees, rfl, hanswers⟩ := harguments count (by omega)
  refine ⟨count, .methodCall tree.mark tree name.literal trees, ?_, Expr.bare_methodCall,
    fun rest _ => ?_⟩
  · rw [List.length_append, List.length_cons, List.length_cons, List.length_cons]
    omega
  · rw [List.append_assoc, List.cons_append, List.cons_append, List.cons_append,
      hruns _ (stops_of_point hpoint), loop, members, bind_of_ok (accept_of_eq hpoint)]
    refine (bind_of_ok (expectName_of_isName hname)).trans ?_
    refine (bind_of_ok (accept_of_eq hparen)).trans ?_
    exact bind_of_ok (hanswers rest trivial)

/-! ### The rest of the expressions -/

/-- A tree that the primary parser makes of the tokens. There is no loop for primary
expressions. -/
theorem Runs.primary (tree : Expr Offset)
    (h : ∀ rest, Stops .primary rest →
      Parser.primary (expression budget) (budget + 1) (tokens ++ rest) = .ok (tree, rest)) :
    Runs budget .primary tokens tree.bare :=
  ⟨budget + 1, tree, by omega, rfl, h⟩

/-- The primary parser at an identifier reads a word. -/
theorem primary_identifier {nested : Parser (Expr Offset)} (h : token.kind = .identifier) :
    Parser.primary nested budget (token :: rest) = word nested budget token (token :: rest) := by
  rw [Parser.primary, bind_of_ok (peek_cons _ _)]
  simp only [h]

/-- The word for nil. -/
theorem Runs.nil (hclass : TokenClass token.kind token.literal.toList)
    (h : token.literal = "NIL") : Runs budget .primary [token] (.nil ()) := by
  refine Runs.primary (.nil token.offset) fun rest _ => ?_
  have hkind := kind_of_mem_keywords hclass (by rw [h]; decide)
  rw [List.singleton_append, primary_identifier hkind, word, present_bind, h]
  rfl

/-- The two words for truth values. -/
theorem Runs.boolean {value : Bool} (hclass : TokenClass token.kind token.literal.toList)
    (h : token.literal = if value then "TRUE" else "FALSE") :
    Runs budget .primary [token] (.boolean () value) := by
  refine Runs.primary (.boolean token.offset value) fun rest _ => ?_
  have hkind := kind_of_mem_keywords hclass (by rw [h]; cases value <;> decide)
  rw [List.singleton_append, primary_identifier hkind, word, present_bind, h]
  cases value <;> rfl

/-- An integer, which the lexer's form lets be read. -/
theorem Runs.integer {value : Int} (hkind : token.kind = .integer)
    (hvalue : IntegerText token.literal.toList value) :
    Runs budget .primary [token] (.integer () value) := by
  refine Runs.primary (.integer token.offset value) fun rest _ => ?_
  rw [List.singleton_append, Parser.primary, bind_of_ok (peek_cons _ _)]
  simp only [hkind, readInteger?_eq_some hvalue]
  rfl

/-- A decimal, as far as its digits are in reach. -/
theorem Runs.decimal {value : Decimal} (hkind : token.kind = .decimal)
    (hvalue : DecimalText token.literal.toList value)
    (hsome : (Decimal.read? token.literal).isSome = true) :
    Runs budget .primary [token] (.decimal () value) := by
  -- That the reader answers at all is the reason why the value is in reach.
  have hread : Decimal.read? token.literal = some value := by
    rw [read?_eq hvalue] at hsome ⊢
    split at hsome
    · next hreach => exact if_pos hreach
    · simp at hsome
  refine Runs.primary (.decimal token.offset value) fun rest _ => ?_
  rw [List.singleton_append, Parser.primary, bind_of_ok (peek_cons _ _)]
  simp only [hkind, hread]
  rfl

/-- A character, with its escapes decoded. -/
theorem Runs.character {text : List Char} (hkind : token.kind = .character)
    (htext : QuotedText '\'' token.literal.toList text) :
    Runs budget .primary [token] (.character () (String.ofList text)) := by
  refine Runs.primary (.character token.offset (String.ofList text)) fun rest _ => ?_
  rw [List.singleton_append, Parser.primary, bind_of_ok (peek_cons _ _)]
  simp only [hkind, literalBody_eq htext]
  rfl

/-- A string, with its escapes decoded. -/
theorem Runs.string {text : List Char} (hkind : token.kind = .string)
    (htext : QuotedText '"' token.literal.toList text) :
    Runs budget .primary [token] (.string () (String.ofList text)) := by
  refine Runs.primary (.string token.offset (String.ofList text)) fun rest _ => ?_
  rw [List.singleton_append, Parser.primary, bind_of_ok (peek_cons _ _)]
  simp only [hkind, literalBody_eq htext]
  rfl

/-- A name where an expression begins is a call or a variable, by the parenthesis
behind it. -/
theorem word_of_isName {nested : Parser (Expr Offset)} (h : token.isName = true) :
    word nested budget token = (do
      let name ← expectName .expression
      if ← accept "(" then
        let arguments ← arguments nested budget
        pure (.call token.offset name arguments)
      else pure (.var token.offset name)) := by
  have hkeyword := (isName_iff.mp h).2
  unfold word
  rw [present_bind]
  split
  · next hword => exact absurd (hword ▸ hkeyword) (by decide)
  · next hword => exact absurd (hword ▸ hkeyword) (by decide)
  · next hword => exact absurd (hword ▸ hkeyword) (by decide)
  · rfl

/-- A variable: no parenthesis stands behind it. -/
theorem Runs.var (hname : token.isName = true) :
    Runs budget .primary [token] (.var () token.literal) := by
  refine Runs.primary (.var token.offset token.literal) fun rest hstops => ?_
  have hparen : ∀ other ∈ rest.head?, other.literal ≠ "(" := hstops
  rw [List.singleton_append, primary_identifier (isName_iff.mp hname).1, word_of_isName hname]
  refine (bind_of_ok (expectName_of_isName hname)).trans ?_
  exact bind_of_ok (accept_of_ne hparen)

/-- A call with its arguments. -/
theorem Runs.call {paren : Token} {argumentTokens : List Token} {list : List (Expr Unit)}
    (hname : token.isName = true) (hparen : paren.literal = "(")
    (harguments : Answers (arguments (expression budget) (budget + 1)) (List.map Expr.bare)
      (fun _ => True) argumentTokens list) :
    Runs budget .primary (token :: paren :: argumentTokens) (.call () token.literal list) := by
  obtain ⟨trees, rfl, hanswers⟩ := harguments
  rw [← Expr.bare_call (m := token.offset)]
  refine Runs.primary _ fun rest _ => ?_
  rw [List.cons_append, primary_identifier (isName_iff.mp hname).1, word_of_isName hname]
  refine (bind_of_ok (expectName_of_isName hname)).trans ?_
  refine (bind_of_ok (accept_of_eq hparen)).trans ?_
  exact bind_of_ok (hanswers rest trivial)

/-- An expression in parentheses, which keeps them in the tree. -/
theorem Runs.group {left right : Token} (hclass : TokenClass left.kind left.literal.toList)
    (hleft : left.literal = "(")
    (hinner : Answers (expression budget) Expr.bare (Stops anyLevel) tokens e)
    (hright : right.literal = ")") :
    Runs budget .primary (left :: (tokens ++ [right])) (.group () e) := by
  obtain ⟨inner, rfl, hanswers⟩ := hinner
  have hkind := kind_of_mem_punctuation hclass (by rw [hleft]; decide)
  have hstops (rest : List Token) : Stops anyLevel (right :: rest) :=
    stops_of_mem_closers (by rw [hright]; decide) anyLevel
  refine Runs.primary (.group left.offset inner) fun rest _ => ?_
  rw [List.cons_append, List.append_assoc, List.singleton_append, Parser.primary,
    bind_of_ok (peek_cons _ _)]
  simp only [hkind]
  refine (bind_of_ok (accept_of_eq hleft)).trans ?_
  refine (bind_of_ok (hanswers _ (hstops rest))).trans ?_
  exact bind_of_ok (expect_of_eq hright)

/-! ### Arguments -/

/-- No arguments, but the closing parenthesis. -/
theorem answers_noArguments {paren : Token} (hparen : paren.literal = ")") (count : Nat) :
    Answers (arguments (expression budget) count) (List.map Expr.bare) (fun _ => True)
      [paren] [] :=
  ⟨[], rfl, fun _ _ => bind_of_ok (accept_of_eq hparen)⟩

/-- Arguments that have begun, with the closing parenthesis behind them. -/
def AnswersSeries (budget count : Nat) (tokens : List Token) (list : List (Expr Unit)) : Prop :=
  ∃ trees : List (Expr Offset), trees.map Expr.bare = list
    ∧ ∀ paren rest, paren.literal = ")" →
      moreArguments (expression budget) count (tokens ++ paren :: rest) = .ok (trees, rest)

/-- Arguments that have begun are arguments, as the first one is no closing
parenthesis. -/
theorem AnswersSeries.answers {paren : Token} {count : Nat} {list : List (Expr Unit)}
    (h : AnswersSeries budget count tokens list) (hparen : paren.literal = ")")
    (hstart : ∃ token more, tokens = token :: more ∧ token.literal ≠ ")") :
    Answers (arguments (expression budget) count) (List.map Expr.bare) (fun _ => True)
      (tokens ++ [paren]) list := by
  obtain ⟨trees, hbare, hanswers⟩ := h
  refine ⟨trees, hbare, fun rest _ => ?_⟩
  obtain ⟨token, more, rfl, hne⟩ := hstart
  have hnot : ∀ other ∈ ((token :: more) ++ paren :: rest).head?, other.literal ≠ ")" := by
    intro other hother
    obtain rfl : token = other := by simpa using hother
    exact hne
  rw [List.append_assoc, List.singleton_append]
  exact (bind_of_ok (accept_of_ne hnot)).trans (hanswers paren rest hparen)

/-- The last argument. -/
theorem AnswersSeries.one {count : Nat}
    (h : Answers (expression budget) Expr.bare (Stops anyLevel) tokens e) :
    AnswersSeries budget (count + 1) tokens [e] := by
  obtain ⟨tree, rfl, hanswers⟩ := h
  refine ⟨[tree], rfl, fun paren rest hparen => ?_⟩
  have hcomma : ∀ other ∈ (paren :: rest).head?, other.literal ≠ "," := by
    intro other hother
    obtain rfl : paren = other := by simpa using hother
    rw [hparen]
    decide
  refine (bind_of_ok (hanswers _ (stops_of_mem_closers (by rw [hparen]; decide) _))).trans ?_
  refine (bind_of_ok (accept_of_ne hcomma)).trans ?_
  exact bind_of_ok (expect_of_eq hparen)

/-- An argument with others behind it. -/
theorem AnswersSeries.more {count : Nat} {restTokens : List Token} {comma : Token}
    {list : List (Expr Unit)}
    (h : Answers (expression budget) Expr.bare (Stops anyLevel) tokens e)
    (hcomma : comma.literal = ",") (hrest : AnswersSeries budget count restTokens list) :
    AnswersSeries budget (count + 1) (tokens ++ comma :: restTokens) (e :: list) := by
  obtain ⟨tree, rfl, hanswers⟩ := h
  obtain ⟨trees, rfl, hmore⟩ := hrest
  refine ⟨tree :: trees, rfl, fun paren rest hparen => ?_⟩
  rw [List.append_assoc, List.cons_append]
  refine (bind_of_ok (hanswers _ (stops_of_mem_closers (by rw [hcomma]; decide) _))).trans ?_
  refine (bind_of_ok (accept_of_eq hcomma)).trans ?_
  exact bind_of_ok (hmore paren rest hparen)

end Steps

/-! ### Expressions -/

mutual

/-- The parser of a level runs through every expression of the level, if its budget
is no less than the tokens. By induction on the derivation, with one lemma for each
rule. -/
theorem DerivesExpr.runs {level : Level} {tokens : List Token} {e : Expr Unit} :
    DerivesExpr level tokens e → Readable tokens → ∀ budget : Nat, tokens.length ≤ budget →
      Runs budget level tokens e
  | .operand h, hread, budget, hle => (h.runs hread budget hle).operand
  | @DerivesExpr.binary _ leftTokens rightTokens _ _ _ _ hleft hop hright, hread, budget, hle => by
      -- Each operand has fewer tokens than the whole, so the budget covers it too.
      have hshort : leftTokens.length ≤ budget ∧ rightTokens.length ≤ budget := by
        rw [List.length_append, List.length_cons] at hle
        omega
      exact (hleft.runs (hread.mono (by simp)) budget hshort.1).binary hop
        (hright.runs (hread.mono fun t ht => by simp [ht]) budget hshort.2) hle
  | .simple h, hread, budget, hle => (h.runs hread budget hle).simple
  | @DerivesExpr.field tokens _ _ _ hreceiver hpoint hname, hread, budget, hle => by
      have hshort : tokens.length ≤ budget := by
        rw [List.length_append] at hle
        omega
      exact (hreceiver.runs (hread.mono (by simp)) budget hshort).field hpoint hname hle
  | @DerivesExpr.methodCall tokens argumentTokens _ _ _ _ _ hreceiver hpoint hname hparen
        harguments,
      hread, budget, hle => by
      have hshort : tokens.length ≤ budget ∧ argumentTokens.length ≤ budget := by
        simp only [List.length_append, List.length_cons] at hle
        omega
      have hcalled (count : Nat) := harguments.answers
        (hread.mono fun t ht => by simp [ht]) budget count hshort.2
      exact (hreceiver.runs (hread.mono (by simp)) budget hshort.1).methodCall hpoint hname hparen
        hcalled hle
  | .nil h, hread, _, _ => .nil (hread.genuine _ (by simp)) h
  | .boolean h, hread, _, _ => .boolean (hread.genuine _ (by simp)) h
  | .integer hkind hvalue, _, _, _ => .integer hkind hvalue
  | .decimal hkind hvalue, hread, _, _ =>
      .decimal hkind hvalue (hread.decimals _ (by simp) hkind)
  | .character hkind htext, _, _, _ => .character hkind htext
  | .string hkind htext, _, _, _ => .string hkind htext
  | .var hname, _, _, _ => .var hname
  | @DerivesExpr.call _ _ argumentTokens _ hname hparen harguments, hread, budget, hle => by
      have hshort : argumentTokens.length ≤ budget := by
        simp only [List.length_cons] at hle
        omega
      exact .call hname hparen
        (harguments.answers (hread.mono fun t ht => by simp [ht]) budget _ hshort (by omega))
  | @DerivesExpr.group _ _ tokens _ hleft hinner hright, hread, budget, hle => by
      -- The parentheses pay for the step down: the tokens between them are fewer
      -- by two, and the budget inside is smaller by one.
      obtain ⟨nested, rfl⟩ : ∃ n, budget = n + 1 := ⟨budget - 1, by simp at hle; omega⟩
      have hshort : tokens.length ≤ nested := by
        simp only [List.length_cons, List.length_append] at hle
        omega
      exact .group (hread.genuine _ (by simp)) hleft
        (hinner.runs (hread.mono fun t ht => by simp [ht]) nested hshort).answers hright

/-- The parser of arguments answers with every list of arguments. -/
theorem DerivesArguments.answers {tokens : List Token} {list : List (Expr Unit)} :
    DerivesArguments tokens list → Readable tokens → ∀ budget count : Nat,
      tokens.length ≤ budget → tokens.length ≤ count →
      Answers (arguments (expression budget) count) (List.map Expr.bare) (fun _ => True)
        tokens list
  | .none hparen, _, _, _, _, _ => answers_noArguments hparen _
  | @DerivesArguments.some tokens _ _ harguments hparen, hread, budget, count, hle, hcount => by
      rw [List.length_append, List.length_singleton] at hle hcount
      have hseries := hread.mono (List.subset_append_left tokens _)
      refine (harguments.answers hseries budget count (by omega) (by omega)).answers hparen ?_
      obtain ⟨token, more, rfl, hstart⟩ := harguments.exists_cons
      refine ⟨token, more, rfl, fun hclosing => ?_⟩
      exact hstart.not_mem (hread.genuine token (by simp)) (by rw [hclosing]; decide)

/-- So does the parser of arguments that have begun. -/
theorem DerivesSeries.answers {tokens : List Token} {list : List (Expr Unit)} :
    DerivesSeries tokens list → Readable tokens → ∀ budget count : Nat,
      tokens.length < budget → tokens.length ≤ count → AnswersSeries budget count tokens list
  | .one h, hread, budget, count, hle, hcount => by
      have hpositive := h.length_pos
      obtain ⟨nested, rfl⟩ : ∃ n, budget = n + 1 := ⟨budget - 1, by omega⟩
      obtain ⟨count, rfl⟩ : ∃ n, count = n + 1 := ⟨count - 1, by omega⟩
      exact .one (h.runs hread nested (by omega)).answers
  | @DerivesSeries.more tokens _ _ _ _ h hcomma hrest, hread, budget, count, hle, hcount => by
      rw [List.length_append, List.length_cons] at hcount hle
      obtain ⟨nested, rfl⟩ : ∃ n, budget = n + 1 := ⟨budget - 1, by omega⟩
      obtain ⟨count, rfl⟩ : ∃ n, count = n + 1 := ⟨count - 1, by omega⟩
      exact .more (h.runs (hread.mono (by simp)) nested (by omega)).answers hcomma
        (hrest.answers (hread.mono fun t ht => by simp [ht]) _ count (by omega) (by omega))

end

/-- The parser of expressions answers with every expression. -/
theorem DerivesExpr.answers {tokens : List Token} {e : Expr Unit}
    (h : DerivesExpr anyLevel tokens e) (hread : Readable tokens) (budget : Nat)
    (hlt : tokens.length < budget) :
    Answers (expression budget) Expr.bare (Stops anyLevel) tokens e := by
  obtain ⟨nested, rfl⟩ : ∃ n, budget = n + 1 := ⟨budget - 1, by omega⟩
  exact (h.runs hread nested (by omega)).answers

/-! ### Declarations -/

/-- The next token has that text. -/
def Begins (literal : String) (rest : List Token) : Prop :=
  ∃ token more, rest = token :: more ∧ token.literal = literal

/-- A list begins with its first token. -/
theorem begins_cons {literal : String} {more : List Token} (h : token.literal = literal) :
    Begins literal (token :: more) :=
  ⟨token, more, rfl, h⟩

/-- Another word is not there. -/
theorem Begins.ne {literal other : String} (h : Begins literal rest) (hne : literal ≠ other) :
    ∀ token ∈ rest.head?, token.literal ≠ other := by
  obtain ⟨token, more, rfl, hliteral⟩ := h
  intro front hfront
  obtain rfl : token = front := by simpa using hfront
  rwa [hliteral]

/-- An expression stops before a word that closes it. -/
theorem Begins.stops {literal : String} (h : Begins literal rest) (hmem : literal ∈ closers)
    (level : Level) : Stops level rest := by
  obtain ⟨token, more, rfl, hliteral⟩ := h
  exact stops_of_mem_closers (by rwa [hliteral]) level

/-- An optional type is read before what comes after it, which must not begin with a
colon. -/
theorem DerivesTypeName.bind_eq {β : Type} {tokens : List Token} {typeName : Option String}
    (h : DerivesTypeName tokens typeName) {expected : Expectation} {f : Option String → Parser β}
    (hrest : ∀ token ∈ rest.head?, token.literal ≠ ":") :
    (do
      let typeName ← if ← accept ":" then some <$> expectName expected else pure none
      f typeName : Parser β) (tokens ++ rest) = f typeName rest := by
  cases h with
  | absent => exact bind_of_ok (accept_of_ne hrest)
  | present hcolon hname =>
      refine (bind_of_ok (accept_of_eq hcolon)).trans ?_
      exact bind_of_ok (map_of_ok (expectName_of_isName hname))

/-- An optional first value is read before what comes after it, which is a
semicolon. -/
theorem DerivesValue.exists_bind_eq {tokens : List Token} {value : Option (Expr Unit)}
    (h : DerivesValue tokens value) (hread : Readable tokens) (budget : Nat)
    (hle : tokens.length ≤ budget) :
    ∃ tree : Option (Expr Offset), tree.map Expr.bare = value
      ∧ ∀ (β : Type) (f : Option (Expr Offset) → Parser β) (rest : List Token),
        Begins ";" rest →
        (do
          let value ← if ← accept "=" then some <$> expression budget else pure none
          f value : Parser β) (tokens ++ rest) = f tree rest := by
  cases h with
  | absent =>
      refine ⟨none, rfl, fun β f rest hrest => ?_⟩
      exact bind_of_ok (accept_of_ne (hrest.ne (by decide)))
  | @present equals valueTokens e hequals h =>
      rw [List.length_cons] at hle
      obtain ⟨tree, rfl, hanswers⟩ := h.answers (hread.mono (by simp)) budget hle
      refine ⟨some tree, rfl, fun β f rest hrest => ?_⟩
      refine (bind_of_ok (accept_of_eq hequals)).trans ?_
      exact bind_of_ok (map_of_ok (hanswers rest (hrest.stops (by decide) _)))

/-- The parser of declarations answers with every declaration. -/
theorem DerivesDeclaration.answers {tokens : List Token} {d : Declaration Unit}
    (h : DerivesDeclaration tokens d) (hread : Readable tokens) (budget : Nat)
    (hle : tokens.length ≤ budget) :
    Answers (declaration budget) Declaration.bare (Begins ";") tokens d := by
  cases h with
  | @mk name typeTokens valueTokens typeName value hname htype hvalue =>
      simp only [List.length_cons, List.length_append] at hle
      obtain ⟨tree, rfl, hbind⟩ := hvalue.exists_bind_eq
        (hread.mono fun t ht => by simp [ht]) budget (by omega)
      refine ⟨⟨name.literal, typeName, tree⟩, rfl, fun rest hrest => ?_⟩
      -- A type that is missing is noticed by what follows instead: an equals sign
      -- if there is a value, the end of the declaration if there is none.
      have hcolon : ∀ token ∈ (valueTokens ++ rest).head?, token.literal ≠ ":" := by
        generalize tree.map Expr.bare = value at hvalue
        cases hvalue with
        | absent => exact hrest.ne (by decide)
        | present hequals _ => exact (begins_cons hequals).ne (by decide)
      rw [List.cons_append, List.append_assoc]
      refine (bind_of_ok (expectName_of_isName hname)).trans ?_
      refine (htype.bind_eq hcolon).trans ?_
      exact hbind _ _ rest hrest

/-! ### Statements -/

/-- A statement is not empty, and its first token ends no block. So a block goes on
with it. -/
theorem DerivesStmt.exists_cons {tokens : List Token} {s : Stmt Unit} (h : DerivesStmt tokens s)
    (hread : Readable tokens) :
    ∃ token more, tokens = token :: more ∧ token.literal ∉ ["ELSE", "END"] := by
  cases h with
  | declare hfirst | cond hfirst | forIn hfirst | whileDo hfirst | result hfirst =>
      exact ⟨_, _, rfl, by rw [hfirst]; decide⟩
  | expression h _ | assign h _ _ _ =>
      obtain ⟨token, more, rfl, hstart⟩ := h.exists_cons
      refine ⟨token, _, rfl, fun hmem => ?_⟩
      have hnot : ∀ word ∈ ["ELSE", "END"], word ∈ notFirst := by decide
      exact hstart.not_mem (hread.genuine token (by simp)) (hnot _ hmem)

section Statements

variable {budget : Nat} {first opening last : Token} {tokens bodyTokens : List Token}
  {condition e : Expr Unit} {body : List (Stmt Unit)}

/-- The parser of statements answers with this one, whatever comes behind. -/
abbrev AnswersStmt (budget : Nat) (tokens : List Token) (s : Stmt Unit) : Prop :=
  Answers (statement budget) Stmt.bare (fun _ => True) tokens s

/-- The parser of blocks with these terminators answers with these statements
before each of them. -/
abbrev AnswersBlock (budget count : Nat) (terminators : List String) (tokens : List Token)
    (body : List (Stmt Unit)) : Prop :=
  ∀ terminator ∈ terminators,
    Answers (block terminators (statement budget) count) (List.map Stmt.bare)
      (Begins terminator) tokens body

/-- A declaration. -/
theorem AnswersStmt.declare {d : Declaration Unit} (hfirst : first.literal = "LET")
    (hd : Answers (declaration (budget + 1)) Declaration.bare (Begins ";") tokens d)
    (hlast : last.literal = ";") :
    AnswersStmt (budget + 1) (first :: (tokens ++ [last])) (.declare () d) := by
  obtain ⟨tree, rfl, hd⟩ := hd
  refine ⟨.declare first.offset tree, rfl, fun rest _ => ?_⟩
  rw [List.cons_append, List.append_assoc, List.singleton_append, statement,
    bind_of_ok (peek_cons _ _)]
  simp only [hfirst]
  refine (bind_of_ok (skip_cons _ _)).trans ?_
  refine (bind_of_ok (hd _ (begins_cons hlast))).trans ?_
  exact bind_of_ok (expect_of_eq hlast)

/-- A `RETURN`. -/
theorem AnswersStmt.result (hfirst : first.literal = "RETURN")
    (he : Answers (Parser.expression (budget + 1)) Expr.bare (Stops anyLevel) tokens e)
    (hlast : last.literal = ";") :
    AnswersStmt (budget + 1) (first :: (tokens ++ [last])) (.result () e) := by
  obtain ⟨tree, rfl, he⟩ := he
  refine ⟨.result first.offset tree, rfl, fun rest _ => ?_⟩
  rw [List.cons_append, List.append_assoc, List.singleton_append, statement,
    bind_of_ok (peek_cons _ _)]
  simp only [hfirst]
  refine (bind_of_ok (skip_cons _ _)).trans ?_
  refine (bind_of_ok (he _ ((begins_cons hlast).stops (by decide) _))).trans ?_
  exact bind_of_ok (expect_of_eq hlast)

/-- A loop on a condition. -/
theorem AnswersStmt.whileDo (hfirst : first.literal = "WHILE")
    (hcondition : Answers (Parser.expression (budget + 1)) Expr.bare (Stops anyLevel) tokens
      condition)
    (hopening : opening.literal = "DO")
    (hbody : AnswersBlock budget (budget + 1) ["END"] bodyTokens body)
    (hlast : last.literal = "END") :
    AnswersStmt (budget + 1) (first :: (tokens ++ opening :: (bodyTokens ++ [last])))
      (.whileDo () condition body) := by
  obtain ⟨tree, rfl, hcondition⟩ := hcondition
  obtain ⟨trees, rfl, hblock⟩ := hbody "END" (by simp)
  refine ⟨.whileDo first.offset tree trees, Stmt.bare_whileDo, fun rest _ => ?_⟩
  rw [List.cons_append, List.append_assoc, List.cons_append, List.append_assoc,
    List.singleton_append, statement, bind_of_ok (peek_cons _ _)]
  simp only [hfirst]
  refine (bind_of_ok (skip_cons _ _)).trans ?_
  refine (bind_of_ok (hcondition _ ((begins_cons hopening).stops (by decide) _))).trans ?_
  refine (bind_of_ok (expect_of_eq hopening)).trans ?_
  refine (bind_of_ok (hblock _ (begins_cons hlast))).trans ?_
  exact bind_of_ok (expect_of_eq hlast)

/-- A loop over a sequence. -/
theorem AnswersStmt.forIn {name between : Token} (hfirst : first.literal = "FOR")
    (hname : name.isName = true) (hbetween : between.literal = "IN")
    (hvalue : Answers (Parser.expression (budget + 1)) Expr.bare (Stops anyLevel) tokens e)
    (hopening : opening.literal = "DO")
    (hbody : AnswersBlock budget (budget + 1) ["END"] bodyTokens body)
    (hlast : last.literal = "END") :
    AnswersStmt (budget + 1)
      (first :: name :: between :: (tokens ++ opening :: (bodyTokens ++ [last])))
      (.forIn () name.literal e body) := by
  obtain ⟨tree, rfl, hvalue⟩ := hvalue
  obtain ⟨trees, rfl, hblock⟩ := hbody "END" (by simp)
  refine ⟨.forIn first.offset name.literal tree trees, Stmt.bare_forIn, fun rest _ => ?_⟩
  rw [List.cons_append, List.cons_append, List.cons_append, List.append_assoc,
    List.cons_append, List.append_assoc, List.singleton_append, statement,
    bind_of_ok (peek_cons _ _)]
  simp only [hfirst]
  refine (bind_of_ok (skip_cons _ _)).trans ?_
  refine (bind_of_ok (expectName_of_isName hname)).trans ?_
  refine (bind_of_ok (expect_of_eq hbetween)).trans ?_
  refine (bind_of_ok (hvalue _ ((begins_cons hopening).stops (by decide) _))).trans ?_
  refine (bind_of_ok (expect_of_eq hopening)).trans ?_
  refine (bind_of_ok (hblock _ (begins_cons hlast))).trans ?_
  exact bind_of_ok (expect_of_eq hlast)

/-- A statement that begins like an expression is parsed as one, since none of the
words that begin other statements is the first of an expression. -/
theorem statement_of_startsExpr (hstart : StartsExpr first)
    (hclass : TokenClass first.kind first.literal.toList) :
    statement (budget + 1) (first :: rest)
      = expressionStatement first.offset (budget + 1) (first :: rest) := by
  have hnot := hstart.not_mem hclass
  rw [statement, bind_of_ok (peek_cons _ _)]
  refine congrFun ?_ (first :: rest)
  dsimp only
  split
  · next hword => exact absurd (hword ▸ hnot) (by decide)
  · next hword => exact absurd (hword ▸ hnot) (by decide)
  · next hword => exact absurd (hword ▸ hnot) (by decide)
  · next hword => exact absurd (hword ▸ hnot) (by decide)
  · next hword => exact absurd (hword ▸ hnot) (by decide)
  · rfl

/-- An expression as a statement: a semicolon stands behind it. -/
theorem AnswersStmt.expression (hstart : StartsExpr first)
    (hclass : TokenClass first.kind first.literal.toList)
    (he : Answers (Parser.expression (budget + 1)) Expr.bare (Stops anyLevel) (first :: tokens) e)
    (hlast : last.literal = ";") :
    AnswersStmt (budget + 1) (first :: tokens ++ [last]) (.expression () e) := by
  obtain ⟨tree, rfl, he⟩ := he
  refine ⟨.expression first.offset tree, rfl, fun rest _ => ?_⟩
  have hbegins : Begins ";" (last :: rest) := begins_cons hlast
  rw [List.append_assoc, List.singleton_append, List.cons_append,
    statement_of_startsExpr hstart hclass, ← List.cons_append]
  refine (bind_of_ok (he _ (hbegins.stops (by decide) _))).trans ?_
  refine (bind_of_ok (accept_of_ne (hbegins.ne (by decide)))).trans ?_
  exact bind_of_ok (expect_of_eq hlast)

/-- An assignment: an equals sign stands behind its target. -/
theorem AnswersStmt.assign {equals : Token} {valueTokens : List Token} {value : Expr Unit}
    (hstart : StartsExpr first) (hclass : TokenClass first.kind first.literal.toList)
    (he : Answers (Parser.expression (budget + 1)) Expr.bare (Stops anyLevel) (first :: tokens) e)
    (hequals : equals.literal = "=")
    (hvalue : Answers (Parser.expression (budget + 1)) Expr.bare (Stops anyLevel) valueTokens
      value)
    (hlast : last.literal = ";") :
    AnswersStmt (budget + 1) (first :: tokens ++ equals :: (valueTokens ++ [last]))
      (.assign () e value) := by
  obtain ⟨tree, rfl, he⟩ := he
  obtain ⟨valueTree, rfl, hvalue⟩ := hvalue
  refine ⟨.assign first.offset tree valueTree, rfl, fun rest _ => ?_⟩
  rw [List.append_assoc, List.cons_append, List.cons_append, List.append_assoc,
    List.singleton_append, statement_of_startsExpr hstart hclass, ← List.cons_append]
  refine (bind_of_ok (he _ ((begins_cons hequals).stops (by decide) _))).trans ?_
  refine (bind_of_ok (accept_of_eq hequals)).trans ?_
  refine (bind_of_ok (hvalue _ ((begins_cons hlast).stops (by decide) _))).trans ?_
  exact bind_of_ok (expect_of_eq hlast)

/-- A conditional, with or without a second branch. -/
theorem AnswersStmt.cond {thenTokens elseTokens : List Token} {thenBody elseBody : List (Stmt Unit)}
    (hfirst : first.literal = "IF")
    (hcondition : Answers (Parser.expression (budget + 1)) Expr.bare (Stops anyLevel) tokens
      condition)
    (hopening : opening.literal = "DO")
    (hthen : AnswersBlock budget (budget + 1) ["ELSE", "END"] thenTokens thenBody)
    (helse : elseTokens = [] ∧ elseBody = [] ∨ ∃ word restTokens, elseTokens = word :: restTokens
      ∧ word.literal = "ELSE" ∧ AnswersBlock budget (budget + 1) ["END"] restTokens elseBody)
    (hlast : last.literal = "END") :
    AnswersStmt (budget + 1)
      (first :: (tokens ++ opening :: (thenTokens ++ (elseTokens ++ [last]))))
      (.cond () condition thenBody elseBody) := by
  -- The parser is run along the tokens, one part at a time. Each part stops where the next one
  -- begins, since no expression or block goes on with a keyword.
  obtain ⟨tree, rfl, hcondition⟩ := hcondition
  rcases helse with ⟨rfl, rfl⟩ | ⟨word, restTokens, rfl, hword, helse⟩
  · obtain ⟨trees, rfl, hblock⟩ := hthen "END" (by simp)
    refine ⟨.cond first.offset tree trees [], Stmt.bare_cond, fun rest _ => ?_⟩
    have hbegins : Begins "END" (last :: rest) := begins_cons hlast
    rw [List.nil_append, List.cons_append, List.append_assoc, List.cons_append,
      List.append_assoc, List.singleton_append, statement, bind_of_ok (peek_cons _ _)]
    simp only [hfirst]
    refine (bind_of_ok (skip_cons _ _)).trans ?_
    refine (bind_of_ok (hcondition _ ((begins_cons hopening).stops (by decide) _))).trans ?_
    refine (bind_of_ok (expect_of_eq hopening)).trans ?_
    refine (bind_of_ok (hblock _ hbegins)).trans ?_
    refine (bind_of_ok (accept_of_ne (hbegins.ne (by decide)))).trans ?_
    show (expect "END" "after if statement" >>= fun _ => pure _) (last :: rest) = _
    exact bind_of_ok (expect_of_eq hlast)
  · obtain ⟨trees, rfl, hblock⟩ := hthen "ELSE" (by simp)
    obtain ⟨others, rfl, hother⟩ := helse "END" (by simp)
    refine ⟨.cond first.offset tree trees others, Stmt.bare_cond, fun rest _ => ?_⟩
    rw [List.cons_append, List.append_assoc, List.cons_append, List.append_assoc,
      List.cons_append, List.cons_append, List.append_assoc, List.singleton_append, statement,
      bind_of_ok (peek_cons _ _)]
    simp only [hfirst]
    refine (bind_of_ok (skip_cons _ _)).trans ?_
    refine (bind_of_ok (hcondition _ ((begins_cons hopening).stops (by decide) _))).trans ?_
    refine (bind_of_ok (expect_of_eq hopening)).trans ?_
    refine (bind_of_ok (hblock _ (begins_cons hword))).trans ?_
    refine (bind_of_ok (accept_of_eq hword)).trans ?_
    refine (bind_of_ok (hother _ (begins_cons hlast))).trans ?_
    exact bind_of_ok (expect_of_eq hlast)

/-- An empty block, before one of its terminators. -/
theorem AnswersBlock.nil {count : Nat} (terminators : List String) :
    AnswersBlock budget (count + 1) terminators [] [] := by
  intro terminator hterminator
  refine ⟨[], rfl, fun rest hrest => ?_⟩
  obtain ⟨token, more, rfl, hliteral⟩ := hrest
  have hat : atAny terminators (token :: more) = .ok (true, token :: more) := by
    rw [atAny, hliteral, List.contains_iff_mem.mpr hterminator]
  exact bind_of_ok hat

/-- A block with a statement in front, which is none of its terminators. -/
theorem AnswersBlock.cons {count : Nat} {terminators : List String} {token : Token}
    {s : Stmt Unit} (hs : AnswersStmt budget (token :: tokens) s)
    (hnot : token.literal ∉ terminators)
    (hbody : AnswersBlock budget count terminators bodyTokens body) :
    AnswersBlock budget (count + 1) terminators (token :: tokens ++ bodyTokens) (s :: body) := by
  intro terminator hterminator
  obtain ⟨tree, rfl, hs⟩ := hs
  obtain ⟨trees, rfl, hmore⟩ := hbody terminator hterminator
  refine ⟨tree :: trees, rfl, fun rest hrest => ?_⟩
  have hat (more : List Token) :
      atAny terminators (token :: more) = .ok (false, token :: more) := by
    rw [atAny, Bool.eq_false_iff.mpr fun h => hnot (List.contains_iff_mem.mp h)]
  rw [List.append_assoc]
  refine (bind_of_ok (hat _)).trans ?_
  refine (bind_of_ok (peek_cons _ _)).trans ?_
  refine (bind_of_ok (hs _ trivial)).trans ?_
  exact bind_of_ok (hmore rest hrest)

end Statements

mutual

/-- The parser of statements answers with every statement. By induction on the
derivation, together with blocks and second branches. -/
theorem DerivesStmt.answers {tokens : List Token} {s : Stmt Unit} :
    DerivesStmt tokens s → Readable tokens → ∀ budget : Nat, tokens.length ≤ budget →
      AnswersStmt budget tokens s
  | @DerivesStmt.declare _ _ tokens _ hfirst hd hlast, hread, budget, hle => by
      simp only [List.length_cons, List.length_append] at hle
      obtain ⟨nested, rfl⟩ : ∃ n, budget = n + 1 := ⟨budget - 1, by omega⟩
      exact .declare hfirst (hd.answers (hread.mono fun t ht => by simp [ht]) _ (by omega)) hlast
  | @DerivesStmt.cond _ _ _ tokens thenTokens elseTokens _ _ _ hfirst hcondition hopening hthen
      helse hlast, hread, budget, hle => by
      simp only [List.length_cons, List.length_append] at hle
      obtain ⟨nested, rfl⟩ : ∃ n, budget = n + 1 := ⟨budget - 1, by omega⟩
      exact .cond hfirst
        (hcondition.answers (hread.mono fun t ht => by simp [ht]) _ (by omega)) hopening
        (hthen.answers (hread.mono fun t ht => by simp [ht]) _ _ _ (by omega) (by omega)
          (by simp))
        (helse.answers (hread.mono fun t ht => by simp [ht]) _ (by omega)) hlast
  | @DerivesStmt.forIn _ _ _ _ _ tokens bodyTokens _ _ hfirst hname hbetween hvalue hopening hbody
      hlast, hread, budget, hle => by
      simp only [List.length_cons, List.length_append] at hle
      obtain ⟨nested, rfl⟩ : ∃ n, budget = n + 1 := ⟨budget - 1, by omega⟩
      exact .forIn hfirst hname hbetween
        (hvalue.answers (hread.mono fun t ht => by simp [ht]) _ (by omega)) hopening
        (hbody.answers (hread.mono fun t ht => by simp [ht]) _ _ _ (by omega) (by omega)
          (by simp))
        hlast
  | @DerivesStmt.whileDo _ _ _ tokens bodyTokens _ _ hfirst hcondition hopening hbody hlast, hread,
      budget, hle => by
      simp only [List.length_cons, List.length_append] at hle
      obtain ⟨nested, rfl⟩ : ∃ n, budget = n + 1 := ⟨budget - 1, by omega⟩
      exact .whileDo hfirst
        (hcondition.answers (hread.mono fun t ht => by simp [ht]) _ (by omega)) hopening
        (hbody.answers (hread.mono fun t ht => by simp [ht]) _ _ _ (by omega) (by omega)
          (by simp))
        hlast
  | @DerivesStmt.result _ _ tokens _ hfirst hvalue hlast, hread, budget, hle => by
      simp only [List.length_cons, List.length_append] at hle
      obtain ⟨nested, rfl⟩ : ∃ n, budget = n + 1 := ⟨budget - 1, by omega⟩
      exact .result hfirst
        (hvalue.answers (hread.mono fun t ht => by simp [ht]) _ (by omega)) hlast
  | @DerivesStmt.expression _ tokens _ h hlast, hread, budget, hle => by
      rw [List.length_append, List.length_singleton] at hle
      obtain ⟨nested, rfl⟩ : ∃ n, budget = n + 1 := ⟨budget - 1, by omega⟩
      -- Whether a statement begins with a word is seen at its first token, so the
      -- expression has to be taken apart that far.
      have he := h.answers (hread.mono (by simp)) (nested + 1) (by omega)
      obtain ⟨first, more, rfl, hstart⟩ := h.exists_cons
      exact .expression hstart (hread.genuine first (by simp)) he hlast
  | @DerivesStmt.assign _ _ targetTokens valueTokens _ _ htarget hequals hvalue hlast, hread,
      budget, hle => by
      simp only [List.length_cons, List.length_append] at hle
      obtain ⟨nested, rfl⟩ : ∃ n, budget = n + 1 := ⟨budget - 1, by omega⟩
      have he := htarget.answers (hread.mono (by simp)) (nested + 1) (by omega)
      have hv := hvalue.answers (hread.mono fun t ht => by simp [ht]) (nested + 1) (by omega)
      obtain ⟨first, more, rfl, hstart⟩ := htarget.exists_cons
      exact .assign hstart (hread.genuine first (by simp)) he hequals hv hlast

/-- The parser of blocks answers with every block, whichever of the two words ends
it. -/
theorem DerivesBlock.answers {tokens : List Token} {body : List (Stmt Unit)} :
    DerivesBlock tokens body → Readable tokens →
      ∀ (budget count : Nat) (terminators : List String), tokens.length ≤ budget →
        tokens.length < count → terminators ⊆ ["ELSE", "END"] →
        AnswersBlock budget count terminators tokens body
  | .nil, _, _, count, _, _, hcount, _ => by
      obtain ⟨count, rfl⟩ : ∃ n, count = n + 1 := ⟨count - 1, by omega⟩
      exact .nil _
  | @DerivesBlock.cons tokens _ _ _ hs hrest, hread, budget, count, terminators, hle, hcount,
      hwords => by
      rw [List.length_append] at hle hcount
      obtain ⟨count, rfl⟩ : ∃ n, count = n + 1 := ⟨count - 1, by omega⟩
      have hstmt := hs.answers (hread.mono (by simp)) budget (by omega)
      -- A statement has at least one token, and so the tokens behind it leave a
      -- step of the block to read them. The statement is taken apart only
      -- afterwards, as the recursion needs it whole.
      have hmore (hpositive : 0 < tokens.length) := hrest.answers
        (hread.mono fun t ht => by simp [ht]) budget count terminators (by omega) (by omega) hwords
      obtain ⟨token, more, rfl, hnot⟩ := hs.exists_cons (hread.mono (by simp))
      exact .cons hstmt (fun hmem => hnot (hwords hmem)) (hmore (Nat.succ_pos _))

/-- A second branch is a block behind its word, or there is none. -/
theorem DerivesElse.answers {tokens : List Token} {body : List (Stmt Unit)} :
    DerivesElse tokens body → Readable tokens → ∀ budget : Nat, tokens.length ≤ budget →
      tokens = [] ∧ body = [] ∨ ∃ word restTokens, tokens = word :: restTokens
        ∧ word.literal = "ELSE" ∧ AnswersBlock budget (budget + 1) ["END"] restTokens body
  | .absent, _, _, _ => .inl ⟨rfl, rfl⟩
  | @DerivesElse.present _ tokens _ hfirst hbody, hread, budget, hle => by
      rw [List.length_cons] at hle
      exact .inr ⟨_, tokens, rfl, hfirst,
        hbody.answers (hread.mono (by simp)) _ _ _ (by omega) (by omega) (by simp)⟩

end

/-! ### Fields, methods and programs -/

/-- A name is no closing parenthesis. -/
theorem literal_ne_of_isName (h : token.isName = true)
    (hclass : TokenClass token.kind token.literal.toList) : token.literal ≠ ")" := by
  intro hparen
  exact (StartsExpr.name h).not_mem hclass (by rw [hparen]; decide)

/-- Parameters that have begun are read up to the closing parenthesis. -/
theorem DerivesParameterSeries.moreParameters_eq {tokens : List Token}
    {parameters : List (String × String)} (h : DerivesParameterSeries tokens parameters)
    {count : Nat} (hcount : tokens.length ≤ count) {paren : Token} (hparen : paren.literal = ")") :
    moreParameters count (tokens ++ paren :: rest) = .ok (parameters, rest) := by
  induction h generalizing count with
  | one hname hcolon htype =>
      obtain ⟨count, rfl⟩ : ∃ n, count = n + 1 := ⟨count - 1, by simp at hcount; omega⟩
      have hbegins : Begins ")" (paren :: rest) := begins_cons hparen
      refine (bind_of_ok (expectName_of_isName hname)).trans ?_
      refine (bind_of_ok (expect_of_eq hcolon)).trans ?_
      refine (bind_of_ok (expectName_of_isName htype)).trans ?_
      refine (bind_of_ok (accept_of_ne (hbegins.ne (by decide)))).trans ?_
      exact bind_of_ok (expect_of_eq hparen)
  | more hname hcolon htype hcomma _ ih =>
      simp only [List.length_cons] at hcount
      obtain ⟨count, rfl⟩ : ∃ n, count = n + 1 := ⟨count - 1, by omega⟩
      refine (bind_of_ok (expectName_of_isName hname)).trans ?_
      refine (bind_of_ok (expect_of_eq hcolon)).trans ?_
      refine (bind_of_ok (expectName_of_isName htype)).trans ?_
      refine (bind_of_ok (accept_of_eq hcomma)).trans ?_
      exact bind_of_ok (ih (by omega))

/-- Parameters are read before what comes after them. -/
theorem DerivesParameters.bind_eq {β : Type} {tokens : List Token}
    {parameters : List (String × String)} (h : DerivesParameters tokens parameters)
    (hread : Readable tokens) {count : Nat} (hcount : tokens.length ≤ count)
    {f : List (String × String) → Parser β} :
    (do
      let parameters ← if ← accept ")" then pure [] else moreParameters count
      f parameters : Parser β) (tokens ++ rest) = f parameters rest := by
  cases h with
  | none hparen => exact bind_of_ok (accept_of_eq hparen)
  | @some tokens paren parameters hparameters hparen =>
      rw [List.length_append] at hcount
      have hnot : ∀ token ∈ (tokens ++ paren :: rest).head?, token.literal ≠ ")" := by
        intro token htoken
        cases hparameters with
        | one hname | more hname =>
            obtain rfl := Option.some.inj htoken
            exact literal_ne_of_isName hname (hread.genuine _ (by simp))
      rw [List.append_assoc, List.singleton_append]
      refine (bind_of_ok (accept_of_ne hnot)).trans ?_
      exact bind_of_ok (hparameters.moreParameters_eq (by omega) hparen)

/-- The parser of methods answers with every method behind its first word. -/
theorem DerivesMethod.answers {tokens : List Token} {m : Method Unit} (h : DerivesMethod tokens m)
    (hread : Readable tokens) (budget : Nat) (hle : tokens.length ≤ budget) :
    ∃ first behind, tokens = first :: behind ∧ first.literal = "DEF"
      ∧ Answers (method first.offset budget) Method.bare (fun _ => True) behind m := by
  cases h with
  | @mk first name paren opening last parameterTokens typeTokens bodyTokens parameters returnType
      body hfirst hname hparen hparameters htype hopening hbody hlast =>
      simp only [List.length_cons, List.length_append] at hle
      obtain ⟨trees, rfl, hblock⟩ := hbody.answers (hread.mono fun t ht => by simp [ht]) budget
        budget ["END"] (by omega) (by omega) (by simp) "END" (by simp)
      refine ⟨first, _, rfl, hfirst, ⟨first.offset, name.literal, parameters.map (·.1),
        parameters.map (·.2), returnType, trees⟩, Method.bare_mk, fun rest _ => ?_⟩
      rw [List.cons_append, List.cons_append, List.append_assoc, List.append_assoc,
        List.cons_append, List.append_assoc, List.singleton_append]
      refine (bind_of_ok (expectName_of_isName hname)).trans ?_
      refine (bind_of_ok (expect_of_eq hparen)).trans ?_
      refine (hparameters.bind_eq (hread.mono fun t ht => by simp [ht]) (by omega)).trans ?_
      refine (htype.bind_eq ((begins_cons hopening).ne (by decide))).trans ?_
      refine (bind_of_ok (expect_of_eq hopening)).trans ?_
      refine (bind_of_ok (hblock _ (begins_cons hlast))).trans ?_
      exact bind_of_ok (expect_of_eq hlast)

/-- The parser of fields answers with every field behind its first word. -/
theorem DerivesField.answers {tokens : List Token} {f : Field Unit} (h : DerivesField tokens f)
    (hread : Readable tokens) (budget : Nat) (hle : tokens.length ≤ budget) :
    ∃ first behind, tokens = first :: behind ∧ first.literal = "LET"
      ∧ Answers (field first.offset budget) Field.bare (fun _ => True) behind f := by
  cases h with
  | @mk first last tokens d hfirst hd hlast =>
      simp only [List.length_cons, List.length_append] at hle
      obtain ⟨tree, rfl, hanswers⟩ := hd.answers (hread.mono fun t ht => by simp [ht]) budget
        (by omega)
      refine ⟨first, _, rfl, hfirst, ⟨first.offset, tree⟩, rfl, fun rest _ => ?_⟩
      rw [List.append_assoc, List.singleton_append]
      refine (bind_of_ok (hanswers _ (begins_cons hlast))).trans ?_
      exact bind_of_ok (expect_of_eq hlast)

/-- All items that begin with one word are read, up to another word. By induction on
the items. -/
theorem DerivesAll.answers {α β : Type} {R : List Token → β → Prop} {literal : String}
    {item : Offset → Parser α} {bare : α → β} {budget : Nat}
    (hitem : ∀ {tokens : List Token} {b : β}, R tokens b → Readable tokens →
      tokens.length ≤ budget → ∃ first behind, tokens = first :: behind
        ∧ first.literal = literal ∧ Answers (item first.offset) bare (fun _ => True) behind b)
    {tokens : List Token} {list : List β} (h : DerivesAll R tokens list) (hread : Readable tokens)
    (hle : tokens.length ≤ budget) (count : Nat) (hcount : tokens.length < count) :
    Answers (many literal item count) (List.map bare)
      (fun rest => ∀ token ∈ rest.head?, token.literal ≠ literal) tokens list := by
  induction h generalizing count with
  | nil =>
      obtain ⟨count, rfl⟩ : ∃ n, count = n + 1 := ⟨count - 1, by omega⟩
      refine ⟨[], rfl, fun rest hrest => ?_⟩
      cases rest with
      | nil => rfl
      | cons token more =>
          refine (bind_of_ok (peek_cons _ _)).trans ?_
          dsimp only
          rw [if_neg (hrest token rfl)]
          rfl
  | @cons part others b list ha _ ih =>
      rw [List.length_append] at hle hcount
      obtain ⟨count, rfl⟩ : ∃ n, count = n + 1 := ⟨count - 1, by omega⟩
      obtain ⟨first, behind, rfl, hliteral, tree, rfl, hfirst⟩ :=
        hitem ha (hread.mono (by simp)) (by omega)
      rw [List.length_cons] at hcount
      obtain ⟨trees, rfl, hmore⟩ := ih (hread.mono fun t ht => by simp [ht]) (by omega) count
        (by omega)
      -- One step of the parser: it looks at the word, drops it, reads the item
      -- and goes on.
      refine ⟨tree :: trees, rfl, fun rest hrest => ?_⟩
      rw [List.append_assoc]
      refine (bind_of_ok (peek_cons _ _)).trans ?_
      dsimp only
      rw [if_pos hliteral]
      refine (bind_of_ok (skip_cons _ _)).trans ?_
      refine (bind_of_ok (hfirst _ trivial)).trans ?_
      exact bind_of_ok (hmore rest hrest)

/-- The parser answers with every program, and no token is left. -/
theorem Derives.exists_program {tokens : List Token} {T : Program Unit} (h : Derives tokens T)
    (hread : Readable tokens) {budget : Nat} (hlt : tokens.length < budget) :
    ∃ program : Program Offset, program.bare = T
      ∧ Parser.program budget tokens = .ok (program, []) := by
  cases h with
  | @mk fieldTokens methodTokens fields methods hfields hmethods =>
      rw [List.length_append] at hlt
      have hf : Answers (many "LET" (field · budget) budget) (List.map Field.bare) _ fieldTokens
          fields :=
        hfields.answers (fun h hread hle => h.answers hread budget hle) (hread.mono (by simp))
          (by omega) budget (by omega)
      have hm : Answers (many "DEF" (method · budget) budget) (List.map Method.bare) _
          methodTokens methods :=
        hmethods.answers (fun h hread hle => h.answers hread budget hle)
          (hread.mono (by simp)) (by omega) budget (by omega)
      obtain ⟨fieldTrees, rfl, hf⟩ := hf
      obtain ⟨methodTrees, rfl, hm⟩ := hm
      refine ⟨⟨fieldTrees, methodTrees⟩, rfl, ?_⟩
      -- The fields stop where the methods begin, as no method begins with their
      -- word.
      have hnot : ∀ token ∈ methodTokens.head?, token.literal ≠ "LET" := by
        intro token htoken
        generalize methodTrees.map Method.bare = list at hmethods
        cases hmethods with
        | nil => simp at htoken
        | cons ha _ =>
            cases ha with
            | mk hfirst =>
                obtain rfl := Option.some.inj htoken
                rw [hfirst]
                decide
      have hrest := hm [] (by simp)
      rw [List.append_nil] at hrest
      refine (bind_of_ok (hf _ hnot)).trans ?_
      exact bind_of_ok hrest

end PlcLang.Proofs
