import PlcLang.Proofs.Grammar.Soundness

/-!
# `PlcLang.Proofs.Grammar.Ownership`: the tokens of a node

A field, a method, a statement or an expression of a tree is a `Node`. A node *owns* a run of
tokens (`Owns`) if it is derived from the run, its mark is the offset of the run's first
token, and its children own runs inside of it, one behind the other (`OwnsAll`).

Every node that the parser makes owns the tokens that it is made of. The lemmas follow the
parser function by function, as in `Soundness`, and take over from there which tokens derive
what. What is new is where a node begins: an operator and a member access stand behind their
first operand and begin with it, and a statement begins at the token that was seen in front,
whoever takes it (`owns_expression`, `owns_statement`, `ownsAll_of_program`).
-/

set_option autoImplicit false

namespace PlcLang

variable {α : Type}

/-! ### Nodes -/

/-- A node of a tree, with all that is below it: whatever the parser gives a place
of its own. -/
inductive Node (α : Type) where
  | field (f : Field α)
  | method (m : Method α)
  | statement (s : Stmt α)
  | expression (e : Expr α)

/-- The expressions right below an expression, from left to right. -/
@[simp] def Expr.children : Expr α → List (Expr α)
  | group _ inner => [inner]
  | binary _ _ left right => [left, right]
  | field _ receiver _ => [receiver]
  | call _ _ arguments => arguments
  | methodCall _ receiver _ arguments => receiver :: arguments
  | nil _ | boolean .. | integer .. | decimal .. | character .. | string .. | var ..
  | foreign .. => []

/-- The first value of a declaration, if it has one. The declaration itself is no
node. -/
@[simp] def Declaration.children (d : Declaration α) : List (Node α) :=
  d.value.toList.map .expression

/-- The nodes right below a statement, in the order of the text. -/
@[simp] def Stmt.children : Stmt α → List (Node α)
  | expression _ value | result _ value => [.expression value]
  | declare _ d => d.children
  | assign _ target value => [.expression target, .expression value]
  | cond _ condition thenBody elseBody =>
    .expression condition :: (thenBody.map .statement ++ elseBody.map .statement)
  | forIn _ _ value body | whileDo _ value body => .expression value :: body.map .statement
  | foreign .. => []

namespace Node

/-- The node's own mark. -/
def mark : Node α → α
  | field f => f.mark
  | method m => m.mark
  | statement s => s.mark
  | expression e => e.mark

/-- The nodes right below a node, in the order of the text. -/
@[simp] def children : Node α → List (Node α)
  | field f => f.declaration.children
  | method m => m.body.map .statement
  | statement s => s.children
  | expression e => e.children.map .expression

/-- The marks of a node and of all below it, each node before its children. -/
def marks : Node α → List α
  | field f => f.marks
  | method m => m.marks
  | statement s => s.marks
  | expression e => e.marks

/-- The marks of expressions as nodes are those of the expressions. -/
theorem flatMap_marks_expression (list : List (Expr α)) :
    (list.map expression).flatMap marks = Expr.marksAll list := by
  induction list with
  | nil => rfl
  | cons e rest ih => rw [List.map_cons, List.flatMap_cons, ih, Expr.marksAll, marks]

/-- The marks of statements as nodes are those of the statements. -/
theorem flatMap_marks_statement (list : List (Stmt α)) :
    (list.map statement).flatMap marks = Stmt.marksAll list := by
  induction list with
  | nil => rfl
  | cons s rest ih => rw [List.map_cons, List.flatMap_cons, ih, Stmt.marksAll, marks]

/-- The marks below a declaration are those of its value. -/
theorem flatMap_marks_declaration (d : Declaration α) : d.children.flatMap marks = d.marks := by
  obtain ⟨name, typeName, value⟩ := d
  cases value with
  | none => rfl
  | some value => exact List.append_nil value.marks

/-- A walk through the marks begins at the root and goes on through the children. -/
theorem marks_eq (node : Node α) : node.marks = node.mark :: node.children.flatMap marks := by
  cases node with
  | field f =>
      rw [children, flatMap_marks_declaration]
      rfl
  | method m =>
      rw [children, flatMap_marks_statement]
      rfl
  | statement s =>
      cases s <;> simp only [children, Stmt.children, marks, mark, Stmt.marks, Stmt.mark,
        List.flatMap_cons, List.flatMap_append, flatMap_marks_statement, flatMap_marks_declaration,
        List.flatMap_nil, List.append_nil]
  | expression e =>
      rw [children, flatMap_marks_expression]
      cases e <;> simp only [Expr.children, marks, mark, Expr.marks, Expr.mark, Expr.marksAll,
        List.append_nil]

end Node

/-- The node is one of these or, at whatever depth, below one of them. -/
inductive Node.Among (node : Node α) : List (Node α) → Prop where
  | here {nodes : List (Node α)} (h : node ∈ nodes) : Among node nodes
  | inside {nodes : List (Node α)} {parent : Node α} (hparent : parent ∈ nodes)
      (h : Among node parent.children) : Among node nodes

/-- The fields and the methods of a program, in the order of the text. The other
nodes are below them. -/
def Program.nodes (program : Program α) : List (Node α) :=
  program.fields.map .field ++ program.methods.map .method

/-- A walk through the marks of a program is one through its fields and methods. -/
theorem Program.marks_eq (program : Program α) :
    program.marks = program.nodes.flatMap Node.marks := by
  rw [nodes, List.flatMap_append, List.flatMap_map, List.flatMap_map]
  rfl

namespace Proofs

open PlcLang.Parser

/-! ### Runs of tokens -/

/-- The tokens, all of them and in this order, are a text of the node. -/
def DerivesNode (tokens : List Token) : Node Offset → Prop
  | .field f => DerivesField tokens f.bare
  | .method m => DerivesMethod tokens m.bare
  | .statement s => DerivesStmt tokens s.bare
  | .expression e => ∃ level, DerivesExpr level tokens e.bare

/-- There are tokens, and the first one stands at that offset. -/
def StartsAt (tokens : List Token) (offset : Offset) : Prop :=
  ∃ first rest, tokens = first :: rest ∧ first.offset = offset

mutual

/-- The node owns the tokens: they are a text of it, its mark is the offset of the first of
them, and its children own runs of them. -/
inductive Owns : List Token → Node Offset → Prop where
  | mk {tokens : List Token} {node : Node Offset} (hstart : StartsAt tokens node.mark)
      (hderives : DerivesNode tokens node) (hchildren : OwnsAll tokens node.children) :
      Owns tokens node

/-- The nodes own runs of the tokens, one behind the other. Tokens between the runs and behind
them belong to none of the nodes. -/
inductive OwnsAll : List Token → List (Node Offset) → Prop where
  | nil {tokens : List Token} : OwnsAll tokens []
  | cons {gap run rest : List Token} {node : Node Offset} {nodes : List (Node Offset)}
      (hnode : Owns run node) (hrest : OwnsAll rest nodes) :
      OwnsAll (gap ++ (run ++ rest)) (node :: nodes)

end

variable {first second tokens : List Token} {token : Token} {nodes others : List (Node Offset)}

/-- Tokens behind do not matter for where a list starts. -/
theorem StartsAt.append {offset : Offset} (h : StartsAt first offset) (second : List Token) :
    StartsAt (first ++ second) offset := by
  obtain ⟨token, rest, rfl, hoffset⟩ := h
  exact ⟨token, rest ++ second, rfl, hoffset⟩

/-- A list starts where its first token stands. -/
theorem startsAt_cons (token : Token) (rest : List Token) :
    StartsAt (token :: rest) token.offset :=
  ⟨token, rest, rfl, rfl⟩

/-- A node is marked where its tokens start. -/
theorem Owns.startsAt {node : Node Offset} (h : Owns tokens node) : StartsAt tokens node.mark := by
  cases h with
  | mk hstart _ _ => exact hstart

/-- The tokens of a node are a text of it. -/
theorem Owns.derivesNode {node : Node Offset} (h : Owns tokens node) : DerivesNode tokens node := by
  cases h with
  | mk _ hderives _ => exact hderives

/-- The children of a node own runs of its tokens. -/
theorem Owns.children {node : Node Offset} (h : Owns tokens node) :
    OwnsAll tokens node.children := by
  cases h with
  | mk _ _ hchildren => exact hchildren

/-- Tokens in front belong to none of the nodes. -/
theorem OwnsAll.append_left (h : OwnsAll second nodes) (first : List Token) :
    OwnsAll (first ++ second) nodes := by
  cases h with
  | nil => exact .nil
  | cons hnode hrest =>
      rw [← List.append_assoc]
      exact .cons hnode hrest

/-- So it is with one token in front. -/
theorem OwnsAll.cons_left (h : OwnsAll tokens nodes) (token : Token) :
    OwnsAll (token :: tokens) nodes :=
  h.append_left [token]

/-- Nodes in a first part of the tokens and nodes in a second one. -/
theorem OwnsAll.append {first second : List Token} {nodes others : List (Node Offset)} :
    OwnsAll first nodes → OwnsAll second others → OwnsAll (first ++ second) (nodes ++ others)
  | .nil, hothers => hothers.append_left first
  | .cons hnode hrest, hothers => by
      rw [List.append_assoc, List.append_assoc]
      exact .cons hnode (hrest.append hothers)

/-- Tokens behind belong to none of the nodes. -/
theorem OwnsAll.append_right (h : OwnsAll first nodes) (second : List Token) :
    OwnsAll (first ++ second) nodes := by
  simpa using h.append (.nil : OwnsAll second [])

/-- A single node owns a run of its own tokens, which is all of them. -/
theorem Owns.one {node : Node Offset} (h : Owns tokens node) : OwnsAll tokens [node] := by
  have hone : OwnsAll ([] ++ (tokens ++ [])) [node] := .cons h .nil
  simpa using hone

/-- Each of the nodes owns a run of the tokens. -/
theorem OwnsAll.exists_run_of_mem {tokens : List Token} {nodes : List (Node Offset)}
    {node : Node Offset} : OwnsAll tokens nodes → node ∈ nodes →
      ∃ before run behind, tokens = before ++ (run ++ behind) ∧ Owns run node
  | @OwnsAll.cons gap run rest _ _ hnode hrest, hmem => by
      rcases List.mem_cons.mp hmem with rfl | hmem
      · exact ⟨gap, run, rest, rfl, hnode⟩
      · obtain ⟨before, other, behind, rfl, hother⟩ := hrest.exists_run_of_mem hmem
        exact ⟨gap ++ (run ++ before), other, behind, by simp, hother⟩

/-- So does every node below one of them. The induction is on how deep it is. -/
theorem OwnsAll.exists_run {node : Node Offset} (h : OwnsAll tokens nodes)
    (hamong : node.Among nodes) :
    ∃ before run behind, tokens = before ++ (run ++ behind) ∧ Owns run node := by
  induction hamong generalizing tokens with
  | here hmem => exact h.exists_run_of_mem hmem
  | inside hparent _ ih =>
      obtain ⟨before, run, behind, rfl, howns⟩ := h.exists_run_of_mem hparent
      obtain ⟨first, inner, last, rfl, hinner⟩ := ih howns.children
      exact ⟨before ++ first, inner, last ++ behind, by simp, hinner⟩

/-- What makes a node own tokens, but that they derive it. The latter is known from
`Soundness`. -/
structure Encloses (tokens : List Token) (node : Node Offset) : Prop where
  starts : StartsAt tokens node.mark
  children : OwnsAll tokens node.children

/-- So a node that is derived and encloses its tokens owns them. -/
theorem Encloses.owns {node : Node Offset} (h : Encloses tokens node)
    (hderives : DerivesNode tokens node) : Owns tokens node :=
  .mk h.starts hderives h.children

/-- A node that begins at the token in front, with its children behind the token. -/
theorem encloses_cons {node : Node Offset} (hmark : node.mark = token.offset)
    (hchildren : OwnsAll tokens node.children) : Encloses (token :: tokens) node := by
  refine ⟨?_, hchildren.cons_left token⟩
  rw [hmark]
  exact startsAt_cons token tokens

/-! ### Combinators -/

variable {α β : Type}

/-- What a parser takes is determined, so two facts about it are one. -/
theorem Reads.and {p : Parser α} {Q R : List Token → α → Prop} (h : Reads p Q)
    (hother : Reads p R) : Reads p fun used a => Q used a ∧ R used a := by
  intro tokens a rest hgenuine hp
  obtain ⟨used, rfl, hread, hQ⟩ := h tokens a rest hgenuine hp
  obtain ⟨other, hsame, -, hR⟩ := hother _ a rest hgenuine hp
  obtain rfl := List.append_cancel_right hsame
  exact ⟨used, rfl, hread, hQ, hR⟩

/-- What is read where a token stands in front begins with the token. -/
theorem readsAt_begins {p : Parser α} {Q : List Token → α → Prop}
    (h : Reads p fun used a => used ≠ [] ∧ (StartsAt used token.offset → Q used a)) :
    ReadsAt token p Q := by
  intro more a rest hgenuine hp
  obtain ⟨used, heq, hread, hne, hQ⟩ := h _ a rest hgenuine hp
  refine ⟨used, heq, hread, hQ ?_⟩
  cases used with
  | nil => exact absurd rfl hne
  | cons first behind =>
      obtain rfl := (List.cons.inj heq).1
      exact startsAt_cons _ behind

/-- A part that is there if a word is, and what comes after it. The nodes of the part own runs
of what is read, with or without the word in front. -/
theorem ownsAll_optional {literal : String} {p q : Parser α} {f : α → Parser β}
    {Q : List Token → β → Prop} (nodes : α → List (Node Offset))
    (hdigit : literal.toList.any Text.isDigit = false)
    (hp : Reads p fun used a => OwnsAll used (nodes a))
    (hq : Reads q fun used a => OwnsAll used (nodes a))
    (hf : ∀ a first, OwnsAll first (nodes a) →
      Reads (f a) fun second b => Q (first ++ second) b) :
    Reads (do
      let a ← if ← accept literal then p else q
      f a) Q := by
  refine (reads_accept hdigit).bind fun accepted first h => ?_
  cases accepted with
  | true =>
      obtain ⟨token, rfl, -⟩ := h
      refine hp.bind fun a second ha => ?_
      simpa using hf a (token :: second) (ha.cons_left token)
  | false =>
      obtain rfl : first = [] := h
      exact hq.bind hf

/-! ### Expressions -/

/-- The tokens derive the expression at that level, and it owns them. -/
structure OwnsExpr (level : Level) (tokens : List Token) (e : Expr Offset) : Prop where
  derives : DerivesExpr level tokens e.bare
  owns : Owns tokens (.expression e)

variable {level : Level} {e left right receiver : Expr Offset}

/-- An expression owns what derives it if it begins there and its children are
inside. -/
theorem DerivesExpr.owns (h : DerivesExpr level tokens e.bare)
    (hencloses : Encloses tokens (.expression e)) : OwnsExpr level tokens e :=
  ⟨h, hencloses.owns ⟨level, h⟩⟩

/-- An operand alone is a chain of one. -/
theorem OwnsExpr.operand {p : Precedence} (h : OwnsExpr (operandLevel p) tokens e) :
    OwnsExpr (.operators p) tokens e :=
  ⟨.operand h.derives, h.owns⟩

/-- A primary expression alone is one without member accesses. -/
theorem OwnsExpr.simple (h : OwnsExpr .primary tokens e) : OwnsExpr .members tokens e :=
  ⟨.simple h.derives, h.owns⟩

/-- An operation begins with its left operand, and is marked like it. -/
theorem OwnsExpr.binary {p : Precedence} {op : BinaryOp}
    (hleft : OwnsExpr (.operators p) first left) (hop : IsOperator p token op)
    (hright : OwnsExpr (operandLevel p) second right) :
    OwnsExpr (.operators p) (first ++ token :: second) (.binary left.mark op left right) :=
  (DerivesExpr.binary hleft.derives hop hright.derives).owns
    ⟨hleft.owns.startsAt.append _, hleft.owns.one.append (hright.owns.one.cons_left token)⟩

/-- A member access begins with its receiver, and is marked like it. -/
theorem OwnsExpr.field {point name : Token} (hreceiver : OwnsExpr .members tokens receiver)
    (hpoint : point.literal = ".") (hname : name.isName = true) :
    OwnsExpr .members (tokens ++ [point, name]) (.field receiver.mark receiver name.literal) :=
  (DerivesExpr.field hreceiver.derives hpoint hname).owns
    ⟨hreceiver.owns.startsAt.append _, hreceiver.owns.one.append_right _⟩

/-- So does a call of a member. -/
theorem OwnsExpr.methodCall {point name paren : Token} {arguments : List (Expr Offset)}
    (hreceiver : OwnsExpr .members first receiver) (hpoint : point.literal = ".")
    (hname : name.isName = true) (hparen : paren.literal = "(")
    (hderives : DerivesArguments second (arguments.map Expr.bare))
    (howns : OwnsAll second (arguments.map .expression)) :
    OwnsExpr .members (first ++ point :: name :: paren :: second)
      (.methodCall receiver.mark receiver name.literal arguments) := by
  have h := DerivesExpr.methodCall hreceiver.derives hpoint hname hparen hderives
  rw [← Expr.bare_methodCall] at h
  refine h.owns ⟨hreceiver.owns.startsAt.append _, ?_⟩
  exact hreceiver.owns.one.append (howns.append_left [point, name, paren])

/-- More operands behind a left one, with which all of them begin. -/
theorem owns_chain {precedence : Precedence} {operand : Parser (Expr Offset)}
    (hoperand : Reads operand (OwnsExpr (operandLevel precedence))) (budget : Nat)
    (hleft : OwnsExpr (.operators precedence) first left) :
    Reads (chain precedence operand budget left) fun used e =>
      OwnsExpr (.operators precedence) (first ++ used) e := by
  -- What is read so far owns its tokens whether or not more is read, and becomes the first
  -- child of what is read next. So its first token stays the first one.
  induction budget generalizing first left with
  | zero => exact .pure (by simpa using hleft)
  | succ budget ih =>
      refine reads_acceptOperator.bind fun op? used hop => ?_
      cases op? with
      | none =>
          subst hop
          exact .pure (by simpa using hleft)
      | some op =>
          obtain ⟨token, rfl, hop⟩ := hop
          refine hoperand.bind fun right second hright => ?_
          refine (ih (hleft.binary hop hright)).mono fun used e h => ?_
          simpa using h

/-- Operands of one level own what they are read from. -/
theorem owns_operands (precedence : Precedence) {operand : Parser (Expr Offset)}
    (hoperand : Reads operand (OwnsExpr (operandLevel precedence))) (budget : Nat) :
    Reads (operands precedence budget operand) (OwnsExpr (.operators precedence)) :=
  hoperand.bind fun _ _ hleft => owns_chain hoperand budget hleft.operand

section Expressions

variable {expression : Parser (Expr Offset)} (hexpression : Reads expression (OwnsExpr anyLevel))

include hexpression

/-- A list of arguments that has begun: each of them owns a run. -/
theorem ownsAll_moreArguments (budget : Nat) :
    Reads (moreArguments expression budget) fun used arguments =>
      OwnsAll used (arguments.map .expression) := by
  induction budget with
  | zero => exact reads_fail
  | succ budget ih =>
      refine hexpression.bind fun e first he => ?_
      refine (reads_accept (by decide)).bind fun accepted second _ => ?_
      cases accepted with
      | true =>
          refine ih.bind fun more third hmore => .pure ?_
          simpa using he.owns.one.append (hmore.append_left second)
      | false =>
          refine (reads_expect (by decide)).bind fun _ third _ => .pure ?_
          simpa using he.owns.one.append_right (second ++ third)

/-- Arguments derive from what is read, and own runs of it. -/
theorem ownsAll_arguments (budget : Nat) :
    Reads (arguments expression budget) fun used arguments =>
      DerivesArguments used (arguments.map Expr.bare)
        ∧ OwnsAll used (arguments.map .expression) := by
  refine (reads_arguments (hexpression.mono fun _ _ h => h.derives) budget).and ?_
  refine (reads_accept (by decide)).bind fun accepted first _ => ?_
  cases accepted with
  | true => exact .pure .nil
  | false =>
      exact (ownsAll_moreArguments hexpression budget).mono fun used _ h => h.append_left first

/-- A word where an expression begins is the first of its tokens. -/
theorem encloses_word (budget : Nat) :
    ReadsAt token (word expression budget token) fun used e => Encloses used (.expression e) := by
  unfold word
  rw [present_bind]
  split
  · next h => exact readsAt_skipWord h (by decide) (.pure ⟨startsAt_cons token [], .nil⟩)
  · next h => exact readsAt_skipWord h (by decide) (.pure ⟨startsAt_cons token [], .nil⟩)
  · next h => exact readsAt_skipWord h (by decide) (.pure ⟨startsAt_cons token [], .nil⟩)
  · -- the name that is taken is the token in front, and the node has that token's offset
    refine readsAt_begins ?_
    refine reads_expectName.bind fun name first hname => ?_
    obtain ⟨name, rfl, -, rfl⟩ := hname
    refine (reads_accept (by decide)).bind fun accepted second _ => ?_
    cases accepted with
    | true =>
        refine (ownsAll_arguments hexpression budget).bind fun arguments third h => .pure ?_
        refine ⟨by simp, fun hstart => ⟨hstart, ?_⟩⟩
        simpa using h.2.append_left (name :: second)
    | false => exact .pure ⟨by simp, fun hstart => ⟨hstart, .nil⟩⟩

/-- An expression without operators and member accesses owns what it is read from. -/
theorem owns_primary (budget : Nat) :
    Reads (primary expression budget) (OwnsExpr .primary) := by
  -- Which tokens derive the expression is known. What is left is where it begins, which is the
  -- token in front in each case, and what is inside.
  have hderives := reads_primary (hexpression.mono fun _ _ h => h.derives) budget
  have hencloses : Reads (primary expression budget) fun used e =>
      Encloses used (.expression e) := by
    refine reads_peek reads_fail fun token _ => ?_
    dsimp only
    split
    · next hkind =>
        split
        · exact readsAt_skip (by simp [hkind]) (.pure ⟨startsAt_cons token [], .nil⟩)
        · exact readsAt_skip_throw
    · split
      · next hread =>
          exact readsAt_skip (fun _ => by simp [hread]) (.pure ⟨startsAt_cons token [], .nil⟩)
      · exact readsAt_skip_throw
    · next hkind => exact readsAt_skip (by simp [hkind]) (.pure ⟨startsAt_cons token [], .nil⟩)
    · next hkind => exact readsAt_skip (by simp [hkind]) (.pure ⟨startsAt_cons token [], .nil⟩)
    · exact encloses_word hexpression budget
    · refine readsAt_begins ((reads_accept (by decide)).bind fun accepted first h => ?_)
      cases accepted with
      | false => exact reads_fail
      | true =>
          obtain ⟨left, rfl, -⟩ := h
          refine hexpression.bind fun inner second hinner => ?_
          refine (reads_expect (by decide)).bind fun _ third _ => .pure ?_
          refine ⟨by simp, fun hstart => ⟨hstart, ?_⟩⟩
          simpa using (hinner.owns.one.append_right third).cons_left left
  exact (hderives.and hencloses).mono fun used e h => h.1.owns h.2

/-- Member accesses behind a receiver, with which all of them begin. -/
theorem owns_members (budget : Nat) (hreceiver : OwnsExpr .members first receiver) :
    Reads (members expression budget receiver) fun used e =>
      OwnsExpr .members (first ++ used) e := by
  induction budget generalizing first receiver with
  | zero => exact .pure (by simpa using hreceiver)
  | succ budget ih =>
      refine (reads_accept (by decide)).bind fun accepted second h => ?_
      cases accepted with
      | false =>
          obtain rfl : second = [] := h
          exact .pure (by simpa using hreceiver)
      | true =>
          obtain ⟨point, rfl, hpoint⟩ := h
          refine reads_expectName.bind fun name third hname => ?_
          obtain ⟨nameToken, rfl, hname, rfl⟩ := hname
          refine (reads_accept (by decide)).bind fun accepted fourth h => ?_
          cases accepted with
          | false =>
              obtain rfl : fourth = [] := h
              refine (ih (hreceiver.field hpoint hname)).mono fun used e h => ?_
              simpa using h
          | true =>
              obtain ⟨paren, rfl, hparen⟩ := h
              refine (ownsAll_arguments hexpression budget).bind fun arguments fifth h => ?_
              refine (ih (hreceiver.methodCall hpoint hname hparen h.1 h.2)).mono fun used e h => ?_
              simpa using h

/-- An expression with its members owns what it is read from. -/
theorem owns_postfixChain (budget : Nat) :
    Reads (postfixChain expression budget) (OwnsExpr .members) :=
  (owns_primary hexpression budget).bind fun _ _ h => owns_members hexpression budget h.simple

end Expressions

/-- An expression owns the tokens that it is read from. The induction is on the
budget. -/
theorem owns_expression (budget : Nat) : Reads (expression budget) (OwnsExpr anyLevel) := by
  induction budget with
  | zero => exact reads_fail
  | succ budget ih =>
      have hmembers := owns_postfixChain ih (budget + 1)
      have hmultiplicative := owns_operands .multiplicative hmembers (budget + 1)
      have hadditive := owns_operands .additive hmultiplicative (budget + 1)
      have hcomparison := owns_operands .comparison hadditive (budget + 1)
      exact owns_operands .logical hcomparison (budget + 1)

/-! ### Statements -/

/-- The first value of a declaration owns tokens of it. -/
theorem ownsAll_declaration (budget : Nat) :
    Reads (declaration budget) fun used d => OwnsAll used d.children := by
  refine reads_expectName.bind fun name first _ => ?_
  refine ownsAll_optional (fun _ => []) (by decide) (reads_expectName.map fun _ _ _ => .nil)
    (.pure .nil) fun typeName second _ => ?_
  refine ownsAll_optional (fun value : Option (Expr Offset) => value.toList.map .expression)
    (by decide) ((owns_expression budget).map fun _ _ h => h.owns.one) (.pure .nil)
    fun value third hvalue => .pure ?_
  simpa using hvalue.append_left (first ++ second)

/-- The statements of a block own runs of it. -/
theorem ownsAll_block {statement : Parser (Stmt Offset)}
    (hstatement : Reads statement fun used s => Owns used (.statement s))
    (terminators : List String) (budget : Nat) :
    Reads (block terminators statement budget) fun used body =>
      OwnsAll used (body.map .statement) := by
  induction budget with
  | zero => exact reads_fail
  | succ budget ih =>
      refine reads_atAny.bind fun found first h => ?_
      subst h
      cases found with
      | true => exact .pure .nil
      | false =>
          refine reads_peek reads_fail fun token _ => Reads.at ?_ token
          refine hstatement.bind fun s second hs => ih.bind fun more third hmore => .pure ?_
          simpa using hs.one.append hmore

section Statements

variable {statement : Parser (Stmt Offset)}
  (hstatement : Reads statement fun used s => Owns used (.statement s))

include hstatement

/-- A conditional behind its first word: the condition and the statements of its
branches own runs. -/
theorem ownsAll_conditional (mark : Offset) (budget : Nat) :
    Reads (conditional mark statement budget) fun used s =>
      s.mark = mark ∧ OwnsAll used s.children := by
  refine (owns_expression budget).bind fun condition first hcondition => ?_
  refine (reads_expect (by decide)).bind fun _ second _ => ?_
  refine (ownsAll_block hstatement _ budget).bind fun thenBody third hthen => ?_
  refine ownsAll_optional (fun body : List (Stmt Offset) => body.map .statement) (by decide)
    (ownsAll_block hstatement _ budget) (.pure .nil) fun elseBody fourth helse => ?_
  refine (reads_expect (by decide)).bind fun _ fifth _ => .pure ⟨rfl, ?_⟩
  have hbodies := (hthen.append helse).append_left second
  simpa using hcondition.owns.one.append (hbodies.append_right fifth)

/-- A loop over a sequence behind its first word. -/
theorem ownsAll_forLoop (mark : Offset) (budget : Nat) :
    Reads (forLoop mark statement budget) fun used s =>
      s.mark = mark ∧ OwnsAll used s.children := by
  refine reads_expectName.bind fun name first _ => ?_
  refine (reads_expect (by decide)).bind fun _ second _ => ?_
  refine (owns_expression budget).bind fun value third hvalue => ?_
  refine (reads_expect (by decide)).bind fun _ fourth _ => ?_
  refine (ownsAll_block hstatement _ budget).bind fun body fifth hbody => ?_
  refine (reads_expect (by decide)).bind fun _ sixth _ => .pure ⟨rfl, ?_⟩
  have hparts := hvalue.owns.one.append ((hbody.append_left fourth).append_right sixth)
  simpa using hparts.append_left (first ++ second)

/-- A loop on a condition behind its first word. -/
theorem ownsAll_whileLoop (mark : Offset) (budget : Nat) :
    Reads (whileLoop mark statement budget) fun used s =>
      s.mark = mark ∧ OwnsAll used s.children := by
  refine (owns_expression budget).bind fun condition first hcondition => ?_
  refine (reads_expect (by decide)).bind fun _ second _ => ?_
  refine (ownsAll_block hstatement _ budget).bind fun body third hbody => ?_
  refine (reads_expect (by decide)).bind fun _ fourth _ => .pure ⟨rfl, ?_⟩
  simpa using hcondition.owns.one.append ((hbody.append_left second).append_right fourth)

end Statements

/-- A statement that begins with an expression: it begins where the expression does. -/
theorem ownsAll_expressionStatement (mark : Offset) (budget : Nat) :
    Reads (expressionStatement mark budget) fun used s =>
      used ≠ [] ∧ s.mark = mark ∧ OwnsAll used s.children := by
  refine (owns_expression budget).bind fun target first htarget => ?_
  refine (reads_accept (by decide)).bind fun accepted second _ => ?_
  obtain ⟨token, more, rfl, -⟩ := htarget.owns.startsAt
  cases accepted with
  | true =>
      refine (owns_expression budget).bind fun value third hvalue => ?_
      refine (reads_expect (by decide)).bind fun _ fourth _ => .pure ⟨by simp, rfl, ?_⟩
      simpa using htarget.owns.one.append ((hvalue.owns.one.append_left second).append_right fourth)
  | false =>
      refine (reads_expect (by decide)).bind fun _ third _ => .pure ⟨by simp, rfl, ?_⟩
      simpa using htarget.owns.one.append_right (second ++ third)

/-- Behind its first word stands what else makes a statement. -/
theorem encloses_skipWord {literal : String} {p : Parser (Stmt Offset)}
    (hliteral : token.literal = literal) (hdigit : literal.toList.any Text.isDigit = false)
    (h : Reads p fun used s => s.mark = token.offset ∧ OwnsAll used s.children) :
    ReadsAt token (skip >>= fun _ => p) fun used s => Encloses used (.statement s) :=
  readsAt_skipWord hliteral hdigit (h.mono fun _ _ hs => encloses_cons hs.1 hs.2)

/-- A statement owns the tokens that it is read from. The induction is on the
budget. -/
theorem owns_statement (budget : Nat) :
    Reads (statement budget) fun used s => Owns used (.statement s) := by
  induction budget with
  | zero => exact reads_fail
  | succ budget ih =>
      have hencloses : Reads (statement (budget + 1)) fun used s =>
          Encloses used (.statement s) := by
        refine reads_peek reads_fail fun token _ => ?_
        dsimp only
        split
        · next htoken =>
            refine encloses_skipWord htoken (by decide) ?_
            refine (ownsAll_declaration _).bind fun d first hd => ?_
            refine (reads_expect (by decide)).bind fun _ second _ => .pure ⟨rfl, ?_⟩
            simpa using hd.append_right second
        · next htoken =>
            exact encloses_skipWord htoken (by decide) (ownsAll_conditional ih _ _)
        · next htoken =>
            exact encloses_skipWord htoken (by decide) (ownsAll_forLoop ih _ _)
        · next htoken =>
            exact encloses_skipWord htoken (by decide) (ownsAll_whileLoop ih _ _)
        · next htoken =>
            refine encloses_skipWord htoken (by decide) ?_
            refine (owns_expression _).bind fun value first hvalue => ?_
            refine (reads_expect (by decide)).bind fun _ second _ => .pure ⟨rfl, ?_⟩
            simpa using hvalue.owns.one.append_right second
        · -- an expression takes the token in front, and its statement begins there, too
          refine readsAt_begins ((ownsAll_expressionStatement _ _).mono fun used s h => ?_)
          obtain ⟨hne, hmark, hchildren⟩ := h
          refine ⟨hne, fun hstart => ⟨?_, hchildren⟩⟩
          rwa [Node.mark, hmark]
      exact ((reads_statement (budget + 1)).and hencloses).mono fun used s h => h.2.owns h.1

/-! ### Fields, methods and programs -/

/-- A method behind its first word owns the word and what is read. -/
theorem owns_method (budget : Nat) (htoken : token.literal = "DEF") :
    Reads (method token.offset budget) fun used m => Owns (token :: used) (.method m) := by
  have hchildren : Reads (method token.offset budget) fun used m =>
      m.mark = token.offset ∧ OwnsAll used (m.body.map .statement) := by
    refine reads_expectName.bind fun name first _ => ?_
    refine (reads_expect (by decide)).bind fun _ second _ => ?_
    refine ownsAll_optional (fun _ => []) (by decide) (.pure .nil)
      ((reads_moreParameters budget).mono fun _ _ _ => .nil) fun parameters third _ => ?_
    refine ownsAll_optional (fun _ => []) (by decide) (reads_expectName.map fun _ _ _ => .nil)
      (.pure .nil) fun returnType fourth _ => ?_
    refine (reads_expect (by decide)).bind fun _ fifth _ => ?_
    refine (ownsAll_block (owns_statement budget) _ budget).bind fun body sixth hbody => ?_
    refine (reads_expect (by decide)).bind fun _ seventh _ => .pure ⟨rfl, ?_⟩
    simpa using (hbody.append_left (first ++ second ++ third ++ fourth ++ fifth)).append_right
      seventh
  refine ((reads_method token.offset budget htoken).and hchildren).mono fun used m h => ?_
  obtain ⟨hderives, hmark, hbody⟩ := h
  exact Encloses.owns (encloses_cons hmark hbody) hderives

/-- A field behind its first word owns the word and what is read. -/
theorem owns_field (budget : Nat) (htoken : token.literal = "LET") :
    Reads (field token.offset budget) fun used f => Owns (token :: used) (.field f) := by
  have hchildren : Reads (field token.offset budget) fun used f =>
      f.mark = token.offset ∧ OwnsAll used f.declaration.children := by
    refine (ownsAll_declaration budget).bind fun d first hd => ?_
    refine (reads_expect (by decide)).bind fun _ second _ => .pure ⟨rfl, ?_⟩
    simpa using hd.append_right second
  refine ((reads_field token.offset budget htoken).and hchildren).mono fun used f h => ?_
  obtain ⟨hderives, hmark, hvalue⟩ := h
  exact Encloses.owns (encloses_cons hmark hvalue) hderives

/-- Items that own tokens own runs of all of them. -/
theorem DerivesAll.ownsAll {node : α → Node Offset} {list : List α}
    (h : DerivesAll (fun tokens a => Owns tokens (node a)) tokens list) :
    OwnsAll tokens (list.map node) := by
  induction h with
  | nil => exact .nil
  | cons ha _ ih => exact ha.one.append ih

/-- The fields and methods of a program own runs of the tokens that it is made of. -/
theorem ownsAll_of_program {budget : Nat} {tokens rest : List Token} {program : Program Offset}
    (hgenuine : Genuine tokens) (h : Parser.program budget tokens = .ok (program, rest)) :
    OwnsAll tokens program.nodes := by
  have hfield : Reads (many "LET" (field · budget) budget) fun used list =>
      DerivesAll (fun tokens f => Owns tokens (.field f)) used (list.map id) :=
    reads_many (by decide) (fun token htoken => owns_field budget htoken) budget
  have hmethod : Reads (many "DEF" (method · budget) budget) fun used list =>
      DerivesAll (fun tokens m => Owns tokens (.method m)) used (list.map id) :=
    reads_many (by decide) (fun token htoken => owns_method budget htoken) budget
  obtain ⟨fields, middle, hfields, hbehind⟩ := bind_eq_ok.mp h
  obtain ⟨methods, last, hmethods, hlast⟩ := bind_eq_ok.mp hbehind
  obtain ⟨fieldTokens, rfl, -, hf⟩ := hfield _ _ _ hgenuine hfields
  obtain ⟨methodTokens, rfl, -, hm⟩ := hmethod _ _ _ hgenuine.right hmethods
  rw [List.map_id] at hf hm
  have hall := hf.ownsAll.append (hm.ownsAll.append_right last)
  cases last with
  | nil =>
      obtain ⟨rfl, -⟩ : Program.mk fields methods = program ∧ [] = rest := by
        simpa using (Except.ok.inj hlast : (Program.mk fields methods, []) = (program, rest))
      exact hall
  | cons token more => cases hlast

end Proofs

end PlcLang
