import PlcLang.Proofs.Relabelling.Symbols
import PlcLang.Proofs.Syntax.Subexpressions
import PlcLang.Proofs.Typing.Plain

/-!
# `PlcLang.Proofs.Typing.Likeness`: two checkers, and one relation between their checks

Several things are shown of a check by comparing it with another one: of a checker that also keeps
what is seen at a node, of one that looks whether the scopes are in order, of one that takes
nothing for granted, or of the same checker on a program with other labels. How a check is put
together is the same in each of them, so that the comparison is made once. `Checker.Likeness` lists
what is to be shown of the parts in which two checkers differ. From it follows what is said of
expressions (`Likeness.infer`), of statements (`Likeness.checkStmt`) and of programs
(`Likeness.program`).

What a checker answers has marks in it, so the relation says how the answers of the first become
those of the second: with other marks, and with the labels that the second program has.
-/

set_option autoImplicit false

namespace PlcLang.Checker

open Proofs

/-- What is said of two checks may depend on where in the tree they are, and on whether they are
about an expression there or about statements. -/
inductive Spot (κ : Type) where
  /-- An expression at this place, or a part with a scope of its own. -/
  | expression (here : κ)
  /-- Statements at this place. -/
  | statement (here : κ)

/-- Where it is. -/
def Spot.here {κ : Type} : Spot κ → κ
  | .expression here => here
  | .statement here => here

/-- The checkers `c` and `d` differ in their marks and in what is done besides, and `d` checks
with other labels the program that `c` checks. At each place of `d` they have `R`, as long as the
expressions they come upon have `grounds`. -/
structure Likeness {μ μ' κ κ' : Type} (c : Checker μ κ) (d : Checker μ' κ') (place : κ' → κ)
    (mark : μ → μ') (labels : Offset → Offset) (names : Naming) (types : TypeTable)
    (grounds : Expr Offset → Prop)
    (R : Spot κ' → ∀ {α α' : Type}, (α → α') → Check α → Check α' → Prop) : Prop where
  translating : ∀ spot, Translating (R spot)
  /-- An expression may stand where a statement is checked. -/
  ofExpression : ∀ {here : κ'} {α α' : Type} {f : α → α'} {x : Check α} {y : Check α'},
    R (.expression here) f x y → R (.statement here) f x y
  root : place d.root = c.root
  deeper : ∀ here, place (d.deeper here) = c.deeper (place here)
  /-- Labels that stay different, and leave alone what is not the program's. -/
  faithful : names.Faithful
  members : types.Unlabelled labels names
  /-- An expression is made of what is deeper in it. -/
  expression : ∀ {here : κ'} {α α' : Type} {f : α → α'} {x : Check α} {y : Check α'},
    R (.expression (d.deeper here)) f x y →
      R (.expression here) f (c.part (place here) x) (d.part here y)
  /-- So is a statement. -/
  statement : ∀ {here : κ'} {α α' : Type} {f : α → α'} {x : Check α} {y : Check α'},
    R (.statement (d.deeper here)) f x y →
      R (.statement here) f (c.part (place here) x) (d.part here y)
  /-- Nodes are marked with the same, as far as the marks tell. -/
  look : ∀ {α α' : Type} {f : α → α'} {next : (Note → μ) → Check α}
    {next' : (Note → μ') → Check α'} (spot : Spot κ') (here : κ'),
    (∀ note note', (∀ n, mark (note n) = note' (n.relabel labels names)) →
      R spot f (next note) (next' note')) →
      R spot f (c.look (place here) >>= next) (d.look here >>= next')
  /-- What has a scope of its own is like an expression from outside. -/
  withScope : ∀ {here : κ'} {α α' : Type} {f : α → α'} {body : κ → Check α}
    {body' : κ' → Check α'},
    (∀ there, R (.statement there) f (body (place there)) (body' there)) →
      R (.expression here) f (c.withScope (place here) body) (d.withScope here body')
  /-- A rule is broken. That an expression is none of the language, is no rule. -/
  reject : ∀ {α α' : Type} {f : α → α'} (spot : Spot κ') (cause : CheckCause)
    (offset : Option Offset), (∀ kind, cause ≠ .unsupported kind) →
      R spot f (Checker.reject cause offset)
        (Checker.reject (cause.rename names) (offset.map labels))
  wideInteger : ∀ {α α' : Type} {f : α → α'} (here : κ') (m : Offset) (value : Int),
    grounds (.integer m value) →
      R (.expression here) f (c.complain (.wideInteger value) m)
        (d.complain (.wideInteger value) (labels m))
  unsupported : ∀ {α α' : Type} {f : α → α'} (here : κ') (m : Offset) (kind : NodeKind)
    (written : String) (offset : Option Offset), grounds (.foreign m kind written) →
      R (.expression here) f (c.complain (.unsupported kind) offset)
        (d.complain (.unsupported kind) (offset.map labels))
  defineVariable : ∀ (here : κ') (symbol : VariableSymbol) (cause : CheckCause) (offset : Offset),
    (∀ kind, cause ≠ .unsupported kind) →
      R (.statement here) id (c.defineVariable (place here) symbol cause offset)
        (d.defineVariable here (symbol.relabel labels names) (cause.rename names) (labels offset))
  defineFunction : ∀ (symbol : FunctionSymbol) (offset : Offset),
    R (.statement d.root) id (c.defineFunction symbol offset)
      (d.defineFunction (symbol.relabel labels names) (labels offset))
  findVariable : ∀ (here : κ') (name : String) (offset : Offset),
    R (.expression here) (VariableSymbol.relabel labels names)
      (c.findVariable (place here) name offset)
      (d.findVariable here (names.ofVariable name) (labels offset))
  findFunction : ∀ (here : κ') (key : FunctionKey) (offset : Offset),
    R (.expression here) (FunctionSymbol.relabel labels names)
      (c.findFunction (place here) key offset) (d.findFunction here (names.key key) (labels offset))
  /-- There is a symbol for each method. -/
  pair : ∀ count : Nat, R (.statement d.root) id (c.before (.pair count count))
    (d.before (.pair count count))

/-- An expression and its type, with the labels of the expression changed. -/
def relabelTyped {μ μ' : Type} (mark : μ → μ') (names : Naming) (typed : Ty × Expr μ) :
    Ty × Expr μ' :=
  (typed.1, typed.2.relabel mark names)

/-- A declaration and its variable, with the labels of both changed. -/
def relabelDeclared {μ μ' : Type} (mark : μ → μ') (labels : Offset → Offset) (names : Naming)
    (declared : VariableSymbol × Declaration μ) : VariableSymbol × Declaration μ' :=
  (declared.1.relabel labels names, declared.2.relabel mark names)

namespace Likeness

variable {μ μ' κ κ' : Type} {c : Checker μ κ} {d : Checker μ' κ'} {place : κ' → κ} {mark : μ → μ'}
  {labels : Offset → Offset} {names : Naming} {types : TypeTable} {grounds : Expr Offset → Prop}
  {R : Spot κ' → ∀ {α α' : Type}, (α → α') → Check α → Check α' → Prop}

/-! ### Rules on types -/

section

variable (h : Likeness c d place mark labels names types grounds R) (spot : Spot κ')

include h

/-- Names of types are no labels. -/
theorem resolveType (name : String) (offset : Offset) :
    R spot id (Checker.resolveType types name offset)
      (Checker.resolveType types name (labels offset)) := by
  unfold Checker.resolveType
  cases types.resolve? name with
  | some type => exact (h.translating _).pure rfl
  | none => exact h.reject spot (.unknownType name) (some offset) nofun

/-- What is required of a type is required alike in both checkers, since types have
no labels. Only the offset of the error is relabelled. -/
theorem require (expected found : Ty) (offset : Offset) :
    R spot id (Checker.require types expected found offset)
      (Checker.require types expected found (labels offset)) := by
  unfold Checker.require
  split
  · exact (h.translating _).pure rfl
  · exact h.reject spot (.mismatch expected found) (some offset) nofun

/-- An operator asks for one type of both its operands, or for operands that go together. -/
theorem binaryType (op : BinaryOp) (left right : Ty) (offset leftOffset rightOffset : Offset) :
    R spot id (Checker.binaryType types op left right offset leftOffset rightOffset)
      (Checker.binaryType types op left right (labels offset) (labels leftOffset)
        (labels rightOffset)) := by
  have hR := h.translating spot
  have hboth (expected : Ty) : R spot id
      (do
        Checker.require types expected left leftOffset
        Checker.require types expected right rightOffset
        pure Ty.boolean)
      (do
        Checker.require types expected left (labels leftOffset)
        Checker.require types expected right (labels rightOffset)
        pure Ty.boolean) :=
    hR.bind (h.require spot expected left leftOffset) fun _ =>
      hR.bind (h.require spot expected right rightOffset) fun _ => hR.pure rfl
  unfold Checker.binaryType
  split
  · exact hboth .boolean
  · exact hboth .comparable
  · split
    · exact hR.pure rfl
    · split
      · exact hR.pure rfl
      · exact h.reject spot (.wrongOperands op left right) (some offset) nofun

end

/-! ### Expressions -/

mutual

/-- What is said of the parts is said of every expression. -/
theorem infer (h : Likeness c d place mark labels names types grounds R) (here : κ')
    (e : Expr Offset) (hgrounds : ∀ sub ∈ e.subs, grounds sub) :
    R (.expression here) (relabelTyped mark names) (c.infer types (place here) e)
      (d.infer types here (e.relabel labels names)) := by
  have hR := h.translating (.expression (d.deeper here))
  unfold Checker.infer
  refine h.expression (h.look _ here fun note note' hnote => ?_)
  rw [← h.deeper here]
  cases e with
  | nil m | boolean m value | character m text | string m text =>
      exact hR.pure (by simp only [relabelTyped, Expr.relabel, hnote]; rfl)
  | integer m value =>
      simp only [Expr.relabel]
      split
      · exact hR.pure (by simp only [relabelTyped, Expr.relabel, hnote]; rfl)
      · exact h.wideInteger _ m value (hgrounds _ List.mem_cons_self)
  | decimal m value =>
      simp only [Expr.relabel]
      split
      · exact hR.pure (by simp only [relabelTyped, Expr.relabel, hnote]; rfl)
      · exact h.reject _ (.largeDecimal value) (some m) nofun
  | group m inner =>
      obtain ⟨-, hinner⟩ := List.forall_mem_cons.mp hgrounds
      simp only [Expr.relabel, Expr.kind_relabel]
      split
      · refine hR.bind (infer h _ inner hinner) fun typed => hR.pure ?_
        simp only [relabelTyped, Expr.relabel, hnote]
        rfl
      · exact h.reject _ .needlessGroup (some m) nofun
  | binary m op left right =>
      obtain ⟨-, hboth⟩ := List.forall_mem_cons.mp hgrounds
      obtain ⟨hleft, hright⟩ := List.forall_mem_append.mp hboth
      simp only [Expr.relabel, Expr.mark_relabel]
      refine hR.bind (infer h _ left hleft) fun leftTyped => ?_
      refine hR.bind (infer h _ right hright) fun rightTyped => ?_
      refine hR.bind (h.binaryType _ op leftTyped.1 rightTyped.1 m left.mark right.mark)
        fun type => hR.pure ?_
      simp only [relabelTyped, Expr.relabel, hnote]
      rfl
  | var m name =>
      simp only [Expr.relabel]
      refine hR.bind (h.findVariable _ name m) fun symbol => hR.pure ?_
      simp only [relabelTyped, Expr.relabel, hnote]
      rfl
  | field m receiver name =>
      obtain ⟨-, hreceiver⟩ := List.forall_mem_cons.mp hgrounds
      simp only [Expr.relabel]
      refine hR.bind (infer h _ receiver hreceiver) fun typed => ?_
      dsimp only [relabelTyped]
      cases hfield : types.field? typed.1 name with
      | some symbol =>
          -- The symbol of a member comes from the table, where no label of the program is;
          -- relabelled, it must be the same.
          have hkept := h.members.field? typed.1 name symbol hfield
          refine hR.pure ?_
          simp only [relabelTyped, Expr.relabel, hnote, Note.relabel, Option.map_some,
            Symbol.relabel, hkept]
      | none => exact h.reject _ (.noField typed.1 name) (some m) nofun
  | call m name arguments =>
      obtain ⟨-, harguments⟩ := List.forall_mem_cons.mp hgrounds
      simp only [Expr.relabel, Expr.length_relabelAll]
      refine hR.bind (h.findFunction _ (name, arguments.length) m) fun symbol => ?_
      refine hR.bind (inferArguments h _ symbol.parameters arguments harguments)
        fun arguments' => hR.pure ?_
      simp only [relabelTyped, Expr.relabel, hnote]
      rfl
  | methodCall m receiver name arguments =>
      obtain ⟨-, hboth⟩ := List.forall_mem_cons.mp hgrounds
      obtain ⟨hreceiver, harguments⟩ := List.forall_mem_append.mp hboth
      simp only [Expr.relabel, Expr.length_relabelAll]
      refine hR.bind (infer h _ receiver hreceiver) fun typed => ?_
      dsimp only [relabelTyped]
      cases hmethod : types.method? typed.1 (name, arguments.length) with
      | some symbol =>
          have hkept := h.members.method? typed.1 (name, arguments.length) symbol hmethod
          refine hR.bind (inferArguments h _ symbol.parameters arguments harguments)
            fun arguments' => hR.pure ?_
          simp only [relabelTyped, Expr.relabel, hnote, Note.relabel, Option.map_some,
            Symbol.relabel, hkept]
      | none => exact h.reject _ (.noMethod typed.1 (name, arguments.length)) (some m) nofun
  | foreign m kind written =>
      have hplace := Expr.place?_relabel labels names (.foreign m kind written)
      rw [Expr.relabel] at hplace
      simp only [Expr.relabel, hplace]
      exact h.unsupported _ m kind written _ (hgrounds _ List.mem_cons_self)

/-- So it is with arguments, one for each parameter. -/
theorem inferArguments (h : Likeness c d place mark labels names types grounds R) (here : κ')
    (parameters : List Ty) (arguments : List (Expr Offset))
    (hgrounds : ∀ sub ∈ Expr.subsAll arguments, grounds sub) :
    R (.expression here) (Expr.relabelAll mark names)
      (c.inferArguments types (place here) parameters arguments)
      (d.inferArguments types here parameters (Expr.relabelAll labels names arguments)) := by
  have hR := h.translating (.expression here)
  cases arguments with
  | nil =>
      simp only [Expr.relabelAll, Checker.inferArguments]
      exact hR.pure rfl
  | cons argument rest =>
      obtain ⟨hargument, hrest⟩ := List.forall_mem_append.mp hgrounds
      cases parameters with
      | nil =>
          -- What has no parameter is marked with its place only.
          simp only [Expr.relabelAll, Checker.inferArguments]
          refine h.look _ here fun note note' hnote => hR.pure ?_
          have hplain : mark ∘ (fun m => note (.plain m)) = (fun m => note' (.plain m)) ∘ labels :=
            funext fun m => hnote (.plain m)
          rw [Expr.relabelAll_mapAll, hplain, ← Expr.mapAll_relabelAll, Expr.relabelAll]
      | cons parameter parameters =>
          simp only [Expr.relabelAll, Checker.inferArguments, Expr.mark_relabel]
          refine hR.bind (infer h here argument hargument) fun typed => ?_
          refine hR.bind (h.require _ parameter typed.1 argument.mark) fun _ => ?_
          exact hR.bind (inferArguments h here parameters rest hrest) fun rest' => hR.pure rfl

end

section

variable (h : Likeness c d place mark labels names types grounds R) (here : κ')

include h

/-- An expression that must have a type good for another. -/
theorem inferAs (expected : Ty) (value : Expr Offset) (hgrounds : ∀ sub ∈ value.subs, grounds sub) :
    R (.expression here) (Expr.relabel mark names)
      (c.inferAs types (place here) expected value)
      (d.inferAs types here expected (value.relabel labels names)) := by
  have hR := h.translating (.expression here)
  unfold Checker.inferAs
  rw [Expr.mark_relabel]
  refine hR.bind (h.infer here value hgrounds) fun typed => ?_
  exact hR.bind (h.require _ expected typed.1 value.mark) fun _ => hR.pure rfl

/-! ### Statements -/

/-- The variable of a declaration, whose type is known. -/
theorem defineDeclared (offset : Offset) (d' : Declaration Offset) (type : Ty)
    (value' : Option (Expr μ)) :
    R (.statement here) (relabelDeclared mark labels names)
      (c.defineDeclared (place here) offset d' type value')
      (d.defineDeclared here (labels offset) (d'.relabel labels names) type
        (value'.map (Expr.relabel mark names))) := by
  have hR := h.translating (.statement here)
  unfold Checker.defineDeclared
  exact hR.bind (h.defineVariable here ⟨d'.name, type, some offset⟩ (.alreadyDefined d'.name)
    offset nofun) fun _ => hR.pure rfl

/-- A declaration is checked alike: with a type, with a value, with both or with
neither. A declared type is looked up first, in both checkers. -/
theorem declare (offset : Offset) (d' : Declaration Offset)
    (hgrounds : ∀ sub ∈ d'.exprs, grounds sub) :
    R (.statement here) (relabelDeclared mark labels names)
      (c.declare types (place here) offset d')
      (d.declare types here (labels offset) (d'.relabel labels names)) := by
  have hR := h.translating (.statement here)
  obtain ⟨name, typeName, value⟩ := d'
  cases typeName with
  | none =>
      cases value with
      | none => exact h.reject _ (.needsTypeOrValue name) (some offset) nofun
      | some value =>
          simp only [Declaration.relabel, Option.map_some, declare_inferred]
          exact hR.bind (h.ofExpression (h.infer here value hgrounds)) fun typed =>
            h.defineDeclared here offset ⟨name, none, some value⟩ typed.1 (some typed.2)
  | some typeName =>
      cases value with
      | none =>
          simp only [Declaration.relabel, Option.map_none, declare_declared]
          exact hR.bind (h.resolveType _ typeName offset) fun declared =>
            h.defineDeclared here offset ⟨name, some typeName, none⟩ declared none
      | some value =>
          simp only [Declaration.relabel, Option.map_some, declare_both, Expr.mark_relabel]
          refine hR.bind (h.resolveType _ typeName offset) fun declared => ?_
          refine hR.bind (h.ofExpression (h.infer here value hgrounds)) fun typed => ?_
          exact hR.bind (h.require _ declared typed.1 value.mark) fun _ =>
            h.defineDeclared here offset ⟨name, some typeName, some value⟩ declared (some typed.2)

end

mutual

/-- What is said of the parts is said of every statement. -/
theorem checkStmt (h : Likeness c d place mark labels names types grounds R) (here : κ')
    (returnType : Ty) (s : Stmt Offset) (hgrounds : ∀ e ∈ s.exprs, grounds e) :
    R (.statement here) (Stmt.relabel mark names) (c.checkStmt types (place here) returnType s)
      (d.checkStmt types here returnType (s.relabel labels names)) := by
  have hR := h.translating (.statement (d.deeper here))
  have hvalue (e : Expr Offset) (he : ∀ sub ∈ e.subs, grounds sub) :=
    h.ofExpression (h.infer (d.deeper here) e he)
  have hvalueAs (expected : Ty) (e : Expr Offset) (he : ∀ sub ∈ e.subs, grounds sub) :=
    h.ofExpression (h.inferAs (d.deeper here) expected e he)
  unfold Checker.checkStmt
  refine h.statement (h.look _ here fun note note' hnote => ?_)
  rw [← h.deeper here]
  cases s with
  | expression m value =>
      simp only [Stmt.relabel, Expr.kind_relabel, Expr.place?_relabel]
      split
      · refine hR.bind (hvalue value hgrounds) fun typed => hR.pure ?_
        simp only [Stmt.relabel, hnote]
        rfl
      · exact h.reject _ .notACall _ nofun
  | declare m d' =>
      simp only [Stmt.relabel]
      refine hR.bind (h.declare _ m d' hgrounds) fun declared => hR.pure ?_
      simp only [Stmt.relabel, hnote]
      rfl
  | assign m target value =>
      obtain ⟨htarget, hassigned⟩ := List.forall_mem_append.mp hgrounds
      simp only [Stmt.relabel, Expr.kind_relabel, Expr.place?_relabel]
      split
      · refine hR.bind (hvalue target htarget) fun typed => ?_
        refine hR.bind (hvalueAs typed.1 value hassigned) fun value' => hR.pure ?_
        simp only [Stmt.relabel, hnote]
        rfl
      · exact h.reject _ .notAssignable _ nofun
  | cond m condition thenBody elseBody =>
      obtain ⟨hcondition, hbodies⟩ := List.forall_mem_append.mp hgrounds
      obtain ⟨hthen, helse⟩ := List.forall_mem_append.mp hbodies
      simp only [Stmt.relabel, Stmt.isEmpty_relabelAll]
      refine hR.bind (hvalueAs .boolean condition hcondition) fun condition' => ?_
      split
      · exact h.reject _ .emptyConditional (some m) nofun
      · refine hR.bind (h.ofExpression (h.withScope fun there =>
          checkAll h there returnType thenBody hthen)) fun thenBody' => ?_
        -- Behind the second branch, which need not be there, the two are put together.
        have hjoin (elseBody' : List (Stmt μ)) :
            R (.statement (d.deeper here)) (Stmt.relabel mark names)
              (pure (Stmt.cond (note (.plain m)) condition' thenBody' elseBody'))
              (pure (Stmt.cond (note' (.plain (labels m))) (condition'.relabel mark names)
                (Stmt.relabelAll mark names thenBody') (Stmt.relabelAll mark names elseBody'))) :=
          hR.pure (by simp only [Stmt.relabel, hnote]; rfl)
        split
        · exact hjoin []
        · exact hR.bind (h.ofExpression (h.withScope fun there =>
            checkAll h there returnType elseBody helse)) hjoin
  | forIn m name value body =>
      obtain ⟨hiterated, hbody⟩ := List.forall_mem_append.mp hgrounds
      simp only [Stmt.relabel, Stmt.isEmpty_relabelAll]
      split
      · exact h.reject _ .emptyForLoop (some m) nofun
      · refine hR.bind (hvalueAs .integerIterable value hiterated) fun value' => ?_
        refine hR.bind (f := Stmt.relabelAll mark names)
          (h.ofExpression (h.withScope fun there => ?_)) fun body' => hR.pure ?_
        · exact (h.translating _).bind (h.defineVariable there ⟨name, .integer, none⟩
            (.alreadyDefined name) m nofun) fun _ => checkAll h there returnType body hbody
        · simp only [Stmt.relabel, hnote]
          rfl
  | whileDo m condition body =>
      obtain ⟨hcondition, hbody⟩ := List.forall_mem_append.mp hgrounds
      simp only [Stmt.relabel]
      refine hR.bind (hvalueAs .boolean condition hcondition) fun condition' => ?_
      refine hR.bind (h.ofExpression (h.withScope fun there =>
        checkAll h there returnType body hbody)) fun body' => hR.pure ?_
      simp only [Stmt.relabel, hnote]
      rfl
  | result m value =>
      simp only [Stmt.relabel]
      refine hR.bind (hvalueAs returnType value hgrounds) fun value' => hR.pure ?_
      simp only [Stmt.relabel, hnote]
      rfl
  | foreign m kind written =>
      simp only [Stmt.relabel]
      refine hR.pure ?_
      simp only [Stmt.relabel, hnote]
      rfl

/-- So it is with statements one after the other. -/
theorem checkAll (h : Likeness c d place mark labels names types grounds R) (here : κ')
    (returnType : Ty) (list : List (Stmt Offset))
    (hgrounds : ∀ e ∈ Stmt.exprsAll list, grounds e) :
    R (.statement here) (Stmt.relabelAll mark names) (c.checkAll types (place here) returnType list)
      (d.checkAll types here returnType (Stmt.relabelAll labels names list)) := by
  have hR := h.translating (.statement here)
  cases list with
  | nil =>
      simp only [Stmt.relabelAll, Checker.checkAll]
      exact hR.pure rfl
  | cons s rest =>
      obtain ⟨hs, hrest⟩ := List.forall_mem_append.mp hgrounds
      simp only [Stmt.relabelAll, Checker.checkAll]
      refine hR.bind (checkStmt h here returnType s hs) fun s' => ?_
      exact hR.bind (checkAll h here returnType rest hrest) fun rest' => hR.pure rfl

end

/-! ### Fields, methods and the whole -/

section

variable (h : Likeness c d place mark labels names types grounds R)

include h

/-- A field is checked alike. It is a declaration in the program's scope, with a
mark of its own. -/
theorem checkField (field : Field Offset) (hgrounds : ∀ e ∈ field.exprs, grounds e) :
    R (.statement d.root) (Field.relabel mark names) (c.checkField types field)
      (d.checkField types (field.relabel labels names)) := by
  have hR := h.translating (.statement d.root)
  unfold Checker.checkField
  rw [← h.root]
  refine h.look _ d.root fun note note' hnote => ?_
  refine hR.bind (h.declare d.root field.mark field.declaration hgrounds) fun declared =>
    hR.pure ?_
  simp only [Field.relabel, hnote]
  rfl

/-- The header of a method is declared alike, and the symbols are the same but for
labels and names. -/
theorem declareMethod (method : Method Offset) :
    R (.statement d.root) (FunctionSymbol.relabel labels names) (c.declareMethod types method)
      (d.declareMethod types (method.relabel labels names)) := by
  have hR := h.translating (.statement d.root)
  obtain ⟨m, name, parameters, parameterTypes, returnType, body⟩ := method
  have hdefine (parameters : List Ty) (result : Ty) :
      R (.statement d.root) (FunctionSymbol.relabel labels names)
        (do
          let symbol : FunctionSymbol := ⟨name, parameters, result, some m⟩
          c.defineFunction symbol m
          pure symbol)
        (do
          let symbol : FunctionSymbol :=
            ⟨names.ofMethod name, parameters, result, some (labels m)⟩
          d.defineFunction symbol (labels m)
          pure symbol) :=
    hR.bind (h.defineFunction ⟨name, parameters, result, some m⟩ m) fun _ => hR.pure rfl
  unfold Checker.declareMethod
  refine hR.bind (f := id) ?_ fun parameters => ?_
  · exact hR.compositional.mapM fun name _ => h.resolveType _ name m
  cases returnType with
  | none => exact hdefine parameters .nil
  | some result =>
      exact hR.bind (h.resolveType _ result m) fun result => hdefine parameters result

/-- Parameters are defined alike, one after the other, under the names that they
have in each program. -/
theorem defineParameters (here : κ') (offset : Offset) (parameters : List (String × Ty)) :
    R (.statement here) id (c.defineParameters (place here) offset parameters)
      (d.defineParameters here (labels offset)
        (parameters.map fun parameter => (names.ofVariable parameter.1, parameter.2))) := by
  have hR := h.translating (.statement here)
  induction parameters with
  | nil => exact hR.pure rfl
  | cons parameter rest ih =>
      obtain ⟨name, type⟩ := parameter
      exact hR.bind (h.defineVariable here ⟨name, type, none⟩ (.duplicateParameter name) offset
        nofun) fun _ => ih

/-- The body of a method has a scope of its own. -/
theorem checkMethod (method : Method Offset) (symbol : FunctionSymbol)
    (hgrounds : ∀ e ∈ method.exprs, grounds e) :
    R (.expression d.root) (Method.relabel mark names) (c.checkMethod types method symbol)
      (d.checkMethod types (method.relabel labels names) (symbol.relabel labels names)) := by
  have hR := h.translating (.expression d.root)
  have hzip : (method.relabel labels names).parameters.zip
        (symbol.relabel labels names).parameters
      = (method.parameters.zip symbol.parameters).map
        fun parameter => (names.ofVariable parameter.1, parameter.2) :=
    List.zip_map_left ..
  unfold Checker.checkMethod
  rw [← h.root, hzip]
  refine h.look _ d.root fun note note' hnote => ?_
  refine hR.bind (f := Stmt.relabelAll mark names) (h.withScope fun there => ?_)
    fun body => hR.pure ?_
  · exact (h.translating _).bind (h.defineParameters there method.mark _) fun _ =>
      h.checkAll there symbol.result method.body hgrounds
  · simp only [Method.relabel, hnote]
    rfl

/-- A method to start with is looked for among the methods, and `main` keeps its name. -/
theorem checkMain (spot : Spot κ') (methods : List (Method Offset × FunctionSymbol)) :
    R spot id (Checker.checkMain methods)
      (Checker.checkMain (methods.map fun method =>
        (method.1.relabel labels names, method.2.relabel labels names))) := by
  have hfind : ((fun method : Method Offset × FunctionSymbol => isMain method.1) ∘
      fun method : Method Offset × FunctionSymbol =>
        (method.1.relabel labels names, method.2.relabel labels names))
      = fun method => isMain method.1 := by
    funext method
    exact isMain_relabel labels h.faithful method.1
  unfold Checker.checkMain
  rw [List.find?_map, hfind]
  cases methods.find? fun method => isMain method.1 with
  | none => exact h.reject spot .missingMain none nofun
  | some found =>
      dsimp only [Option.map_some, FunctionSymbol.relabel]
      split
      · exact (h.translating spot).pure rfl
      · exact h.reject spot (.wrongMainType found.2.result) (some found.1.mark) nofun

/-- What is said of the parts is said of every program. -/
theorem program (tree : Program Offset) (hgrounds : ∀ e ∈ tree.exprs, grounds e) :
    R (.statement d.root) (Program.relabel mark names) (c.program types tree)
      (d.program types (tree.relabel labels names)) := by
  have hR := h.translating (.statement d.root)
  obtain ⟨hfields, hmethods⟩ := List.forall_mem_append.mp hgrounds
  have hbodies (symbols : List FunctionSymbol) :
      R (.statement d.root) (List.map (Method.relabel mark names))
        ((tree.methods.zip symbols).mapM fun method => c.checkMethod types method.1 method.2)
        (((tree.methods.zip symbols).map fun method =>
          (method.1.relabel labels names, method.2.relabel labels names)).mapM
            fun method => d.checkMethod types method.1 method.2) :=
    hR.mapM fun method hmethod => h.ofExpression (h.checkMethod method.1 method.2 fun e he =>
      hmethods e (List.mem_flatMap.mpr ⟨method.1, (List.of_mem_zip hmethod).1, he⟩))
  unfold Checker.program
  refine hR.bind (hR.mapM fun field hfield => h.checkField field fun e he =>
    hfields e (List.mem_flatMap.mpr ⟨field, hfield, he⟩)) fun fields => ?_
  refine hR.mapM_bind (fun method _ => h.declareMethod method) fun symbols hlength => ?_
  have hzip : (tree.methods.map (Method.relabel labels names)).zip
        (symbols.map (FunctionSymbol.relabel labels names))
      = (tree.methods.zip symbols).map fun method =>
        (method.1.relabel labels names, method.2.relabel labels names) :=
    List.zip_map ..
  simp only [Program.relabel, List.length_map, hlength, hzip]
  refine hR.bind (h.pair _) fun _ => hR.bind (hbodies symbols) fun checked => ?_
  exact hR.bind (h.checkMain _ (tree.methods.zip symbols)) fun _ => hR.pure rfl

end

end Likeness

end PlcLang.Checker
