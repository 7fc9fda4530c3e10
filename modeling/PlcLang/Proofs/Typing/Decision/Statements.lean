import PlcLang.Proofs.Typing.Decision.Expressions

/-!
# `PlcLang.Proofs.Typing.Decision.Statements`: statements are decided

A statement may define a variable in its scope, so it does not leave the symbols as
they are. What it does to them is seen from the scope alone (`Advances`): the
context that the checker leaves is the one that the rules leave, and whatever the
rules derive comes about (`checkStmt_advances`). A block's own scope is gone when
the block is done, so seen from outside a block decides as an expression does
(`Advances.withScope`).
-/

set_option autoImplicit false

namespace PlcLang.Proofs

open Checker

/-! ### Changes of one scope -/

/-- Begun with `symbols`, the check changes at most what `scope` binds, and its answer
and the context that it leaves to the scope satisfy `R`; whatever satisfies `R` comes
about. -/
structure Advances {α : Type} (scope : ScopeId) (x : Check α) (symbols : Symbols)
    (R : α → Context → Prop) : Prop where
  sound : ∀ a symbols', x symbols = .ok a symbols' →
    Grown scope symbols symbols' ∧ R a (symbols'.chain scope)
  complete : ∀ a Γ, R a Γ → ∃ symbols', x symbols = .ok a symbols' ∧ symbols'.chain scope = Γ

/-- What only decides changes nothing. -/
theorem Decides.advances {α : Type} {scope : ScopeId} {x : Check α} {symbols : Symbols}
    {P : α → Prop} (h : Decides x symbols P) :
    Advances scope x symbols fun a Γ => P a ∧ Γ = symbols.chain scope := by
  constructor
  · intro a symbols' hx
    obtain ⟨rfl, ha⟩ := (h a symbols').mp hx
    exact ⟨.refl scope symbols', ha, rfl⟩
  · rintro a _ ⟨ha, rfl⟩
    exact ⟨symbols, (h a symbols).mpr ⟨rfl, ha⟩, rfl⟩

namespace Advances

variable {α β : Type} {scope : ScopeId} {x : Check α} {symbols : Symbols}
  {P Q : α → Context → Prop}

/-- What a check advances to can be put in other words. -/
theorem congr (h : Advances scope x symbols P) (hPQ : ∀ a Γ, P a Γ ↔ Q a Γ) :
    Advances scope x symbols Q :=
  ⟨fun a symbols' hx => (h.sound a symbols' hx).imp_right (hPQ a _).mp,
    fun a Γ hQ => h.complete a Γ ((hPQ a Γ).mpr hQ)⟩

/-- What comes next begins with what the first part leaves. -/
theorem bind {k : α → Check β} {R : α → Context → β → Context → Prop}
    (h : Advances scope x symbols P)
    (hk : ∀ a symbols', Grown scope symbols symbols' → P a (symbols'.chain scope) →
      Advances scope (k a) symbols' (R a (symbols'.chain scope))) :
    Advances scope (x >>= k) symbols fun b Γ' => ∃ a Γ, P a Γ ∧ R a Γ b Γ' := by
  constructor
  · intro b symbols' hx
    obtain ⟨a, middle, hx, hrest⟩ := bind_eq_ok_iff.mp hx
    obtain ⟨hgrown, hP⟩ := h.sound a middle hx
    obtain ⟨hgrown', hR⟩ := (hk a middle hgrown hP).sound b symbols' hrest
    exact ⟨hgrown.trans hgrown', a, _, hP, hR⟩
  · rintro b Γ' ⟨a, Γ, hP, hR⟩
    obtain ⟨middle, hx, rfl⟩ := h.complete a Γ hP
    obtain ⟨symbols', hrest, hchain⟩ :=
      (hk a middle (h.sound a middle hx).1 hP).complete b Γ' hR
    exact ⟨symbols', bind_eq_ok_iff.mpr ⟨a, middle, hx, hrest⟩, hchain⟩

/-- The answer may be put into another form at the end. -/
theorem bind_pure {f : α → β} (h : Advances scope x symbols P) :
    Advances scope (x >>= fun a => pure (f a)) symbols fun b Γ => ∃ a, P a Γ ∧ b = f a := by
  refine (h.bind (R := fun a Γ b Γ' => b = f a ∧ Γ' = Γ)
    fun a symbols' _ _ => (Decides.pure (f a)).advances).congr fun b Γ' => ⟨?_, ?_⟩
  · rintro ⟨a, _, hP, hb, rfl⟩
    exact ⟨a, hP, hb⟩
  · rintro ⟨a, hP, hb⟩
    exact ⟨a, Γ', hP, hb, rfl⟩

/-- What is done in a scope of its own decides: the scope is gone afterwards. -/
theorem withScope {parent : ScopeId} {body : ScopeId → Check α} {R : α → Context → Prop}
    (hsize : symbols.size ≠ Arena.root)
    (h : Advances symbols.size (body symbols.size) (symbols.push parent) R) :
    Decides (plain.withScope parent body) symbols fun a => ∃ Γ, R a Γ := by
  intro a symbols'
  constructor
  · intro hx
    obtain ⟨rfl, middle, hmiddle⟩ :=
      withScope_eq_ok hsize (fun a middle hbody => (h.sound a middle hbody).1) hx
    exact ⟨rfl, _, (h.sound a middle hmiddle).2⟩
  · rintro ⟨rfl, Γ, hR⟩
    obtain ⟨middle, hbody, -⟩ := h.complete a Γ hR
    obtain ⟨f, -, rfl⟩ := (h.sound a _ hbody).1
    rw [marking_withScope_apply, hbody]
    dsimp only
    rw [Arena.release_modify_push symbols' parent f hsize]
    rfl

end Advances

/-- What comes next begins in the state in which the first part decides. -/
theorem Decides.bind_advances {α β : Type} {scope : ScopeId} {x : Check α} {k : α → Check β}
    {symbols : Symbols} {P : α → Prop} {R : α → β → Context → Prop} (h : Decides x symbols P)
    (hk : ∀ a, P a → Advances scope (k a) symbols (R a)) :
    Advances scope (x >>= k) symbols fun b Γ => ∃ a, P a ∧ R a b Γ := by
  constructor
  · intro b symbols' hx
    obtain ⟨a, middle, hx, hrest⟩ := bind_eq_ok_iff.mp hx
    obtain ⟨rfl, ha⟩ := (h a middle).mp hx
    obtain ⟨hgrown, hR⟩ := (hk a ha).sound b symbols' hrest
    exact ⟨hgrown, a, ha, hR⟩
  · rintro b Γ ⟨a, ha, hR⟩
    obtain ⟨symbols', hrest, hchain⟩ := (hk a ha).complete b Γ hR
    exact ⟨symbols', bind_eq_ok_iff.mpr ⟨a, symbols, (h a symbols).mpr ⟨rfl, ha⟩, hrest⟩, hchain⟩

/-- A variable is defined in the nearest frame if it is new there. -/
theorem defineVariable_advances {scope : ScopeId} {symbol : VariableSymbol} {cause : CheckCause}
    {offset : Offset} {symbols : Symbols} {frame : Frame VariableSymbol FunctionSymbol}
    {Γ : Context} (hordered : symbols.Ordered) (hchain : symbols.chain scope = frame :: Γ) :
    Advances scope (plain.defineVariable scope symbol cause offset) symbols fun _ Γ' =>
      frame.variableTable.get? symbol.name = none
        ∧ Γ' = frame.setVariable symbol.name symbol :: Γ := by
  constructor
  · intro _ symbols' hx
    obtain ⟨first, rest, hbefore, hnew, hafter, hgrown⟩ := defineVariable_sound hordered hx
    cases hchain.symm.trans hbefore
    exact ⟨hgrown, by simpa [Bindings.contains] using hnew, hafter⟩
  · rintro _ _ ⟨hnew, rfl⟩
    obtain ⟨s, hscope⟩ := Arena.exists_scope?_of_chain_eq_cons hchain
    have hframe := Arena.chain_eq hordered hscope
    rw [hchain] at hframe
    obtain ⟨rfl, -⟩ := List.cons.inj hframe
    have hnew' : s.variableTable.get? symbol.name = none := hnew
    refine ⟨symbols.bindVariable scope symbol.name symbol, ?_,
      Arena.chain_bindVariable hordered hchain symbol.name symbol⟩
    simp only [marking_defineVariable_apply, Arena.defineVariable, Arena.define, hscope, hnew']
    rfl

/-! ### Statements -/

/-- A declaration defines its variable in the nearest frame, and the rules say
which type it has. -/
theorem declare_advances {scope : ScopeId} {offset : Offset} {d : Declaration Offset}
    {symbols : Symbols} {frame : Frame VariableSymbol FunctionSymbol} {Γ : Context}
    (hordered : symbols.Ordered) (hchain : symbols.chain scope = frame :: Γ)
    (hkeyed : Keyed (frame :: Γ)) (hknown : KnownOperators d.exprs) :
    Advances scope (plain.declare .builtin scope offset d) symbols fun answer Γ' =>
      ∃ type, answer.1 = ⟨d.name, type, some offset⟩
        ∧ ElaboratesDeclaration (frame :: Γ) d type answer.2
        ∧ frame.variableTable.get? d.name = none
        ∧ Γ' = frame.setVariable d.name ⟨d.name, type, some offset⟩ :: Γ := by
  obtain ⟨name, typeName, value⟩ := d
  rw [← hchain] at hkeyed
  -- Whatever the type is, the variable is defined in the end.
  have hdefine (type : Ty) (value' : Option (Expr Note)) :
      Advances scope (plain.defineDeclared scope offset ⟨name, typeName, value⟩ type value')
        symbols fun answer Γ' =>
          answer = (⟨name, type, some offset⟩, ⟨name, typeName, value'⟩)
            ∧ frame.variableTable.get? name = none
            ∧ Γ' = frame.setVariable name ⟨name, type, some offset⟩ :: Γ := by
    unfold Checker.defineDeclared
    refine (defineVariable_advances hordered hchain).bind_pure.congr fun answer Γ' => ⟨?_, ?_⟩
    · rintro ⟨_, ⟨hnew, hΓ⟩, hanswer⟩
      exact ⟨hanswer, hnew, hΓ⟩
    · rintro ⟨hanswer, hnew, hΓ⟩
      exact ⟨(), ⟨hnew, hΓ⟩, hanswer⟩
  rw [← hchain]
  cases typeName with
  | none =>
      cases value with
      | none =>
          rw [declare_needsTypeOrValue]
          refine reject_decides.advances.congr fun answer Γ' => ⟨fun h => h.1.elim, ?_⟩
          rintro ⟨type, _, hd, _⟩
          cases hd
      | some value =>
          rw [declare_inferred]
          refine ((infer_decides value hkeyed hknown).bind_advances
            fun answer _ => hdefine answer.1 (some answer.2)).congr fun answer Γ' => ⟨?_, ?_⟩
          · rintro ⟨⟨type, value'⟩, hvalue, rfl, hnew, hΓ⟩
            exact ⟨type, rfl, .inferred hvalue, hnew, hΓ⟩
          · obtain ⟨symbol, d'⟩ := answer
            rintro ⟨type, rfl, hd, hnew, hΓ⟩
            cases hd with
            | inferred hvalue => exact ⟨⟨type, _⟩, hvalue, rfl, hnew, hΓ⟩
  | some typeName =>
      cases value with
      | none =>
          rw [declare_declared]
          refine (resolveType_decides.bind_advances
            fun type _ => hdefine type none).congr fun answer Γ' => ⟨?_, ?_⟩
          · rintro ⟨type, htype, rfl, hnew, hΓ⟩
            exact ⟨type, rfl, .declared htype, hnew, hΓ⟩
          · obtain ⟨symbol, d'⟩ := answer
            rintro ⟨type, rfl, hd, hnew, hΓ⟩
            cases hd with
            | declared htype => exact ⟨type, htype, rfl, hnew, hΓ⟩
      | some value =>
          rw [declare_both]
          refine (resolveType_decides.bind_advances fun type _ =>
            (infer_decides value hkeyed hknown).bind_advances fun answer _ =>
              require_decides.bind_advances fun _ _ =>
                hdefine type (some answer.2)).congr fun answer Γ' => ⟨?_, ?_⟩
          · rintro ⟨type, htype, ⟨found, value'⟩, hvalue, _, hgood, rfl, hnew, hΓ⟩
            exact ⟨type, rfl, .both htype ⟨found, hvalue, hgood⟩, hnew, hΓ⟩
          · obtain ⟨symbol, d'⟩ := answer
            rintro ⟨type, rfl, hd, hnew, hΓ⟩
            cases hd with
            | both htype hvalue =>
                obtain ⟨found, hvalue, hgood⟩ := hvalue
                exact ⟨type, htype, ⟨found, _⟩, hvalue, (), hgood, rfl, hnew, hΓ⟩

/-- What the checker makes of a block in the scope on top, wherever it begins. -/
def BlockAdvances (returnType : Ty) (body : List (Stmt Offset)) : Prop :=
  ∀ {scope : Nat} {symbols : Symbols}, symbols.Ordered → scope + 1 = symbols.size →
    Keyed (symbols.chain scope) →
      Advances scope (plain.checkAll .builtin scope returnType body) symbols
        (ElaboratesBlock returnType (symbols.chain scope) body)

/-- A block in a scope of its own begins with what is defined in the scope before. -/
theorem BlockAdvances.scoped {returnType : Ty} {body : List (Stmt Offset)}
    (hbody : BlockAdvances returnType body) {frame : Frame VariableSymbol FunctionSymbol}
    {define : ScopeId → Check Unit} {allowed : Prop}
    (hdefine : ∀ {inner : ScopeId} {Γ : Context} {pushed : Symbols}, pushed.Ordered →
      pushed.chain inner = .empty :: Γ →
        Advances inner (define inner) pushed fun _ Γ' => allowed ∧ Γ' = frame :: Γ)
    (hframe : ∀ Γ : Context, Keyed Γ → Keyed (frame :: Γ))
    {scope : Nat} {symbols : Symbols} (hordered : symbols.Ordered)
    (htop : scope + 1 = symbols.size) (hkeyed : Keyed (symbols.chain scope)) :
    Decides (plain.withScope scope fun inner => do
        define inner
        plain.checkAll .builtin inner returnType body) symbols fun body' =>
      allowed ∧ ∃ Γ, ElaboratesBlock returnType (frame :: symbols.chain scope) body body' Γ := by
  have hscope : scope < symbols.size := by omega
  have hroot : symbols.size ≠ Arena.root := by
    intro heq
    rw [heq] at hscope
    exact Nat.not_lt_zero scope hscope
  -- The scope that is pushed has an empty frame, and `define` makes it the frame of the rules.
  have hpushed := hordered.push hscope
  have hinner := hdefine hpushed (Arena.chain_push hordered hscope)
  refine (Advances.withScope hroot (hinner.bind
    (R := fun _ Γ body' => ElaboratesBlock returnType Γ body body')
    fun _ defined hgrown hallowed => ?_)).congr fun body' => ⟨?_, ?_⟩
  · have hsize : symbols.size + 1 = defined.size := by
      rw [hgrown.size_eq, Arena.size_push]
    refine hbody (hgrown.ordered hpushed) hsize ?_
    rw [hallowed.2]
    exact hframe _ hkeyed
  · rintro ⟨Γ, _, _, ⟨hallowed, rfl⟩, hblock⟩
    exact ⟨hallowed, Γ, hblock⟩
  · rintro ⟨hallowed, Γ, hblock⟩
    exact ⟨Γ, (), _, ⟨hallowed, rfl⟩, hblock⟩

/-- A branch begins with an empty frame. -/
theorem BlockAdvances.withScope {returnType : Ty} {body : List (Stmt Offset)}
    (hbody : BlockAdvances returnType body) {scope : Nat} {symbols : Symbols}
    (hordered : symbols.Ordered) (htop : scope + 1 = symbols.size)
    (hkeyed : Keyed (symbols.chain scope)) :
    Decides
      (plain.withScope scope fun inner => plain.checkAll .builtin inner returnType body) symbols
      fun body' =>
        ∃ Γ, ElaboratesBlock returnType (.empty :: symbols.chain scope) body body' Γ := by
  have hnothing {inner : ScopeId} {Γ : Context} {pushed : Symbols} (_ : pushed.Ordered)
      (hchain : pushed.chain inner = .empty :: Γ) :
      Advances inner (pure () : Check Unit) pushed fun _ Γ' => True ∧ Γ' = .empty :: Γ :=
    (Decides.pure ()).advances.congr fun _ _ => by simp [hchain]
  exact (hbody.scoped hnothing (fun _ => keyed_cons_empty) hordered htop hkeyed).congr
    fun _ => and_iff_right trivial

/-- The body of a loop over a sequence begins with its variable. -/
theorem BlockAdvances.loopBody {returnType : Ty} {body : List (Stmt Offset)}
    (hbody : BlockAdvances returnType body) {scope : Nat} {name : String} {offset : Offset}
    {symbols : Symbols} (hordered : symbols.Ordered) (htop : scope + 1 = symbols.size)
    (hkeyed : Keyed (symbols.chain scope)) :
    Decides (plain.withScope scope fun inner => do
        plain.defineVariable inner ⟨name, .integer, none⟩ (.alreadyDefined name) offset
        plain.checkAll .builtin inner returnType body) symbols fun body' =>
      ∃ Γ, ElaboratesBlock returnType
        (Frame.empty.setVariable name ⟨name, .integer, none⟩ :: symbols.chain scope)
        body body' Γ := by
  have hvariable {inner : ScopeId} {Γ : Context} {pushed : Symbols} (hpushed : pushed.Ordered)
      (hchain : pushed.chain inner = .empty :: Γ) :
      Advances inner
        (plain.defineVariable inner ⟨name, .integer, none⟩ (.alreadyDefined name) offset) pushed
        fun _ Γ' => True ∧ Γ' = Frame.empty.setVariable name ⟨name, .integer, none⟩ :: Γ :=
    (defineVariable_advances hpushed hchain).congr fun _ _ => and_congr_left fun _ =>
      iff_true_intro rfl
  exact (hbody.scoped hvariable (fun _ h => keyed_cons_setVariable (keyed_cons_empty h)) hordered
    htop hkeyed).congr fun _ => and_iff_right trivial

/-- A statement binds variables at most, so functions stay bound by their own names
and arities. -/
theorem ElaboratesStmt.keyed {returnType : Ty} {Γ Γ' : Context} {s : Stmt Offset}
    {s' : Stmt Note} (h : ElaboratesStmt returnType Γ s s' Γ') (hkeyed : Keyed Γ) : Keyed Γ' := by
  cases h with
  | declare => exact keyed_cons_setVariable hkeyed
  | _ => exact hkeyed

/-- A statement stands in the scope on top, from where the context is seen. -/
structure Stands (scope : Nat) (symbols : Symbols) (Γ : Context) : Prop where
  ordered : symbols.Ordered
  top : scope + 1 = symbols.size
  chain_eq : symbols.chain scope = Γ
  keyed : Keyed Γ

namespace Stands

variable {scope : Nat} {symbols symbols' : Symbols} {Γ Γ' : Context} {returnType : Ty}

/-- There is a frame on top, that of the scope in which the statement stands. -/
theorem exists_frame (h : Stands scope symbols Γ) : ∃ frame rest, Γ = frame :: rest := by
  obtain ⟨s, hscope⟩ : ∃ s, symbols.scope? scope = some s := by
    have hlt : scope < symbols.size := by have := h.top; omega
    exact ⟨_, List.getElem?_eq_getElem hlt⟩
  exact ⟨_, _, h.chain_eq.symm.trans (Arena.chain_eq h.ordered hscope)⟩

/-- What comes next stands in the same scope. -/
theorem next (h : Stands scope symbols Γ) (hgrown : Grown scope symbols symbols')
    (hkeyed : Keyed (symbols'.chain scope)) : Stands scope symbols' (symbols'.chain scope) :=
  ⟨hgrown.ordered h.ordered, by rw [hgrown.size_eq]; exact h.top, rfl, hkeyed⟩

/-- Only a declaration changes the context. -/
theorem stay (h : Stands scope symbols Γ) {x : Check (Stmt Note)} {P : Stmt Note → Prop}
    (hx : Decides x symbols P) : Advances scope x symbols fun s' Γ' => P s' ∧ Γ' = Γ := by
  rw [← h.chain_eq]
  exact hx.advances

/-- An expression in a statement is decided in the context in which the statement
stands. -/
theorem infer (h : Stands scope symbols Γ) (e : Expr Offset) (hknown : KnownOperators e.subs) :
    Decides (plain.infer .builtin scope e) symbols fun answer =>
      Elaborates Γ e answer.1 answer.2 := by
  have hkeyed := h.keyed
  rw [← h.chain_eq] at hkeyed ⊢
  exact infer_decides e hkeyed hknown

/-- So is an expression with an expected type. -/
theorem inferAs (h : Stands scope symbols Γ) (expected : Ty) (e : Expr Offset)
    (hknown : KnownOperators e.subs) :
    Decides (plain.inferAs .builtin scope expected e) symbols (ElaboratesAs Γ expected e) := by
  have hkeyed := h.keyed
  rw [← h.chain_eq] at hkeyed ⊢
  exact inferAs_decides hkeyed hknown

/-- So is a block, in this context with an empty frame on top. What it defines is
gone when it is done. -/
theorem block (h : Stands scope symbols Γ) {body : List (Stmt Offset)}
    (hbody : BlockAdvances returnType body) :
    Decides (plain.withScope scope fun inner => plain.checkAll .builtin inner returnType body)
      symbols fun body' => ∃ Γ', ElaboratesBlock returnType (.empty :: Γ) body body' Γ' := by
  have hkeyed := h.keyed
  rw [← h.chain_eq] at hkeyed ⊢
  exact hbody.withScope h.ordered h.top hkeyed

/-- Without a second branch nothing is checked, and no statements are elaborated. -/
theorem elseBlock (h : Stands scope symbols Γ) {body : List (Stmt Offset)}
    (hbody : BlockAdvances returnType body) (f : List (Stmt Note) → Stmt Note) :
    Decides (if body.isEmpty then do
        let body' ← pure []
        pure (f body')
      else do
        let body' ← plain.withScope scope fun inner =>
          plain.checkAll .builtin inner returnType body
        pure (f body')) symbols fun s' =>
      ∃ body', (∃ Γ', ElaboratesBlock returnType (.empty :: Γ) body body' Γ') ∧ s' = f body' := by
  cases body with
  | nil =>
      refine (Decides.pure (f [])).congr fun s' => ⟨?_, ?_⟩
      · rintro rfl
        exact ⟨[], ⟨_, .nil⟩, rfl⟩
      · rintro ⟨_, ⟨_, ⟨⟩⟩, rfl⟩
        rfl
  | cons s rest => exact (h.block hbody).bind fun _ _ => .pure _

end Stands

/-- Begun with these symbols, the checker elaborates the statement as the rules do, and leaves
the context that they leave. -/
def StmtAdvances (scope : Nat) (symbols : Symbols) (Γ : Context) (returnType : Ty)
    (s : Stmt Offset) : Prop :=
  Advances scope (plain.checkStmt .builtin scope returnType s) symbols
    (ElaboratesStmt returnType Γ s)

namespace StmtAdvances

variable {scope : Nat} {symbols : Symbols} {Γ : Context} {returnType : Ty} {m : Offset}
  {target value condition : Expr Offset} {body thenBody elseBody : List (Stmt Offset)}

/-- An expression that stands as a statement is elaborated, and nothing is defined. -/
theorem expression (h : Stands scope symbols Γ) (hknown : KnownOperators value.subs) :
    StmtAdvances scope symbols Γ returnType (.expression m value) := by
  unfold StmtAdvances Checker.checkStmt
  rw [plain_node]
  refine (h.stay (Decides.ite (fun _ => (h.infer value hknown).bind fun _ _ => .pure _)
    fun _ => reject_decides)).congr fun s' Γ' => ⟨?_, ?_⟩
  · rintro ⟨⟨hkind, ⟨type, value'⟩, hvalue, rfl⟩ | ⟨_, hfalse⟩, rfl⟩
    · exact .expression hkind hvalue
    · exact hfalse.elim
  · intro h
    cases h with
    | expression hkind hvalue => exact ⟨.inl ⟨hkind, ⟨_, _⟩, hvalue, rfl⟩, rfl⟩

/-- A declaration defines a variable in the nearest frame, where its name has to be
new. The value is elaborated in the context before. -/
theorem declare {d : Declaration Offset} (h : Stands scope symbols Γ)
    (hknown : KnownOperators d.exprs) :
    StmtAdvances scope symbols Γ returnType (.declare m d) := by
  unfold StmtAdvances Checker.checkStmt
  rw [plain_node]
  obtain ⟨frame, rest, rfl⟩ := h.exists_frame
  refine (declare_advances h.ordered h.chain_eq h.keyed hknown).bind_pure.congr
    fun s' Γ' => ⟨?_, ?_⟩
  · rintro ⟨⟨symbol, d'⟩, ⟨type, rfl, hd, hnew, rfl⟩, rfl⟩
    exact .declare hnew hd
  · intro h
    cases h with
    | declare hnew hd => exact ⟨⟨_, _⟩, ⟨_, rfl, hd, hnew, rfl⟩, rfl⟩

/-- The target of an assignment is elaborated as an expression, and its type is the
one that the value is to be good for. -/
theorem assign (h : Stands scope symbols Γ) (htarget : KnownOperators target.subs)
    (hvalue : KnownOperators value.subs) :
    StmtAdvances scope symbols Γ returnType (.assign m target value) := by
  unfold StmtAdvances Checker.checkStmt
  rw [plain_node]
  refine (h.stay (Decides.ite (fun _ => (h.infer target htarget).bind fun answer _ =>
    (h.inferAs answer.1 value hvalue).bind fun _ _ => .pure _)
    fun _ => reject_decides)).congr fun s' Γ' => ⟨?_, ?_⟩
  · rintro ⟨⟨hkind, ⟨type, target'⟩, htarget, value', hvalue, rfl⟩ | ⟨_, hfalse⟩, rfl⟩
    · exact .assign hkind htarget hvalue
    · exact hfalse.elim
  · intro h
    cases h with
    | assign hkind htarget hvalue =>
        exact ⟨.inl ⟨hkind, ⟨_, _⟩, htarget, _, hvalue, rfl⟩, rfl⟩

/-- Both branches are blocks of their own, the first of them not empty, and the
condition is to be a boolean. -/
theorem cond (h : Stands scope symbols Γ) (hcondition : KnownOperators condition.subs)
    (hthen : BlockAdvances returnType thenBody) (helse : BlockAdvances returnType elseBody) :
    StmtAdvances scope symbols Γ returnType (.cond m condition thenBody elseBody) := by
  unfold StmtAdvances Checker.checkStmt
  rw [plain_node]
  refine (h.stay ((h.inferAs .boolean condition hcondition).bind fun _ _ =>
    Decides.ite (c := thenBody.isEmpty = true) (fun _ => reject_decides) fun _ =>
      (h.block hthen).bind fun _ _ => h.elseBlock helse _)).congr fun s' Γ' => ⟨?_, ?_⟩
  · rintro ⟨⟨condition', hcondition, ⟨_, hfalse⟩ |
      ⟨hempty, thenBody', ⟨Γthen, hthen⟩, elseBody', ⟨Γelse, helse⟩, rfl⟩⟩, rfl⟩
    · exact hfalse.elim
    · exact .cond hcondition (by rwa [List.isEmpty_iff] at hempty) hthen helse
  · intro h
    cases h with
    | cond hcondition hnonempty hthen helse =>
        have hempty : ¬ thenBody.isEmpty = true := by rwa [List.isEmpty_iff]
        exact ⟨⟨_, hcondition, .inr ⟨hempty, _, ⟨_, hthen⟩, _, ⟨_, helse⟩, rfl⟩⟩, rfl⟩

/-- What is gone through is to be a sequence of integers. The body is a block of its
own that is not empty, with the variable of the loop in its frame already. -/
theorem forIn {name : String} (h : Stands scope symbols Γ)
    (hvalue : KnownOperators value.subs) (hbody : BlockAdvances returnType body) :
    StmtAdvances scope symbols Γ returnType (.forIn m name value body) := by
  unfold StmtAdvances Checker.checkStmt
  rw [plain_node]
  have hloop : Decides (plain.withScope scope fun inner => do
      plain.defineVariable inner ⟨name, .integer, none⟩ (.alreadyDefined name) m
      plain.checkAll .builtin inner returnType body) symbols fun body' =>
        ∃ Γ', ElaboratesBlock returnType
          (Frame.empty.setVariable name ⟨name, .integer, none⟩ :: Γ) body body' Γ' := by
    have hkeyed := h.keyed
    rw [← h.chain_eq] at hkeyed ⊢
    exact hbody.loopBody h.ordered h.top hkeyed
  refine (h.stay (Decides.ite (fun _ => reject_decides) fun _ =>
    (h.inferAs .integerIterable value hvalue).bind fun _ _ =>
      hloop.bind fun _ _ => .pure _)).congr fun s' Γ' => ⟨?_, ?_⟩
  · rintro ⟨⟨_, hfalse⟩ | ⟨hempty, value', hvalue, body', ⟨Γbody, hbody⟩, rfl⟩, rfl⟩
    · exact hfalse.elim
    · exact .forIn hvalue (by rwa [List.isEmpty_iff] at hempty) hbody
  · intro h
    cases h with
    | forIn hvalue hnonempty hbody =>
        have hempty : ¬ body.isEmpty = true := by rwa [List.isEmpty_iff]
        exact ⟨.inr ⟨hempty, _, hvalue, _, ⟨_, hbody⟩, rfl⟩, rfl⟩

/-- The body is a block of its own, and the condition is to be a boolean. -/
theorem whileDo (h : Stands scope symbols Γ) (hcondition : KnownOperators condition.subs)
    (hbody : BlockAdvances returnType body) :
    StmtAdvances scope symbols Γ returnType (.whileDo m condition body) := by
  unfold StmtAdvances Checker.checkStmt
  rw [plain_node]
  refine (h.stay ((h.inferAs .boolean condition hcondition).bind fun _ _ =>
    (h.block hbody).bind fun _ _ => .pure _)).congr fun s' Γ' => ⟨?_, ?_⟩
  · rintro ⟨⟨condition', hcondition, body', ⟨Γbody, hbody⟩, rfl⟩, rfl⟩
    exact .whileDo hcondition hbody
  · intro h
    cases h with
    | whileDo hcondition hbody => exact ⟨⟨_, hcondition, _, ⟨_, hbody⟩, rfl⟩, rfl⟩

/-- What is returned is to be good for the type that the method returns. -/
theorem result (h : Stands scope symbols Γ) (hknown : KnownOperators value.subs) :
    StmtAdvances scope symbols Γ returnType (.result m value) := by
  unfold StmtAdvances Checker.checkStmt
  rw [plain_node]
  refine (h.stay ((h.inferAs returnType value hknown).bind fun _ _ => .pure _)).congr
    fun s' Γ' => ⟨?_, ?_⟩
  · rintro ⟨⟨value', hvalue, rfl⟩, rfl⟩
    exact .result hvalue
  · intro h
    cases h with
    | result hvalue => exact ⟨⟨_, hvalue, rfl⟩, rfl⟩

/-- A construct that is not of the language is passed over, as the rules do: neither
the checker nor they say anything of what is in it. -/
theorem foreign {kind : NodeKind} {written : String} (h : Stands scope symbols Γ) :
    StmtAdvances scope symbols Γ returnType (.foreign m kind written) := by
  unfold StmtAdvances Checker.checkStmt
  rw [plain_node]
  refine (h.stay (Decides.pure _)).congr fun s' Γ' => ⟨?_, ?_⟩
  · rintro ⟨rfl, rfl⟩
    exact .foreign
  · intro h
    cases h with
    | foreign => exact ⟨rfl, rfl⟩

end StmtAdvances

mutual

/-- The checker elaborates a statement in the scope on top as the rules do, and leaves
the context that they leave. -/
theorem checkStmt_advances {scope : Nat} {returnType : Ty} {symbols : Symbols} {Γ : Context}
    (s : Stmt Offset) (h : Stands scope symbols Γ) (hknown : KnownOperators s.exprs) :
    StmtAdvances scope symbols Γ returnType s := by
  cases s with
  | expression m value => exact .expression h hknown
  | declare m d => exact .declare h hknown
  | assign m target value =>
      obtain ⟨htarget, hvalue⟩ := knownOperators_append.mp hknown
      exact .assign h htarget hvalue
  | cond m condition thenBody elseBody =>
      obtain ⟨hcondition, hbodies⟩ := knownOperators_append.mp hknown
      obtain ⟨hthen, helse⟩ := knownOperators_append.mp hbodies
      exact .cond h hcondition (checkAll_advances returnType thenBody hthen)
        (checkAll_advances returnType elseBody helse)
  | forIn m name value body =>
      obtain ⟨hvalue, hbody⟩ := knownOperators_append.mp hknown
      exact .forIn h hvalue (checkAll_advances returnType body hbody)
  | whileDo m condition body =>
      obtain ⟨hcondition, hbody⟩ := knownOperators_append.mp hknown
      exact .whileDo h hcondition (checkAll_advances returnType body hbody)
  | result m value => exact .result h hknown
  | foreign m kind written => exact .foreign h

/-- A body is decided statement by statement, each in the context that the one
before has left. The induction is on the body, together with that of
`checkStmt_advances` on the statements in it. -/
theorem checkAll_advances (returnType : Ty) (body : List (Stmt Offset))
    (hknown : KnownOperators (Stmt.exprsAll body)) : BlockAdvances returnType body := by
  intro scope symbols hordered htop hkeyed
  have hstands : Stands scope symbols (symbols.chain scope) := ⟨hordered, htop, rfl, hkeyed⟩
  unfold Checker.checkAll
  cases body with
  | nil =>
      refine (Decides.pure _).advances.congr fun body' Γ' => ⟨?_, ?_⟩
      · rintro ⟨rfl, rfl⟩
        exact .nil
      · intro h
        cases h with
        | nil => exact ⟨rfl, rfl⟩
  | cons s rest =>
      obtain ⟨hs, hrest⟩ := knownOperators_append.mp hknown
      have hfirst : StmtAdvances scope symbols _ returnType s := checkStmt_advances s hstands hs
      refine (Advances.bind (R := fun s' Γ body' Γ' => ∃ rest',
        ElaboratesBlock returnType Γ rest rest' Γ' ∧ body' = s' :: rest') hfirst
          fun s' symbols' hgrown hstmt => ?_).congr fun body' Γ' => ⟨?_, ?_⟩
      · -- What the rules leave of the statement is what is seen when the rest is checked.
        obtain ⟨hordered, htop, -, hkeyed⟩ := hstands.next hgrown (hstmt.keyed hkeyed)
        exact (checkAll_advances returnType rest hrest hordered htop hkeyed).bind_pure
      · rintro ⟨s', Γ, hs, rest', hrest, rfl⟩
        exact .cons hs hrest
      · intro h
        cases h with
        | cons hs hrest => exact ⟨_, _, hs, _, hrest, rfl⟩

end

end PlcLang.Proofs
