import PlcLang.Proofs.Grammar.Derivation
import PlcLang.Proofs.Syntax.Subexpressions

/-!
# `PlcLang.Proofs.Grammar.Parts`: the parts of a derived tree

The grammar derives a tree from its parts, so every expression of a derived
tree is derived, too, from tokens of its own: `Derives.written`. What the
rules say of an expression alone therefore holds of all expressions of a
program. The same goes for statements: `Derives.derivedFrom`.
-/

set_option autoImplicit false

namespace PlcLang.Proofs

/-- The expression is derived from some tokens, whichever they are. -/
def Written (e : Expr Unit) : Prop :=
  ∃ level tokens, DerivesExpr level tokens e

/-- All the expressions are derived from some tokens. -/
def AllWritten (exprs : List (Expr Unit)) : Prop :=
  ∀ e ∈ exprs, Written e

/-- So are those of an empty list. -/
theorem allWritten_nil : AllWritten [] :=
  fun _ h => absurd h List.not_mem_nil

/-- So are those of a list, if its first one is and the others are. -/
theorem allWritten_cons {e : Expr Unit} {rest : List (Expr Unit)} (he : Written e)
    (hrest : AllWritten rest) : AllWritten (e :: rest) :=
  List.forall_mem_cons.mpr ⟨he, hrest⟩

/-- So are those of two lists. -/
theorem allWritten_append {exprs others : List (Expr Unit)} (h : AllWritten exprs)
    (hothers : AllWritten others) : AllWritten (exprs ++ others) :=
  List.forall_mem_append.mpr ⟨h, hothers⟩

/-! ### Expressions -/

mutual

/-- All expressions inside a derived expression are derived. By induction on the
derivation. -/
theorem DerivesExpr.written {level : Level} {tokens : List Token} {e : Expr Unit} :
    DerivesExpr level tokens e → AllWritten e.subs
  -- These two rules leave the tree as it is; each other rule puts a root on the trees of
  -- its parts, and is itself what derives that root.
  | .operand h | .simple h => h.written
  | .binary hleft hop hright =>
      allWritten_cons ⟨_, _, .binary hleft hop hright⟩
        (allWritten_append hleft.written hright.written)
  | .field hreceiver hpoint hname =>
      allWritten_cons ⟨_, _, .field hreceiver hpoint hname⟩ hreceiver.written
  | .methodCall hreceiver hpoint hname hparen harguments =>
      allWritten_cons ⟨_, _, .methodCall hreceiver hpoint hname hparen harguments⟩
        (allWritten_append hreceiver.written harguments.written)
  | .nil h => allWritten_cons ⟨_, _, .nil h⟩ allWritten_nil
  | .boolean h => allWritten_cons ⟨_, _, .boolean h⟩ allWritten_nil
  | .integer hkind hvalue => allWritten_cons ⟨_, _, .integer hkind hvalue⟩ allWritten_nil
  | .decimal hkind hvalue => allWritten_cons ⟨_, _, .decimal hkind hvalue⟩ allWritten_nil
  | .character hkind htext => allWritten_cons ⟨_, _, .character hkind htext⟩ allWritten_nil
  | .string hkind htext => allWritten_cons ⟨_, _, .string hkind htext⟩ allWritten_nil
  | .var hname => allWritten_cons ⟨_, _, .var hname⟩ allWritten_nil
  | .call hname hparen harguments =>
      allWritten_cons ⟨_, _, .call hname hparen harguments⟩ harguments.written
  | .group hleft hinner hright =>
      allWritten_cons ⟨_, _, .group hleft hinner hright⟩ hinner.written

/-- So are those inside of arguments. -/
theorem DerivesArguments.written {tokens : List Token} {list : List (Expr Unit)} :
    DerivesArguments tokens list → AllWritten (Expr.subsAll list)
  | .none _ => allWritten_nil
  | .some harguments _ => harguments.written

/-- So are those inside of arguments that have begun. -/
theorem DerivesSeries.written {tokens : List Token} {list : List (Expr Unit)} :
    DerivesSeries tokens list → AllWritten (Expr.subsAll list)
  | .one h => allWritten_append h.written allWritten_nil
  | .more h _ hrest => allWritten_append h.written hrest.written

end

/-! ### Statements and programs -/

/-- So are those of a declaration, in its value. -/
theorem DerivesDeclaration.written {tokens : List Token} {d : Declaration Unit}
    (h : DerivesDeclaration tokens d) : AllWritten d.exprs := by
  cases h with
  | mk _ _ hvalue =>
      cases hvalue with
      | absent => exact allWritten_nil
      | present _ h => exact h.written

mutual

/-- So are those of a statement, at whatever depth. -/
theorem DerivesStmt.written {tokens : List Token} {s : Stmt Unit} :
    DerivesStmt tokens s → AllWritten s.exprs
  | .declare _ hd _ => hd.written
  | .cond _ hcondition _ hthen helse _ =>
      allWritten_append hcondition.written (allWritten_append hthen.written helse.written)
  | .forIn _ _ _ hvalue _ hbody _ => allWritten_append hvalue.written hbody.written
  | .whileDo _ hcondition _ hbody _ => allWritten_append hcondition.written hbody.written
  | .result _ hvalue _ => hvalue.written
  | .expression h _ => h.written
  | .assign htarget _ hvalue _ => allWritten_append htarget.written hvalue.written

/-- So are those of a block. -/
theorem DerivesBlock.written {tokens : List Token} {body : List (Stmt Unit)} :
    DerivesBlock tokens body → AllWritten (Stmt.exprsAll body)
  | .nil => allWritten_nil
  | .cons hs hrest => allWritten_append hs.written hrest.written

/-- So are those of a second branch. -/
theorem DerivesElse.written {tokens : List Token} {body : List (Stmt Unit)} :
    DerivesElse tokens body → AllWritten (Stmt.exprsAll body)
  | .absent => allWritten_nil
  | .present _ hbody => hbody.written

end

/-- Each item of a derived list is derived from some of the tokens. -/
theorem DerivesAll.exists_part {β : Type} {item : List Token → β → Prop} {tokens : List Token}
    {list : List β} (h : DerivesAll item tokens list) :
    ∀ b ∈ list, ∃ part, item part b ∧ part ⊆ tokens := by
  induction h with
  | nil => simp
  | @cons first rest _ _ ha _ ih =>
      refine List.forall_mem_cons.mpr ⟨⟨first, ha, List.subset_append_left first rest⟩, ?_⟩
      intro b hb
      obtain ⟨part, hpart, hsub⟩ := ih b hb
      exact ⟨part, hpart, List.Subset.trans hsub (List.subset_append_right first rest)⟩

/-- Every expression of a derived program is derived from some tokens. -/
theorem Derives.written {tokens : List Token} {program : Program Unit}
    (h : Derives tokens program) : AllWritten program.exprs := by
  cases h with
  | mk hfields hmethods =>
      refine allWritten_append (fun e he => ?_) fun e he => ?_
      · obtain ⟨field, hfield, he⟩ := List.mem_flatMap.mp he
        obtain ⟨part, hpart, -⟩ := hfields.exists_part field hfield
        cases hpart with
        | mk _ hd _ => exact hd.written e he
      · obtain ⟨method, hmethod, he⟩ := List.mem_flatMap.mp he
        obtain ⟨part, hpart, -⟩ := hmethods.exists_part method hmethod
        cases hpart with
        | mk _ _ _ _ _ _ hbody _ => exact hbody.written e he

/-! ### Statements inside others -/

/-- Each of the statements is derived from some of the tokens. -/
def DerivedFrom (tokens : List Token) (list : List (Stmt Unit)) : Prop :=
  ∀ s ∈ list, ∃ part, DerivesStmt part s ∧ part ⊆ tokens

/-- So are those of an empty list. -/
theorem derivedFrom_nil (tokens : List Token) : DerivedFrom tokens [] :=
  fun _ h => absurd h List.not_mem_nil

/-- So are those of a list, if its first one is and the others are. -/
theorem derivedFrom_cons {tokens : List Token} {s : Stmt Unit} {rest : List (Stmt Unit)}
    (h : DerivesStmt tokens s) (hrest : DerivedFrom tokens rest) :
    DerivedFrom tokens (s :: rest) :=
  List.forall_mem_cons.mpr ⟨⟨tokens, h, List.Subset.refl tokens⟩, hrest⟩

/-- So are those of two lists. -/
theorem derivedFrom_append {tokens : List Token} {list other : List (Stmt Unit)}
    (h : DerivedFrom tokens list) (hother : DerivedFrom tokens other) :
    DerivedFrom tokens (list ++ other) :=
  List.forall_mem_append.mpr ⟨h, hother⟩

/-- Tokens of a part are tokens of the whole. -/
theorem DerivedFrom.mono {tokens part : List Token} {list : List (Stmt Unit)}
    (h : DerivedFrom part list) (hpart : part ⊆ tokens) : DerivedFrom tokens list := by
  intro s hs
  obtain ⟨inner, hinner, hsub⟩ := h s hs
  exact ⟨inner, hinner, List.Subset.trans hsub hpart⟩

mutual

/-- All statements inside a derived statement are derived. By induction on the
derivation. -/
theorem DerivesStmt.derivedFrom {tokens : List Token} {s : Stmt Unit} :
    DerivesStmt tokens s → DerivedFrom tokens s.subs
  | .declare hfirst hd hlast => derivedFrom_cons (.declare hfirst hd hlast) (derivedFrom_nil _)
  | .cond hfirst hcondition hopening hthen helse hlast =>
      derivedFrom_cons (.cond hfirst hcondition hopening hthen helse hlast)
        (derivedFrom_append (hthen.derivedFrom.mono fun t ht => by simp [ht])
          (helse.derivedFrom.mono fun t ht => by simp [ht]))
  | .forIn hfirst hname hbetween hvalue hopening hbody hlast =>
      derivedFrom_cons (.forIn hfirst hname hbetween hvalue hopening hbody hlast)
        (hbody.derivedFrom.mono fun t ht => by simp [ht])
  | .whileDo hfirst hcondition hopening hbody hlast =>
      derivedFrom_cons (.whileDo hfirst hcondition hopening hbody hlast)
        (hbody.derivedFrom.mono fun t ht => by simp [ht])
  | .result hfirst hvalue hlast =>
      derivedFrom_cons (.result hfirst hvalue hlast) (derivedFrom_nil _)
  | .expression h hlast => derivedFrom_cons (.expression h hlast) (derivedFrom_nil _)
  | .assign htarget hequals hvalue hlast =>
      derivedFrom_cons (.assign htarget hequals hvalue hlast) (derivedFrom_nil _)

/-- So are those inside of a block. -/
theorem DerivesBlock.derivedFrom {tokens : List Token} {body : List (Stmt Unit)} :
    DerivesBlock tokens body → DerivedFrom tokens (Stmt.subsAll body)
  | .nil => derivedFrom_nil _
  | .cons hs hrest =>
      derivedFrom_append (hs.derivedFrom.mono (List.subset_append_left _ _))
        (hrest.derivedFrom.mono (List.subset_append_right _ _))

/-- So are those inside of a second branch. -/
theorem DerivesElse.derivedFrom {tokens : List Token} {body : List (Stmt Unit)} :
    DerivesElse tokens body → DerivedFrom tokens (Stmt.subsAll body)
  | .absent => derivedFrom_nil _
  | .present _ hbody => hbody.derivedFrom.mono (List.subset_cons_self _ _)

end

/-- Every statement of a derived program, at whatever depth, is derived from some of its
tokens. -/
theorem Derives.derivedFrom {tokens : List Token} {program : Program Unit}
    (h : Derives tokens program) : DerivedFrom tokens program.statements := by
  cases h with
  | mk hfields hmethods =>
      intro s hs
      obtain ⟨method, hmethod, hs⟩ := List.mem_flatMap.mp hs
      obtain ⟨part, hpart, hsub⟩ := hmethods.exists_part method hmethod
      cases hpart with
      | mk _ _ _ _ _ _ hbody _ =>
          obtain ⟨inner, hinner, hbodySub⟩ := hbody.derivedFrom s hs
          refine ⟨inner, hinner, fun t ht => ?_⟩
          have hbodyMem := hbodySub ht
          exact List.mem_append_right _ (hsub (by simp [hbodyMem]))

end PlcLang.Proofs
