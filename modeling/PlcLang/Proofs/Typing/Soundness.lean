import PlcLang.Proofs.Syntax.Subexpressions
import PlcLang.Proofs.Typing.Rules

/-!
# `PlcLang.Proofs.Typing.Soundness`: the checker keeps to the typing rules

What the watched checker accepts is derivable by the typing rules in the context
that its symbols make, and the symbols that it leaves behind make the context
that the rules leave behind.

The checker is threaded through an arena, the rules through a context. Expressions
leave the arena as it is (`infer_sound`). A statement of a scope changes at most
what this scope binds (`Grown`), so the scopes below stay as they are, and a
block's scope can be dropped behind it (`checkStmt_sound`).
-/

set_option autoImplicit false

namespace PlcLang

/-- Whether the expression's root is no operation, or one with an operator of the
language. -/
def Expr.hasKnownOperator {α : Type} : Expr α → Bool
  | .binary _ op _ _ => op.precedence?.isSome
  | _ => true

namespace Proofs

open Checker

/-- All operators among the expressions are those of the language. -/
def KnownOperators {α : Type} (exprs : List (Expr α)) : Prop :=
  ∀ e ∈ exprs, e.hasKnownOperator = true

/-- Two lists of expressions have operators of the language only if each of them
has. -/
theorem knownOperators_append {α : Type} {exprs others : List (Expr α)} :
    KnownOperators (exprs ++ others) ↔ KnownOperators exprs ∧ KnownOperators others :=
  List.forall_mem_append

/-- Functions in scope are bound by their own names and arities. -/
def Keyed (Γ : Context) : Prop :=
  ∀ frame ∈ Γ, ∀ key symbol, frame.functionTable.get? key = some symbol → symbol.key = key

/-- An empty frame has no functions. -/
theorem keyed_cons_empty {Γ : Context} (h : Keyed Γ) : Keyed (.empty :: Γ) := by
  intro frame hframe key symbol hsymbol
  rcases List.mem_cons.mp hframe with rfl | hframe
  · exact absurd hsymbol (by simp [Frame.empty, Bindings.empty, Bindings.get?])
  · exact h frame hframe key symbol hsymbol

/-- Variables do not matter for that. -/
theorem keyed_cons_setVariable {Γ : Context} {frame : Frame VariableSymbol FunctionSymbol}
    {name : String} {symbol : VariableSymbol} (h : Keyed (frame :: Γ)) :
    Keyed (frame.setVariable name symbol :: Γ) := by
  intro other hother key found hfound
  rcases List.mem_cons.mp hother with rfl | hother
  · exact h frame (by simp) key found hfound
  · exact h other (by simp [hother]) key found hfound

/-- A function that is found for a name and an arity has this name and this arity. -/
theorem key_of_nearestFunction? {Γ : Context} (h : Keyed Γ) {key : FunctionKey}
    {symbol : FunctionSymbol} (hsymbol : nearestFunction? key Γ = some symbol) :
    symbol.key = key := by
  obtain ⟨frame, hframe, hget⟩ := List.exists_of_findSome?_eq_some hsymbol
  exact h frame hframe key symbol hget

/-! ### Expressions -/

/-- A type that has passed is good for the expected one, and nothing has been
changed. -/
theorem require_eq_ok {types : TypeTable} {expected found : Ty} {offset : Offset}
    {symbols symbols' : Symbols} {u : Unit}
    (h : require types expected found offset symbols = .ok u symbols') :
    types.assignable expected found = true ∧ symbols' = symbols := by
  unfold require at h
  split at h
  · next hfits =>
      cases h
      exact ⟨hfits, rfl⟩
  · cases h

/-- Both operands have passed, and nothing has been changed. -/
theorem requireBoth_eq_ok {types : TypeTable} {expected left right type result : Ty} {m n : Offset}
    {symbols symbols' : Symbols}
    (h : (do
      require types expected left m
      require types expected right n
      pure type : Check Ty) symbols = .ok result symbols') :
    types.assignable expected left = true ∧ types.assignable expected right = true
      ∧ type = result ∧ symbols' = symbols := by
  obtain ⟨_, _, hleft, hmore⟩ := bind_eq_ok_iff.mp h
  obtain ⟨_, _, hright, hdone⟩ := bind_eq_ok_iff.mp hmore
  obtain ⟨hfitsLeft, rfl⟩ := require_eq_ok hleft
  obtain ⟨hfitsRight, rfl⟩ := require_eq_ok hright
  cases hdone
  exact ⟨hfitsLeft, hfitsRight, rfl, rfl⟩

/-- The type that the checker gives to an operator's result is one that the rules
give it. -/
theorem binaryType_sound {op : BinaryOp} {left right type : Ty} {m n k : Offset}
    {symbols symbols' : Symbols} (hop : op.precedence?.isSome = true)
    (h : binaryType .builtin op left right m n k symbols = .ok type symbols') :
    OperatorType op left right type ∧ symbols' = symbols := by
  unfold binaryType at h
  cases hprecedence : op.precedence? with
  | none => rw [hprecedence] at hop; exact absurd hop (by decide)
  | some p =>
      rw [hprecedence] at h
      -- Additive and multiplicative operators take the same branch: a sum with a string first,
      -- numbers otherwise.
      have harithmetic (hp : some p = some .additive ∨ some p = some .multiplicative)
          (hchoice : (if op = .add ∧ (left = .string ∨ right = .string) then pure .string
            else if left.isNumeric ∧ left = right then pure left
            else reject (.wrongOperands op left right) m : Check Ty) symbols
              = .ok type symbols') :
          OperatorType op left right type ∧ symbols' = symbols := by
        split at hchoice
        · next hconcat =>
            obtain ⟨rfl, hstring⟩ := hconcat
            cases hchoice
            exact ⟨.concat hstring, rfl⟩
        · split at hchoice
          · next hnumeric =>
              obtain ⟨hnumeric, rfl⟩ := hnumeric
              cases hchoice
              rw [← hprecedence] at hp
              exact ⟨.arithmetic hp hnumeric, rfl⟩
          · cases hchoice
      cases p with
      | logical =>
          obtain ⟨hleft, hright, rfl, rfl⟩ := requireBoth_eq_ok h
          exact ⟨.logical hprecedence hleft hright, rfl⟩
      | comparison =>
          obtain ⟨hleft, hright, rfl, rfl⟩ := requireBoth_eq_ok h
          exact ⟨.comparison hprecedence hleft hright, rfl⟩
      | additive => exact harithmetic (.inl rfl) h
      | multiplicative => exact harithmetic (.inr rfl) h

/-- No built-in type has a field. -/
theorem field?_builtin (type : Ty) (name : String) :
    TypeTable.builtin.field? type name = none := by
  cases type <;> rfl

/-- Nor has it a method. -/
theorem method?_builtin (type : Ty) (key : FunctionKey) :
    TypeTable.builtin.method? type key = none := by
  cases type <;> rfl

mutual

/-- An expression that the checker accepts is typed in the context of the scope,
and the symbols stay as they are. -/
theorem infer_sound {scope : ScopeId} {symbols symbols' : Symbols} {type : Ty} (e : Expr Offset)
    {e' : Expr Sight} (hkeyed : Keyed (symbols.chain scope)) (hknown : KnownOperators e.subs)
    (h : watched.infer .builtin scope e symbols = .ok (type, e') symbols') :
    symbols' = symbols ∧ TypedExpr (symbols.chain scope) e' type
      ∧ e'.map Sight.offset = e := by
  unfold Checker.infer at h
  obtain ⟨sight, _, hlook, hbody⟩ := bind_eq_ok_iff.mp h
  clear h
  cases hlook
  -- The sight is that of the symbols before the node, and no part of an expression changes them:
  -- one context is good for all parts.
  cases e with
  | nil m =>
      cases hbody
      exact ⟨rfl, .nil ⟨rfl, rfl, rfl⟩, rfl⟩
  | boolean m value =>
      cases hbody
      exact ⟨rfl, .boolean ⟨rfl, rfl, rfl⟩, rfl⟩
  | integer m value =>
      dsimp only at hbody
      split at hbody
      · next hfits =>
          cases hbody
          exact ⟨rfl, .integer ⟨rfl, rfl, rfl⟩ hfits, rfl⟩
      · cases hbody
  | decimal m value =>
      dsimp only at hbody
      split at hbody
      · next hfits =>
          cases hbody
          exact ⟨rfl, .decimal ⟨rfl, rfl, rfl⟩ hfits, rfl⟩
      · cases hbody
  | character m text =>
      cases hbody
      exact ⟨rfl, .character ⟨rfl, rfl, rfl⟩, rfl⟩
  | string m text =>
      cases hbody
      exact ⟨rfl, .string ⟨rfl, rfl, rfl⟩, rfl⟩
  | group m inner =>
      dsimp only at hbody
      split at hbody
      · next hkind =>
          obtain ⟨⟨innerType, inner'⟩, _, hinner, hdone⟩ := bind_eq_ok_iff.mp hbody
          clear hbody
          obtain ⟨rfl, htyped, rfl⟩ :=
            infer_sound inner hkeyed (fun e he => hknown e (by simp [Expr.subs, he])) hinner
          cases hdone
          rw [Expr.kind_map] at hkind
          exact ⟨rfl, .group ⟨rfl, rfl, rfl⟩ hkind htyped, rfl⟩
      · cases hbody
  | binary m op left right =>
      obtain ⟨⟨leftType, left'⟩, _, hleft, hbehind⟩ := bind_eq_ok_iff.mp hbody
      obtain ⟨⟨rightType, right'⟩, _, hright, hbinary⟩ := bind_eq_ok_iff.mp hbehind
      obtain ⟨binary, _, hop, hdone⟩ := bind_eq_ok_iff.mp hbinary
      clear hbody hbehind hbinary
      have hoperator : (Expr.binary m op left right).hasKnownOperator = true :=
        hknown _ (by simp [Expr.subs])
      obtain ⟨rfl, htypedLeft, rfl⟩ :=
        infer_sound left hkeyed (fun e he => hknown e (by simp [Expr.subs, he])) hleft
      obtain ⟨rfl, htypedRight, rfl⟩ :=
        infer_sound right hkeyed (fun e he => hknown e (by simp [Expr.subs, he])) hright
      obtain ⟨htype, rfl⟩ := binaryType_sound hoperator hop
      cases hdone
      exact ⟨rfl, .binary ⟨rfl, rfl, rfl⟩ htypedLeft htypedRight htype, rfl⟩
  | var m name =>
      obtain ⟨symbol, _, hfind, hdone⟩ := bind_eq_ok_iff.mp hbody
      clear hbody
      obtain ⟨rfl, hsymbol⟩ := (findVariable_finds _ _ _ _).mp hfind
      cases hdone
      rw [boundVariable?_eq] at hsymbol
      exact ⟨rfl, .var ⟨rfl, rfl, rfl⟩ hsymbol, rfl⟩
  | field m receiver name =>
      -- No built-in type has a field.
      obtain ⟨⟨receiverType, receiver'⟩, _, hreceiver, hmember⟩ := bind_eq_ok_iff.mp hbody
      dsimp only at hmember
      rw [field?_builtin] at hmember
      cases hmember
  | call m name arguments =>
      obtain ⟨symbol, _, hfind, hmore⟩ := bind_eq_ok_iff.mp hbody
      obtain ⟨arguments', _, harguments, hdone⟩ := bind_eq_ok_iff.mp hmore
      clear hbody hmore
      obtain ⟨rfl, hsymbol⟩ := (findFunction_finds _ _ _ _).mp hfind
      rw [boundFunction?_eq] at hsymbol
      -- The symbol was found by its key, so there are as many parameters as arguments.
      have harity : symbol.parameters.length = arguments.length :=
        congrArg Prod.snd (key_of_nearestFunction? hkeyed hsymbol)
      obtain ⟨rfl, htyped, rfl⟩ := inferArguments_sound arguments hkeyed
        (fun e he => hknown e (by simp [Expr.subs, he])) harity harguments
      cases hdone
      rw [Expr.length_mapAll] at hsymbol
      exact ⟨rfl, .call ⟨rfl, rfl, rfl⟩ hsymbol htyped, rfl⟩
  | methodCall m receiver name arguments =>
      obtain ⟨⟨receiverType, receiver'⟩, _, hreceiver, hmember⟩ := bind_eq_ok_iff.mp hbody
      dsimp only at hmember
      rw [method?_builtin] at hmember
      cases hmember
  | foreign m kind written => cases hbody

/-- Arguments that are accepted have types that are good for those of the
parameters, each in the context of the call. -/
theorem inferArguments_sound {scope : ScopeId} {symbols symbols' : Symbols}
    {parameters : List Ty} (arguments : List (Expr Offset)) {arguments' : List (Expr Sight)}
    (hkeyed : Keyed (symbols.chain scope)) (hknown : KnownOperators (Expr.subsAll arguments))
    (harity : parameters.length = arguments.length)
    (h : watched.inferArguments .builtin scope parameters arguments symbols
      = .ok arguments' symbols') :
    symbols' = symbols ∧ TypedArguments (symbols.chain scope) parameters arguments'
      ∧ Expr.mapAll Sight.offset arguments' = arguments := by
  cases arguments with
  | nil =>
      obtain rfl : parameters = [] := List.length_eq_zero_iff.mp harity
      unfold Checker.inferArguments at h
      cases h
      exact ⟨rfl, .nil, rfl⟩
  | cons argument rest =>
      cases parameters with
      | nil => simp at harity
      | cons parameter parameters =>
          unfold Checker.inferArguments at h
          obtain ⟨⟨type, argument'⟩, _, hargument, hbehind⟩ := bind_eq_ok_iff.mp h
          obtain ⟨_, _, hrequire, hmore⟩ := bind_eq_ok_iff.mp hbehind
          obtain ⟨rest', _, hrest, hdone⟩ := bind_eq_ok_iff.mp hmore
          clear h hbehind hmore
          obtain ⟨rfl, htyped, rfl⟩ := infer_sound argument hkeyed
            (fun e he => hknown e (by simp [Expr.subsAll, he])) hargument
          obtain ⟨hfits, rfl⟩ := require_eq_ok hrequire
          obtain ⟨rfl, htypedRest, rfl⟩ := inferArguments_sound rest hkeyed
            (fun e he => hknown e (by simp [Expr.subsAll, he])) (by simpa using harity) hrest
          cases hdone
          exact ⟨rfl, .cons htyped hfits htypedRest, rfl⟩

end

/-! ### Scopes of the checker -/

/-- Defining a variable puts it into the nearest frame. -/
theorem defineVariable_sound {μ : Type} {look : ScopeId → Check (Note → μ)} {scope : ScopeId}
    {symbol : VariableSymbol} {cause : CheckCause} {offset : Offset} {symbols symbols' : Symbols}
    {u : Unit} (hordered : symbols.Ordered)
    (h : (marking look).defineVariable scope symbol cause offset symbols = .ok u symbols') :
    ∃ frame Γ, symbols.chain scope = frame :: Γ
      ∧ frame.variableTable.contains symbol.name = false
      ∧ symbols'.chain scope = frame.setVariable symbol.name symbol :: Γ
      ∧ Grown scope symbols symbols' := by
  rw [marking_defineVariable_apply] at h
  unfold Arena.defineVariable Arena.define at h
  cases hscope : symbols.scope? scope with
  | none => rw [hscope] at h; cases h
  | some s =>
      rw [hscope] at h
      dsimp only at h
      cases hexisting : s.variableTable.get? symbol.name with
      | some existing => rw [hexisting] at h; cases h
      | none =>
          rw [hexisting] at h
          cases h
          have hparent (s : Scope VariableSymbol FunctionSymbol) :
              (s.setVariable symbol.name symbol).parent = s.parent := rfl
          refine ⟨s.frame, (symbols.chain scope).tail, ?_, ?_, ?_, _, hparent, rfl⟩
          · rw [Arena.chain_eq hordered hscope, List.tail_cons]
          · show (s.variableTable.get? symbol.name).isSome = false
            rw [hexisting]
            rfl
          · rw [Arena.chain_modify hordered hparent hscope]
            rfl

/-- What is checked in a scope of its own leaves the symbols as they were. -/
theorem withScope_eq_ok {α μ : Type} {look : ScopeId → Check (Note → μ)} {parent : ScopeId}
    {body : ScopeId → Check α} {a : α} {symbols symbols' : Symbols}
    (hsize : symbols.size ≠ Arena.root)
    (hgrown : ∀ a middle, body symbols.size (symbols.push parent) = .ok a middle →
      Grown symbols.size (symbols.push parent) middle)
    (h : (marking look).withScope parent body symbols = .ok a symbols') :
    symbols' = symbols
      ∧ ∃ middle, body symbols.size (symbols.push parent) = .ok a middle := by
  rw [marking_withScope_apply] at h
  cases hbody : body symbols.size (symbols.push parent) with
  | error e middle => rw [hbody] at h; cases h
  | ok b middle =>
      rw [hbody] at h
      cases h
      obtain ⟨f, -, rfl⟩ := hgrown a middle hbody
      refine ⟨?_, _, rfl⟩
      rw [Arena.release_modify_push symbols parent f hsize]
      rfl

/-! ### Statements -/

/-- A type that is found is the one that the table has under this name. -/
theorem resolveType_sound {name : String} {offset : Offset} {symbols symbols' : Symbols} {type : Ty}
    (h : resolveType .builtin name offset symbols = .ok type symbols') :
    TypeTable.builtin.resolve? name = some type ∧ symbols' = symbols := by
  unfold resolveType at h
  cases hresolve : TypeTable.builtin.resolve? name with
  | none => rw [hresolve] at h; cases h
  | some found =>
      rw [hresolve] at h
      cases h
      exact ⟨rfl, rfl⟩

/-- An expression that is accepted where a type is expected has a type that is good
for it. -/
theorem inferAs_sound {scope : ScopeId} {symbols symbols' : Symbols} {expected : Ty}
    {value : Expr Offset} {value' : Expr Sight} (hkeyed : Keyed (symbols.chain scope))
    (hknown : KnownOperators value.subs)
    (h : watched.inferAs .builtin scope expected value symbols = .ok value' symbols') :
    symbols' = symbols ∧ TypedAs (symbols.chain scope) expected value'
      ∧ value'.map Sight.offset = value := by
  unfold Checker.inferAs at h
  obtain ⟨⟨type, value''⟩, _, hvalue, hmore⟩ := bind_eq_ok_iff.mp h
  obtain ⟨_, _, hrequire, hdone⟩ := bind_eq_ok_iff.mp hmore
  obtain ⟨rfl, htyped, rfl⟩ := infer_sound value hkeyed hknown hvalue
  obtain ⟨hfits, rfl⟩ := require_eq_ok hrequire
  cases hdone
  exact ⟨rfl, ⟨type, htyped, hfits⟩, rfl⟩

/-- A declaration that the checker accepts is typed before its variable is there,
and puts it into the nearest frame. -/
theorem declare_sound {scope : ScopeId} {offset : Offset} {d : Declaration Offset}
    {d' : Declaration Sight} {symbol : VariableSymbol} {symbols symbols' : Symbols}
    (hordered : symbols.Ordered) (hkeyed : Keyed (symbols.chain scope))
    (hknown : KnownOperators d.exprs)
    (h : watched.declare .builtin scope offset d symbols = .ok (symbol, d') symbols') :
    ∃ frame Γ, symbols.chain scope = frame :: Γ
      ∧ frame.variableTable.contains symbol.name = false
      ∧ symbols'.chain scope = frame.setVariable symbol.name symbol :: Γ
      ∧ Grown scope symbols symbols' ∧ symbol.name = d'.name
      ∧ TypedDeclaration (symbols.chain scope) d' symbol.type
      ∧ d'.map Sight.offset = d := by
  obtain ⟨name, typeName, value⟩ := d
  -- Whatever the type is, the variable is defined in the end.
  have hdefine {type : Ty} {value' : Option (Expr Sight)}
      (hdone : watched.defineDeclared scope offset ⟨name, typeName, value⟩ type value' symbols
        = .ok (symbol, d') symbols')
      (htyped : TypedDeclaration (symbols.chain scope) ⟨name, typeName, value'⟩ type)
      (hvalue : value'.map (·.map Sight.offset) = value) :
      ∃ frame Γ, symbols.chain scope = frame :: Γ
        ∧ frame.variableTable.contains symbol.name = false
        ∧ symbols'.chain scope = frame.setVariable symbol.name symbol :: Γ
        ∧ Grown scope symbols symbols' ∧ symbol.name = d'.name
        ∧ TypedDeclaration (symbols.chain scope) d' symbol.type
        ∧ d'.map Sight.offset = ⟨name, typeName, value⟩ := by
    obtain ⟨_, _, hvariable, hpure⟩ := bind_eq_ok_iff.mp hdone
    cases hpure
    obtain ⟨frame, Γ, hchain, hnew, hchain', hgrown⟩ := defineVariable_sound hordered hvariable
    refine ⟨frame, Γ, hchain, hnew, hchain', hgrown, rfl, htyped, ?_⟩
    rw [Declaration.map, hvalue]
  cases typeName with
  | none =>
      cases value with
      | none => cases h
      | some value =>
          rw [declare_inferred] at h
          obtain ⟨⟨type, value'⟩, _, hvalue, hdone⟩ := bind_eq_ok_iff.mp h
          -- The value is typed in the context before the variable.
          obtain ⟨rfl, htyped, rfl⟩ := infer_sound value hkeyed hknown hvalue
          exact hdefine hdone (.inferred htyped) rfl
  | some typeName =>
      cases value with
      | none =>
          rw [declare_declared] at h
          obtain ⟨declared, _, htype, hdone⟩ := bind_eq_ok_iff.mp h
          obtain ⟨hresolve, rfl⟩ := resolveType_sound htype
          exact hdefine hdone (.declared hresolve) rfl
      | some value =>
          rw [declare_both] at h
          obtain ⟨declared, _, htype, hmore⟩ := bind_eq_ok_iff.mp h
          obtain ⟨⟨type, value'⟩, _, hvalue, hrest⟩ := bind_eq_ok_iff.mp hmore
          obtain ⟨_, _, hrequire, hdone⟩ := bind_eq_ok_iff.mp hrest
          obtain ⟨hresolve, rfl⟩ := resolveType_sound htype
          obtain ⟨rfl, htyped, rfl⟩ := infer_sound value hkeyed hknown hvalue
          obtain ⟨hfits, rfl⟩ := require_eq_ok hrequire
          exact hdefine hdone (.both hresolve ⟨type, htyped, hfits⟩) rfl

/-- What the checker makes of a block in the scope on top, wherever it begins. -/
def BlockSound (returnType : Ty) (body : List (Stmt Offset)) : Prop :=
  ∀ {scope : Nat} {symbols symbols' : Symbols} {body' : List (Stmt Sight)},
    symbols.Ordered → scope + 1 = symbols.size → Keyed (symbols.chain scope) →
      watched.checkAll .builtin scope returnType body symbols = .ok body' symbols' →
        Grown scope symbols symbols'
          ∧ TypedBlock returnType (symbols.chain scope) body' (symbols'.chain scope)
          ∧ Stmt.mapAll Sight.offset body' = body

/-- A block in a scope of its own begins with what is defined in the scope
before. -/
theorem BlockSound.scoped {returnType : Ty} {body : List (Stmt Offset)}
    (hbody : BlockSound returnType body) {frame : Frame VariableSymbol FunctionSymbol}
    {define : ScopeId → Check Unit}
    (hdefine : ∀ {inner : ScopeId} {Γ : Context} {pushed defined : Symbols}, pushed.Ordered →
      pushed.chain inner = .empty :: Γ → define inner pushed = .ok () defined →
        Grown inner pushed defined ∧ defined.chain inner = frame :: Γ)
    (hframe : ∀ Γ : Context, Keyed Γ → Keyed (frame :: Γ))
    {scope : Nat} {symbols symbols' : Symbols} {body' : List (Stmt Sight)}
    (hordered : symbols.Ordered) (htop : scope + 1 = symbols.size)
    (hkeyed : Keyed (symbols.chain scope))
    (h : watched.withScope scope (fun inner => do
        define inner
        watched.checkAll .builtin inner returnType body) symbols = .ok body' symbols') :
    symbols' = symbols
      ∧ (∃ Γ, TypedBlock returnType (frame :: symbols.chain scope) body' Γ)
      ∧ Stmt.mapAll Sight.offset body' = body := by
  have hscope : scope < symbols.size := by omega
  have hroot : symbols.size ≠ Arena.root := by
    intro heq
    rw [heq] at hscope
    exact Nat.not_lt_zero scope hscope
  have hpushed := hordered.push hscope
  -- The scope that is pushed has an empty frame, which `define` fills before the block is
  -- checked.
  have hsound {b : List (Stmt Sight)} {middle : Symbols}
      (hb : (do
        define symbols.size
        watched.checkAll .builtin symbols.size returnType body) (symbols.push scope)
          = .ok b middle) :
      Grown symbols.size (symbols.push scope) middle
        ∧ (∃ Γ, TypedBlock returnType (frame :: symbols.chain scope) b Γ)
        ∧ Stmt.mapAll Sight.offset b = body := by
    obtain ⟨_, defined, hdefined, hblock⟩ := bind_eq_ok_iff.mp hb
    obtain ⟨hgrown, hchain⟩ := hdefine hpushed (Arena.chain_push hordered hscope) hdefined
    have hsize : symbols.size + 1 = defined.size := by
      rw [hgrown.size_eq, Arena.size_push]
    have hkeyed' : Keyed (defined.chain symbols.size) := by
      rw [hchain]
      exact hframe _ hkeyed
    obtain ⟨hgrown', htyped, hmap⟩ := hbody (hgrown.ordered hpushed) hsize hkeyed' hblock
    rw [hchain] at htyped
    exact ⟨hgrown.trans hgrown', ⟨_, htyped⟩, hmap⟩
  -- Both only add to the new scope, so popping it gives back the symbols from before.
  obtain ⟨rfl, middle, hmiddle⟩ := withScope_eq_ok hroot (fun b m hb => (hsound hb).1) h
  exact ⟨rfl, (hsound hmiddle).2⟩

/-- A branch begins with an empty frame. -/
theorem BlockSound.withScope {returnType : Ty} {body : List (Stmt Offset)}
    (hbody : BlockSound returnType body) {scope : Nat} {symbols symbols' : Symbols}
    {body' : List (Stmt Sight)} (hordered : symbols.Ordered) (htop : scope + 1 = symbols.size)
    (hkeyed : Keyed (symbols.chain scope))
    (h : watched.withScope scope
      (fun inner => watched.checkAll .builtin inner returnType body) symbols
        = .ok body' symbols') :
    symbols' = symbols
      ∧ (∃ Γ, TypedBlock returnType (.empty :: symbols.chain scope) body' Γ)
      ∧ Stmt.mapAll Sight.offset body' = body := by
  have hnothing {inner : ScopeId} {Γ : Context} {pushed defined : Symbols}
      (_ : pushed.Ordered) (hchain : pushed.chain inner = .empty :: Γ)
      (hdone : (pure () : Check Unit) pushed = .ok () defined) :
      Grown inner pushed defined ∧ defined.chain inner = .empty :: Γ := by
    cases hdone
    exact ⟨.refl inner pushed, hchain⟩
  exact hbody.scoped hnothing (fun _ => keyed_cons_empty) hordered htop hkeyed h

/-- The body of a loop over a sequence begins with its variable. -/
theorem BlockSound.loopBody {returnType : Ty} {body : List (Stmt Offset)}
    (hbody : BlockSound returnType body) {scope : Nat} {name : String} {offset : Offset}
    {symbols symbols' : Symbols} {body' : List (Stmt Sight)} (hordered : symbols.Ordered)
    (htop : scope + 1 = symbols.size) (hkeyed : Keyed (symbols.chain scope))
    (h : watched.withScope scope (fun inner => do
        watched.defineVariable inner ⟨name, .integer, none⟩ (.alreadyDefined name) offset
        watched.checkAll .builtin inner returnType body) symbols = .ok body' symbols') :
    symbols' = symbols
      ∧ (∃ Γ, TypedBlock returnType
          (Frame.empty.setVariable name ⟨name, .integer, none⟩ :: symbols.chain scope) body' Γ)
      ∧ Stmt.mapAll Sight.offset body' = body := by
  refine hbody.scoped (fun hordered hchain hdefined => ?_)
    (fun _ hkeyed => keyed_cons_setVariable (keyed_cons_empty hkeyed)) hordered htop hkeyed h
  obtain ⟨frame, Γ, hbefore, -, hafter, hgrown⟩ := defineVariable_sound hordered hdefined
  rw [hchain] at hbefore
  cases hbefore
  exact ⟨hgrown, hafter⟩

/-- A statement binds variables at most, so functions stay bound by their own names
and arities. -/
theorem TypedStmt.keyed {returnType : Ty} {Γ Γ' : Context} {s : Stmt Sight}
    (h : TypedStmt returnType Γ s Γ') (hkeyed : Keyed Γ) : Keyed Γ' := by
  cases h with
  | declare => exact keyed_cons_setVariable hkeyed
  | _ => exact hkeyed

mutual

/-- A statement that the checker accepts in the scope on top turns the context
into that of the symbols it leaves. -/
theorem checkStmt_sound {scope : Nat} {returnType : Ty} {symbols symbols' : Symbols}
    (s : Stmt Offset) {s' : Stmt Sight} (hordered : symbols.Ordered)
    (htop : scope + 1 = symbols.size) (hkeyed : Keyed (symbols.chain scope))
    (hknown : KnownOperators s.exprs)
    (h : watched.checkStmt .builtin scope returnType s symbols = .ok s' symbols') :
    Grown scope symbols symbols'
      ∧ TypedStmt returnType (symbols.chain scope) s' (symbols'.chain scope)
      ∧ s'.map Sight.offset = s := by
  unfold Checker.checkStmt at h
  obtain ⟨sight, _, hlook, hbody⟩ := bind_eq_ok_iff.mp h
  clear h
  cases hlook
  cases s with
  | expression m value =>
      dsimp only at hbody
      split at hbody
      · next hkind =>
          obtain ⟨⟨type, value'⟩, _, hvalue, hdone⟩ := bind_eq_ok_iff.mp hbody
          clear hbody
          obtain ⟨rfl, htyped, rfl⟩ := infer_sound value hkeyed hknown hvalue
          cases hdone
          rw [Expr.kind_map] at hkind
          exact ⟨.refl scope _, .expression ⟨rfl, rfl, rfl⟩ hkind htyped, rfl⟩
      · cases hbody
  | declare m d =>
      obtain ⟨⟨symbol, d'⟩, _, hdeclare, hdone⟩ := bind_eq_ok_iff.mp hbody
      clear hbody
      obtain ⟨frame, Γ, hchain, hnew, hchain', hgrown, hname, htyped, rfl⟩ :=
        declare_sound hordered hkeyed hknown hdeclare
      cases hdone
      refine ⟨hgrown, ?_, rfl⟩
      rw [hchain] at htyped ⊢
      rw [hchain']
      exact .declare ⟨hchain, rfl, rfl⟩ hname hnew htyped
  | assign m target value =>
      dsimp only at hbody
      split at hbody
      · next hkind =>
          obtain ⟨⟨targetType, target'⟩, _, htarget, hmore⟩ := bind_eq_ok_iff.mp hbody
          obtain ⟨value', _, hvalue, hdone⟩ := bind_eq_ok_iff.mp hmore
          clear hbody hmore
          obtain ⟨rfl, htyped, rfl⟩ :=
            infer_sound target hkeyed (knownOperators_append.mp hknown).1 htarget
          obtain ⟨rfl, hfits, rfl⟩ :=
            inferAs_sound hkeyed (knownOperators_append.mp hknown).2 hvalue
          cases hdone
          rw [Expr.kind_map] at hkind
          -- Of all expressions only names and fields may stand on the left, and there are
          -- no fields.
          cases htyped with
          | var hm hsymbol =>
              exact ⟨.refl scope _, .assign ⟨rfl, rfl, rfl⟩ (.var hm hsymbol) hfits, rfl⟩
          | _ => cases hkind
      · cases hbody
  | cond m condition thenBody elseBody =>
      obtain ⟨hcondition, hbodies⟩ := knownOperators_append.mp hknown
      obtain ⟨hthen, helse⟩ := knownOperators_append.mp hbodies
      obtain ⟨condition', _, hvalue, hmore⟩ := bind_eq_ok_iff.mp hbody
      clear hbody
      obtain ⟨rfl, htyped, rfl⟩ := inferAs_sound hkeyed hcondition hvalue
      split at hmore
      · cases hmore
      · next hempty =>
          obtain ⟨thenBody', _, hthenBody, hrest⟩ := bind_eq_ok_iff.mp hmore
          clear hmore
          obtain ⟨rfl, ⟨Γthen, htypedThen⟩, rfl⟩ := BlockSound.withScope
            (checkAll_sound returnType thenBody hthen) hordered htop hkeyed hthenBody
          -- The rule is about the annotated branch, the check about the branch that was read.
          have hnonempty : thenBody' ≠ [] := by
            rintro rfl
            exact hempty rfl
          split at hrest
          · next hnone =>
              rw [pure_bind] at hrest
              cases hrest
              obtain rfl : elseBody = [] := by simpa using hnone
              exact ⟨.refl scope _,
                .cond ⟨rfl, rfl, rfl⟩ htyped hnonempty htypedThen .nil, rfl⟩
          · obtain ⟨elseBody', _, helseBody, hdone⟩ := bind_eq_ok_iff.mp hrest
            clear hrest
            obtain ⟨rfl, ⟨Γelse, htypedElse⟩, rfl⟩ := BlockSound.withScope
              (checkAll_sound returnType elseBody helse) hordered htop hkeyed helseBody
            cases hdone
            exact ⟨.refl scope _,
              .cond ⟨rfl, rfl, rfl⟩ htyped hnonempty htypedThen htypedElse, rfl⟩
  | forIn m name value body =>
      obtain ⟨hvalueKnown, hbodyKnown⟩ := knownOperators_append.mp hknown
      dsimp only at hbody
      split at hbody
      · cases hbody
      · next hempty =>
          obtain ⟨value', _, hvalue, hmore⟩ := bind_eq_ok_iff.mp hbody
          obtain ⟨body', _, hblock, hdone⟩ := bind_eq_ok_iff.mp hmore
          clear hbody hmore
          obtain ⟨rfl, htyped, rfl⟩ := inferAs_sound hkeyed hvalueKnown hvalue
          obtain ⟨rfl, ⟨Γ, htypedBody⟩, rfl⟩ := BlockSound.loopBody
            (checkAll_sound returnType body hbodyKnown) hordered htop hkeyed hblock
          have hnonempty : body' ≠ [] := by
            rintro rfl
            exact hempty rfl
          cases hdone
          exact ⟨.refl scope _, .forIn ⟨rfl, rfl, rfl⟩ htyped hnonempty htypedBody, rfl⟩
  | whileDo m condition body =>
      obtain ⟨hcondition, hbodyKnown⟩ := knownOperators_append.mp hknown
      obtain ⟨condition', _, hvalue, hmore⟩ := bind_eq_ok_iff.mp hbody
      obtain ⟨body', _, hblock, hdone⟩ := bind_eq_ok_iff.mp hmore
      clear hbody hmore
      obtain ⟨rfl, htyped, rfl⟩ := inferAs_sound hkeyed hcondition hvalue
      obtain ⟨rfl, ⟨Γ, htypedBody⟩, rfl⟩ := BlockSound.withScope
        (checkAll_sound returnType body hbodyKnown) hordered htop hkeyed hblock
      cases hdone
      exact ⟨.refl scope _, .whileDo ⟨rfl, rfl, rfl⟩ htyped htypedBody, rfl⟩
  | result m value =>
      obtain ⟨value', _, hvalue, hdone⟩ := bind_eq_ok_iff.mp hbody
      clear hbody
      obtain ⟨rfl, htyped, rfl⟩ := inferAs_sound hkeyed hknown hvalue
      cases hdone
      exact ⟨.refl scope _, .result ⟨rfl, rfl, rfl⟩ htyped, rfl⟩
  | foreign m kind written =>
      cases hbody
      exact ⟨.refl scope _, .foreign ⟨rfl, rfl, rfl⟩, rfl⟩

/-- And so do the statements of a block. -/
theorem checkAll_sound (returnType : Ty) (body : List (Stmt Offset))
    (hknown : KnownOperators (Stmt.exprsAll body)) : BlockSound returnType body := by
  intro scope symbols symbols' body' hordered htop hkeyed h
  cases body with
  | nil =>
      unfold Checker.checkAll at h
      cases h
      exact ⟨.refl scope _, .nil, rfl⟩
  | cons s rest =>
      unfold Checker.checkAll at h
      obtain ⟨s', _, hs, hmore⟩ := bind_eq_ok_iff.mp h
      obtain ⟨rest', _, hrest, hdone⟩ := bind_eq_ok_iff.mp hmore
      clear h hmore
      obtain ⟨hsKnown, hrestKnown⟩ := knownOperators_append.mp hknown
      obtain ⟨hgrown, htyped, rfl⟩ := checkStmt_sound s hordered htop hkeyed hsKnown hs
      obtain ⟨hgrownRest, htypedRest, rfl⟩ := checkAll_sound returnType rest hrestKnown
        (hgrown.ordered hordered) (by rw [hgrown.size_eq]; exact htop)
        (htyped.keyed hkeyed) hrest
      cases hdone
      exact ⟨hgrown.trans hgrownRest, .cons htyped htypedRest, rfl⟩

end

end Proofs

end PlcLang
