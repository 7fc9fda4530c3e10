import PlcLang.Proofs.Grammar.Agreement
import PlcLang.Proofs.Grammar.Parts
import PlcLang.Proofs.Typing.Soundness

/-!
# `PlcLang.Proofs.Typing.Acceptance`: accepted programs are typed

A program that was read from a text and that the checker accepts is typed below
what was declared before (`program_sound`). The checker goes over it three
times: over the fields, over the headers of the methods, and over their bodies.
All of it happens at the program's scope, which is the only one there is in between.
-/

set_option autoImplicit false

namespace PlcLang

/-- What a text can say: its operators are those of the language, and each
parameter has a type. -/
structure Program.Spoken {α : Type} (program : Program α) : Prop where
  operators : ∀ e ∈ program.exprs, e.hasKnownOperator = true
  parameters : ∀ method ∈ program.methods,
    method.parameters.length = method.parameterTypes.length

/-- How a text is read: it is no list of tokens, or the tokens are no program, or they are. -/
theorem readProgram_cases (text : String) :
    (∃ e, tokenize text = .error e ∧ readProgram text = .error (.lexical e))
      ∨ (∃ tokens e, tokenize text = .ok tokens ∧ parse tokens = .error e
        ∧ readProgram text = .error (.grammar e))
      ∨ ∃ tokens program, tokenize text = .ok tokens ∧ parse tokens = .ok program
        ∧ readProgram text = .ok program := by
  cases hlex : tokenize text with
  | error e =>
      exact .inl ⟨e, rfl, readProgram_eq_lexical hlex⟩
  | ok tokens =>
      cases hparse : parse tokens with
      | error e => exact .inr (.inl ⟨tokens, e, rfl, hparse, readProgram_eq_error hlex hparse⟩)
      | ok program =>
          exact .inr (.inr ⟨tokens, program, rfl, hparse, readProgram_eq_ok hlex hparse⟩)

/-- A text that is a program has been cut into tokens and parsed. -/
theorem exists_tokens {text : String} {program : Program Offset}
    (h : readProgram text = .ok program) :
    ∃ tokens, tokenize text = .ok tokens ∧ parse tokens = .ok program := by
  rcases readProgram_cases text with
    ⟨e, -, he⟩ | ⟨_, e, -, -, he⟩ | ⟨tokens, found, hlex, hparse, hok⟩
  · rw [he] at h
    cases h
  · rw [he] at h
    cases h
  · rw [hok] at h
    obtain rfl := Except.ok.inj h
    exact ⟨tokens, hlex, hparse⟩

namespace Proofs

open Checker

/-! ### Programs that were read -/

/-- What the grammar derives is an operator of the language, or none. -/
theorem DerivesExpr.known {level : Level} {tokens : List Token} {e : Expr Unit} :
    DerivesExpr level tokens e → e.hasKnownOperator = true
  | .binary _ hop _ => by simp [Expr.hasKnownOperator, hop.precedence]
  | .simple h | .operand h => h.known
  | .field .. | .methodCall .. | .nil _ | .boolean _ | .integer .. | .decimal ..
  | .character .. | .string .. | .var _ | .call .. | .group .. => rfl

/-- What tokens derive is what a text can say. -/
theorem Derives.spoken {tokens : List Token} {program : Program Unit}
    (h : Derives tokens program) : program.Spoken := by
  constructor
  · intro e he
    obtain ⟨level, part, hpart⟩ := h.written e he
    exact hpart.known
  · cases h with
    | mk _ hmethods =>
        intro method hmethod
        obtain ⟨part, hpart, -⟩ := hmethods.exists_part method hmethod
        cases hpart with
        | mk => simp

/-- The tree of a program that was read, without its marks, is derived from the tokens of the
text. -/
theorem exists_derives_of_readProgram {text : String} {program : Program Offset}
    (h : readProgram text = .ok program) : ∃ tokens, Derives tokens program.bare := by
  obtain ⟨tokens, hlex, hparse⟩ := exists_tokens h
  exact ⟨tokens, ((parse_eq_ok_iff_readable (tokenClass_of_tokenize hlex)).mp
    ⟨program, hparse, rfl⟩).2⟩

/-- Every expression of a program that was read is derived from some tokens. -/
theorem written_of_readProgram {text : String} {program : Program Offset}
    (h : readProgram text = .ok program) {e : Expr Offset} (he : e ∈ program.exprs) :
    Written e.bare := by
  obtain ⟨tokens, hderives⟩ := exists_derives_of_readProgram h
  refine hderives.written e.bare ?_
  rw [Program.bare, Program.exprs_map]
  exact List.mem_map_of_mem he

/-- A program that was read is what a text can say. -/
theorem spoken_of_readProgram {text : String} {program : Program Offset}
    (h : readProgram text = .ok program) : program.Spoken := by
  obtain ⟨tokens, hderives⟩ := exists_derives_of_readProgram h
  constructor
  · intro e he
    obtain ⟨level, part, hpart⟩ := written_of_readProgram h he
    have hknown := hpart.known
    cases e <;> exact hknown
  · intro method hmethod
    exact hderives.spoken.parameters method.bare (List.mem_map_of_mem hmethod)

/-! ### Fields -/

/-- The program's scope is the only one, and it binds this frame. -/
structure AtRoot (frame : Frame VariableSymbol FunctionSymbol) (symbols : Symbols) : Prop where
  ordered : symbols.Ordered
  size : symbols.size = 1
  chain : symbols.chain Arena.root = [frame]

/-- A check that leaves the scopes below as they are leaves the program's scope the
only one. What it binds by then has to be known besides. -/
theorem AtRoot.grown {frame frame' : Frame VariableSymbol FunctionSymbol}
    {symbols symbols' : Symbols} (h : AtRoot frame symbols)
    (hgrown : Grown Arena.root symbols symbols') (hchain : symbols'.chain Arena.root = [frame']) :
    AtRoot frame' symbols' :=
  ⟨hgrown.ordered h.ordered, hgrown.size_eq.trans h.size, hchain⟩

/-- A field that is accepted is declared as the rules have it in the program's scope
so far, is new there, and is bound there afterwards. Its value has been checked
before it is bound, so it cannot use itself. -/
theorem checkField_sound {frame : Frame VariableSymbol FunctionSymbol}
    {symbols symbols' : Symbols} {field : Field Offset} {field' : Field Sight}
    (hroot : AtRoot frame symbols) (hkeyed : Keyed [frame]) (hknown : KnownOperators field.exprs)
    (h : watched.checkField .builtin field symbols = .ok field' symbols') :
    ∃ symbol, Noted [frame] none (some (.variable symbol)) field'.mark
      ∧ symbol.name = field'.declaration.name
      ∧ frame.variableTable.contains symbol.name = false
      ∧ TypedDeclaration [frame] field'.declaration symbol.type
      ∧ AtRoot (frame.setVariable symbol.name symbol) symbols'
      ∧ field'.map Sight.offset = field := by
  unfold Checker.checkField at h
  rw [marking_root] at h
  obtain ⟨sight, _, hlook, hbody⟩ := bind_eq_ok_iff.mp h
  cases hlook
  obtain ⟨⟨symbol, d⟩, _, hdeclare, hdone⟩ := bind_eq_ok_iff.mp hbody
  clear h hbody
  obtain ⟨first, Γ, hchain, hnew, hchain', hgrown, hname, htyped, hmap⟩ :=
    declare_sound hroot.ordered (hroot.chain ▸ hkeyed) hknown hdeclare
  rw [hroot.chain] at hchain htyped
  cases hchain
  cases hdone
  refine ⟨symbol, ⟨hroot.chain, rfl, rfl⟩, hname, hnew, htyped, hroot.grown hgrown hchain', ?_⟩
  rw [Field.map, hmap]
  rfl

/-- The fields of an accepted program are typed one after the other. -/
theorem checkFields_sound {frame : Frame VariableSymbol FunctionSymbol}
    {symbols symbols' : Symbols} {fields : List (Field Offset)} {fields' : List (Field Sight)}
    (hroot : AtRoot frame symbols) (hkeyed : Keyed [frame])
    (hknown : KnownOperators (fields.flatMap Field.exprs))
    (h : fields.mapM (watched.checkField .builtin) symbols = .ok fields' symbols') :
    ∃ frame', TypedFields frame fields' frame' ∧ AtRoot frame' symbols' ∧ Keyed [frame']
      ∧ fields'.map (·.map Sight.offset) = fields := by
  induction fields generalizing frame symbols fields' with
  | nil =>
      rw [List.mapM_nil] at h
      cases h
      exact ⟨frame, .nil, hroot, hkeyed, rfl⟩
  | cons field rest ih =>
      rw [List.mapM_cons] at h
      obtain ⟨field', _, hfield, hmore⟩ := bind_eq_ok_iff.mp h
      obtain ⟨rest', _, hrest, hdone⟩ := bind_eq_ok_iff.mp hmore
      clear h hmore
      cases hdone
      obtain ⟨hfieldKnown, hrestKnown⟩ := knownOperators_append.mp hknown
      obtain ⟨symbol, hnoted, hname, hnew, htyped, hroot', hmap⟩ :=
        checkField_sound hroot hkeyed hfieldKnown hfield
      obtain ⟨frame', htypedRest, hrootRest, hkeyedRest, hmapRest⟩ :=
        ih hroot' (keyed_cons_setVariable hkeyed) hrestKnown hrest
      exact ⟨frame', .cons hnoted hname hnew htyped htypedRest, hrootRest, hkeyedRest,
        by rw [List.map_cons, hmap, hmapRest]⟩

/-! ### Methods -/

/-- A function that is bound by its own name and arity leaves all functions bound
so. -/
theorem keyed_cons_setFunction {Γ : Context} {frame : Frame VariableSymbol FunctionSymbol}
    {symbol : FunctionSymbol} (h : Keyed (frame :: Γ)) :
    Keyed (frame.setFunction symbol.key symbol :: Γ) := by
  intro other hother key found hfound
  rcases List.mem_cons.mp hother with rfl | hother
  · rw [Frame.setFunction, Bindings.get?_set] at hfound
    split at hfound
    · next heq =>
        obtain rfl : symbol = found := by simpa using hfound
        exact (beq_iff_eq.mp heq).symm
    · exact h frame (by simp) key found hfound
  · exact h other (by simp [hother]) key found hfound

/-- Defining a function puts it into the program's frame. -/
theorem defineFunction_sound {μ : Type} {look : ScopeId → Check (Note → μ)}
    {frame : Frame VariableSymbol FunctionSymbol} {symbol : FunctionSymbol} {offset : Offset}
    {symbols symbols' : Symbols} {u : Unit}
    (hroot : AtRoot frame symbols)
    (h : (marking look).defineFunction symbol offset symbols = .ok u symbols') :
    frame.functionTable.contains symbol.key = false
      ∧ AtRoot (frame.setFunction symbol.key symbol) symbols' := by
  rw [marking_defineFunction_apply] at h
  unfold Arena.defineFunction Arena.define at h
  cases hscope : symbols.scope? Arena.root with
  | none => rw [hscope] at h; cases h
  | some s =>
      rw [hscope] at h
      dsimp only at h
      have hchain := Arena.chain_eq hroot.ordered hscope
      rw [hroot.chain] at hchain
      cases hexisting : s.functionTable.get? symbol.key with
      | some existing => rw [hexisting] at h; cases h
      | none =>
          rw [hexisting] at h
          cases h
          have hparent (s : Scope VariableSymbol FunctionSymbol) :
              (s.setFunction symbol.key symbol).parent = s.parent := rfl
          obtain ⟨rfl, -⟩ := List.cons.inj hchain
          constructor
          · show (s.functionTable.get? symbol.key).isSome = false
            rw [hexisting]
            rfl
          · refine hroot.grown ⟨_, hparent, rfl⟩ ?_
            rw [Arena.chain_modify hroot.ordered hparent hscope, hroot.chain]
            rfl

/-- Each name of a type has one type or is rejected, and the symbols are not changed
by the look-up. -/
theorem resolveTypes_length {names : List String} {offset : Offset} {types : List Ty}
    {symbols symbols' : Symbols}
    (h : names.mapM (fun name => resolveType .builtin name offset) symbols
      = .ok types symbols') :
    types.length = names.length ∧ symbols' = symbols := by
  induction names generalizing symbols types with
  | nil =>
      rw [List.mapM_nil] at h
      cases h
      exact ⟨rfl, rfl⟩
  | cons name rest ih =>
      rw [List.mapM_cons] at h
      obtain ⟨type, _, htype, hmore⟩ := bind_eq_ok_iff.mp h
      obtain ⟨rest', _, hrest, hdone⟩ := bind_eq_ok_iff.mp hmore
      cases hdone
      obtain ⟨-, rfl⟩ := resolveType_sound htype
      obtain ⟨hlength, rfl⟩ := ih hrest
      exact ⟨by rw [List.length_cons, List.length_cons, hlength], rfl⟩

/-- The header of an accepted method is bound by its name and arity. -/
theorem declareMethod_sound {μ : Type} {look : ScopeId → Check (Note → μ)}
    {frame : Frame VariableSymbol FunctionSymbol} {method : Method Offset}
    {symbol : FunctionSymbol} {symbols symbols' : Symbols}
    (hroot : AtRoot frame symbols)
    (hparameters : method.parameters.length = method.parameterTypes.length)
    (h : (marking look).declareMethod .builtin method symbols = .ok symbol symbols') :
    frame.functionTable.contains symbol.key = false
      ∧ AtRoot (frame.setFunction symbol.key symbol) symbols'
      ∧ symbol.key = (method.name, method.parameters.length)
      ∧ symbol.offset = some method.mark := by
  unfold Checker.declareMethod at h
  obtain ⟨parameters, middle, htypes, hmore⟩ := bind_eq_ok_iff.mp h
  clear h
  obtain ⟨hlength, rfl⟩ := resolveTypes_length htypes
  -- Whatever the result is, the function is defined in the end.
  have hdefine {result : Ty} {found : FunctionSymbol} {after : Symbols}
      (hdone : (do
        (marking look).defineFunction ⟨method.name, parameters, result, some method.mark⟩
          method.mark
        pure ⟨method.name, parameters, result, some method.mark⟩ : Check FunctionSymbol) middle
          = .ok found after) :
      frame.functionTable.contains found.key = false
        ∧ AtRoot (frame.setFunction found.key found) after
        ∧ found.key = (method.name, method.parameters.length)
        ∧ found.offset = some method.mark := by
    obtain ⟨_, _, hfunction, hpure⟩ := bind_eq_ok_iff.mp hdone
    cases hpure
    obtain ⟨hnew, hroot'⟩ := defineFunction_sound hroot hfunction
    exact ⟨hnew, hroot', by rw [hparameters, ← hlength]; rfl, rfl⟩
  cases hreturn : method.returnType with
  | none =>
      rw [hreturn] at hmore
      dsimp only at hmore
      rw [pure_bind] at hmore
      exact hdefine hmore
  | some name =>
      rw [hreturn] at hmore
      obtain ⟨result, _, hresult, hdone⟩ := bind_eq_ok_iff.mp hmore
      obtain ⟨-, rfl⟩ := resolveType_sound hresult
      exact hdefine hdone

/-- Defining the parameters of a method puts them into the nearest frame. -/
theorem defineParameters_sound {μ : Type} {look : ScopeId → Check (Note → μ)}
    {scope : ScopeId} {offset : Offset} {parameters : List (String × Ty)}
    {frame : Frame VariableSymbol FunctionSymbol} {Γ : Context}
    {symbols symbols' : Symbols} {u : Unit} (hordered : symbols.Ordered)
    (hchain : symbols.chain scope = frame :: Γ)
    (h : (marking look).defineParameters scope offset parameters symbols = .ok u symbols') :
    Grown scope symbols symbols'
      ∧ symbols'.chain scope = parameters.foldl
          (fun frame (name, type) => frame.setVariable name ⟨name, type, none⟩) frame :: Γ := by
  induction parameters generalizing frame symbols with
  | nil =>
      unfold Checker.defineParameters at h
      cases h
      exact ⟨.refl scope symbols', hchain⟩
  | cons parameter rest ih =>
      obtain ⟨name, type⟩ := parameter
      unfold Checker.defineParameters at h
      obtain ⟨_, _, hdefine, hrest⟩ := bind_eq_ok_iff.mp h
      obtain ⟨first, tail, hbefore, -, hafter, hgrown⟩ := defineVariable_sound hordered hdefine
      rw [hchain] at hbefore
      cases hbefore
      obtain ⟨hgrown', hchain'⟩ := ih (hgrown.ordered hordered) hafter hrest
      exact ⟨hgrown.trans hgrown', hchain'⟩

/-- Parameters are variables. The frame that they make has no functions to be bound
wrongly. -/
theorem keyed_parameterFrame {Γ : Context} (parameters : List (String × Ty)) (h : Keyed Γ) :
    Keyed (parameterFrame parameters :: Γ) := by
  have hfold (frame : Frame VariableSymbol FunctionSymbol) (hframe : Keyed (frame :: Γ)) :
      Keyed (parameters.foldl
        (fun frame (name, type) => frame.setVariable name ⟨name, type, none⟩) frame :: Γ) := by
    induction parameters generalizing frame with
    | nil => exact hframe
    | cons parameter rest ih => exact ih _ (keyed_cons_setVariable hframe)
  exact hfold .empty (keyed_cons_empty h)

/-- The body of an accepted method is typed below the program's frame. -/
theorem checkMethod_sound {frame : Frame VariableSymbol FunctionSymbol}
    {method : Method Offset} {method' : Method Sight} {symbol : FunctionSymbol}
    {symbols symbols' : Symbols} (hroot : AtRoot frame symbols) (hkeyed : Keyed [frame])
    (hknown : KnownOperators method.exprs)
    (harity : symbol.key = (method.name, method.parameters.length))
    (h : watched.checkMethod .builtin method symbol symbols = .ok method' symbols') :
    TypedMethod frame symbol method' ∧ symbols' = symbols
      ∧ method'.mark.offset = method.mark ∧ method'.map Sight.offset = method := by
  unfold Checker.checkMethod at h
  obtain ⟨sight, _, hlook, hmore⟩ := bind_eq_ok_iff.mp h
  cases hlook
  obtain ⟨body, _, hbody, hdone⟩ := bind_eq_ok_iff.mp hmore
  clear h hmore
  obtain ⟨rfl, ⟨Γ, htyped⟩, hmap⟩ :=
    BlockSound.scoped (checkAll_sound symbol.result method.body hknown)
      (fun hordered hchain hdefined => defineParameters_sound hordered hchain hdefined)
      (fun _ => keyed_parameterFrame _) hroot.ordered hroot.size.symm
      (hroot.chain ▸ hkeyed) hbody
  cases hdone
  have hchain : Arena.chain _ 0 = [frame] := hroot.chain
  rw [hchain] at htyped
  refine ⟨⟨⟨hroot.chain, rfl, rfl⟩, harity, Γ, htyped⟩, rfl, rfl, ?_⟩
  rw [Method.map, hmap]
  rfl

/-- What the checker makes of a method with a header. -/
structure CheckedAs (method' : Method Sight) (pair : Method Offset × FunctionSymbol) : Prop where
  symbol : method'.mark.note.symbol = some (.function pair.2)
  offset : method'.mark.offset = pair.1.mark
  tree : method'.map Sight.offset = pair.1

/-- The methods that have been checked are those that were read, with more in their
marks. -/
theorem map_offset_of_checkedAs {methods' : List (Method Sight)}
    {pairs : List (Method Offset × FunctionSymbol)} (h : List.Forall₂ CheckedAs methods' pairs) :
    methods'.map (·.map Sight.offset) = pairs.map (·.1) := by
  induction h with
  | nil => rfl
  | cons hfirst _ ih => rw [List.map_cons, List.map_cons, hfirst.tree, ih]

/-- Each method with a header has been checked against it. -/
theorem exists_of_checkedAs {methods' : List (Method Sight)}
    {pairs : List (Method Offset × FunctionSymbol)} {pair : Method Offset × FunctionSymbol}
    (h : List.Forall₂ CheckedAs methods' pairs) (hpair : pair ∈ pairs) :
    ∃ method' ∈ methods', CheckedAs method' pair := by
  induction h with
  | nil => simp at hpair
  | @cons method' _ rest _ hfirst _ ih =>
      rcases List.mem_cons.mp hpair with rfl | hpair
      · exact ⟨method', by simp, hfirst⟩
      · obtain ⟨other, hother, hchecked⟩ := ih hpair
        exact ⟨other, by simp [hother], hchecked⟩

/-- The headers of an accepted program are bound one after the other. -/
theorem declareMethods_sound {frame : Frame VariableSymbol FunctionSymbol}
    {methods : List (Method Offset)} {found : List FunctionSymbol} {symbols symbols' : Symbols}
    (hroot : AtRoot frame symbols) (hkeyed : Keyed [frame])
    (hparameters : ∀ method ∈ methods, method.parameters.length = method.parameterTypes.length)
    (h : methods.mapM (watched.declareMethod .builtin) symbols = .ok found symbols') :
    ∃ frame', AtRoot frame' symbols' ∧ Keyed [frame'] ∧ found.length = methods.length
      ∧ (∀ pair ∈ methods.zip found, pair.2.key = (pair.1.name, pair.1.parameters.length))
      ∧ ∀ methods' : List (Method Sight),
          List.Forall₂ CheckedAs methods' (methods.zip found) →
          TypedHeaders frame methods' frame' := by
  induction methods generalizing frame symbols found with
  | nil =>
      rw [List.mapM_nil] at h
      cases h
      refine ⟨frame, hroot, hkeyed, rfl, by simp, fun methods' hmethods' => ?_⟩
      cases hmethods'
      exact .nil
  | cons method rest ih =>
      rw [List.mapM_cons] at h
      obtain ⟨symbol, _, hmethod, hmore⟩ := bind_eq_ok_iff.mp h
      obtain ⟨more, _, hrest, hdone⟩ := bind_eq_ok_iff.mp hmore
      clear h hmore
      cases hdone
      obtain ⟨hlengths, hrestLengths⟩ := List.forall_mem_cons.mp hparameters
      -- The first header is new in the frame, and the others are bound after it.
      obtain ⟨hnew, hroot', harity, hoffset⟩ := declareMethod_sound hroot hlengths hmethod
      obtain ⟨frame', hrootRest, hkeyedRest, hlength, harities, hheaders⟩ :=
        ih hroot' (keyed_cons_setFunction hkeyed) hrestLengths hrest
      refine ⟨frame', hrootRest, hkeyedRest, by rw [List.length_cons, hlength, List.length_cons],
        ?_, fun methods' hmethods' => ?_⟩
      · rw [List.zip_cons_cons, List.forall_mem_cons]
        exact ⟨harity, harities⟩
      · rw [List.zip_cons_cons] at hmethods'
        cases hmethods' with
        | @cons method' _ tail _ hfirst htail =>
            have hname : method'.name = method.name := congrArg Method.name hfirst.tree
            have hparameters : method'.parameters = method.parameters :=
              congrArg Method.parameters hfirst.tree
            refine .cons hfirst.symbol ?_ hnew ?_ (hheaders tail htail)
            · rw [hname, hparameters, harity]
            · rw [hfirst.offset, hoffset]

/-- The bodies of an accepted program are typed below the program's frame. -/
theorem checkMethods_sound {frame : Frame VariableSymbol FunctionSymbol}
    {pairs : List (Method Offset × FunctionSymbol)} {methods' : List (Method Sight)}
    {symbols symbols' : Symbols} (hroot : AtRoot frame symbols) (hkeyed : Keyed [frame])
    (hknown : ∀ pair ∈ pairs, KnownOperators pair.1.exprs)
    (harity : ∀ pair ∈ pairs, pair.2.key = (pair.1.name, pair.1.parameters.length))
    (h : (pairs.mapM (fun (method, symbol) => watched.checkMethod .builtin method symbol) :
      Check (List (Method Sight))) symbols = .ok methods' symbols') :
    symbols' = symbols ∧ (∀ method' ∈ methods', ∃ symbol, TypedMethod frame symbol method')
      ∧ List.Forall₂ CheckedAs methods' pairs := by
  induction pairs generalizing symbols methods' with
  | nil =>
      rw [List.mapM_nil] at h
      cases h
      exact ⟨rfl, by simp, .nil⟩
  | cons pair rest ih =>
      obtain ⟨method, symbol⟩ := pair
      rw [List.mapM_cons] at h
      obtain ⟨method', _, hmethod, hmore⟩ := bind_eq_ok_iff.mp h
      obtain ⟨rest', _, hrest, hdone⟩ := bind_eq_ok_iff.mp hmore
      clear h hmore
      cases hdone
      obtain ⟨hfirstKnown, hrestKnown⟩ := List.forall_mem_cons.mp hknown
      obtain ⟨hfirstArity, hrestArity⟩ := List.forall_mem_cons.mp harity
      obtain ⟨htyped, rfl, hoffset, hmap⟩ :=
        checkMethod_sound hroot hkeyed hfirstKnown hfirstArity hmethod
      obtain ⟨rfl, htypedRest, hpairs⟩ := ih hroot hrestKnown hrestArity hrest
      refine ⟨rfl, List.forall_mem_cons.mpr ⟨⟨symbol, htyped⟩, htypedRest⟩, .cons ?_ hpairs⟩
      exact ⟨htyped.noted.symbol, hoffset, hmap⟩

/-- There is a method to start with. -/
theorem checkMain_sound {pairs : List (Method Offset × FunctionSymbol)}
    {symbols symbols' : Symbols} {u : Unit} (h : checkMain pairs symbols = .ok u symbols') :
    symbols' = symbols
      ∧ ∃ pair ∈ pairs, pair.1.name = "main" ∧ pair.1.parameters = []
        ∧ pair.2.result = .integer := by
  unfold checkMain at h
  cases hfind : pairs.find? fun (method, _) => isMain method with
  | none => rw [hfind] at h; cases h
  | some pair =>
      obtain ⟨method, symbol⟩ := pair
      rw [hfind] at h
      dsimp only at h
      split at h
      · next hresult =>
          cases h
          have hmain : isMain method = true := by simpa using List.find?_some hfind
          rw [isMain, Bool.and_eq_true, beq_iff_eq, List.isEmpty_iff] at hmain
          exact ⟨rfl, (method, symbol), List.mem_of_find?_eq_some hfind, hmain.1, hmain.2, hresult⟩
      · cases h

/-- What the checker accepts of what a text can say is typed below what was there
before. -/
theorem program_sound {frame : Frame VariableSymbol FunctionSymbol} {symbols symbols' : Symbols}
    {program : Program Offset} {seen : Program Sight} (hroot : AtRoot frame symbols)
    (hkeyed : Keyed [frame]) (hspoken : program.Spoken)
    (h : watched.program .builtin program symbols = .ok seen symbols') :
    (∃ between frame', TypedProgram frame between frame' seen)
      ∧ seen.map Sight.offset = program := by
  unfold Checker.program at h
  obtain ⟨fields, _, hfields, hmore⟩ := bind_eq_ok_iff.mp h
  obtain ⟨found, _, hheaders, hpaired⟩ := bind_eq_ok_iff.mp hmore
  rw [marking_before, pure_bind] at hpaired
  obtain ⟨methods, _, hmethods, hlast⟩ := bind_eq_ok_iff.mp hpaired
  obtain ⟨_, _, hmain, hdone⟩ := bind_eq_ok_iff.mp hlast
  clear h hmore hpaired hlast
  cases hdone
  -- What each part was checked in is what the part before has left.
  obtain ⟨hfieldsKnown, hmethodsKnown⟩ := knownOperators_append.mp hspoken.operators
  obtain ⟨between, htypedFields, hroot, hkeyed, hmapFields⟩ :=
    checkFields_sound hroot hkeyed hfieldsKnown hfields
  obtain ⟨frame', hroot, hkeyed, hlength, harities, htypedHeaders⟩ :=
    declareMethods_sound hroot hkeyed hspoken.parameters hheaders
  have hknown : ∀ pair ∈ program.methods.zip found, KnownOperators pair.1.exprs := by
    intro pair hpair e he
    exact hmethodsKnown e (List.mem_flatMap.mpr ⟨pair.1, List.of_mem_zip hpair |>.1, he⟩)
  obtain ⟨rfl, hbodies, hpairs⟩ := checkMethods_sound hroot hkeyed hknown harities hmethods
  obtain ⟨-, pair, hpair, hname, hparameters, hresult⟩ := checkMain_sound hmain
  have hmapMethods : methods.map (·.map Sight.offset) = program.methods := by
    rw [map_offset_of_checkedAs hpairs, List.map_fst_zip (Nat.le_of_eq hlength.symm)]
  obtain ⟨method, hmethod, hchecked⟩ := exists_of_checkedAs hpairs hpair
  refine ⟨⟨between, frame', htypedFields, htypedHeaders methods hpairs, hbodies, method, hmethod,
    pair.2, ?_, ?_, hchecked.symbol, hresult⟩, ?_⟩
  · rw [← hname, ← hchecked.tree]
    rfl
  · rw [← hparameters, ← hchecked.tree]
    rfl
  · rw [Program.map, hmapFields, hmapMethods]

end Proofs

end PlcLang
