import PlcLang.Proofs.Typing.Acceptance
import PlcLang.Proofs.Typing.Decision.Statements

/-!
# `PlcLang.Proofs.Typing.Decision.Programs`: programs are decided

The checker accepts a program that was read from a text if and only if the program
is derivable in the type system, and then it answers with the tree that the
derivation elaborates: `check_eq_ok_iff_elaborates`.

The checker goes over a program three times, and each time the program's scope is
the only one there is (`AtRoot`): fields and headers advance it, and the bodies
leave it as it is.
-/

set_option autoImplicit false

namespace PlcLang.Proofs

open Checker

/-! ### Fields -/

/-- A field advances the program's scope as the rules do: its declaration is
elaborated in the frame so far, its name is new there, and the frame that is left
binds it. -/
theorem checkField_advances {frame : Frame VariableSymbol FunctionSymbol} {symbols : Symbols}
    {field : Field Offset} (hroot : AtRoot frame symbols) (hkeyed : Keyed [frame])
    (hknown : KnownOperators field.exprs) :
    Advances Arena.root (plain.checkField .builtin field) symbols fun field' Γ =>
      ∃ type d', ElaboratesDeclaration [frame] field.declaration type d'
        ∧ frame.variableTable.get? field.declaration.name = none
        ∧ field' = ⟨⟨field.mark, none,
            some (.variable ⟨field.declaration.name, type, some field.mark⟩)⟩, d'⟩
        ∧ Γ = [frame.setVariable field.declaration.name
            ⟨field.declaration.name, type, some field.mark⟩] := by
  unfold Checker.checkField
  refine (declare_advances hroot.ordered hroot.chain hkeyed hknown).bind_pure.congr
    fun field' Γ => ⟨?_, ?_⟩
  · rintro ⟨⟨symbol, d'⟩, ⟨type, rfl, hd, hnew, rfl⟩, rfl⟩
    exact ⟨type, d', hd, hnew, rfl, rfl⟩
  · rintro ⟨type, d', hd, hnew, rfl, rfl⟩
    exact ⟨⟨_, d'⟩, ⟨type, rfl, hd, hnew, rfl⟩, rfl⟩

/-- The fields of a program are elaborated one after the other. -/
theorem checkFields_advances {frame : Frame VariableSymbol FunctionSymbol} {symbols : Symbols}
    {fields : List (Field Offset)} (hroot : AtRoot frame symbols) (hkeyed : Keyed [frame])
    (hknown : KnownOperators (fields.flatMap Field.exprs)) :
    Advances Arena.root (fields.mapM (plain.checkField .builtin)) symbols fun fields' Γ =>
      ∃ frame', ElaboratesFields frame fields fields' frame' ∧ Γ = [frame'] := by
  induction fields generalizing frame symbols with
  | nil =>
      rw [List.mapM_nil]
      refine (Decides.pure _).advances.congr fun fields' Γ => ⟨?_, ?_⟩
      · rintro ⟨rfl, rfl⟩
        exact ⟨frame, .nil, hroot.chain⟩
      · rintro ⟨_, ⟨⟩, rfl⟩
        exact ⟨rfl, hroot.chain.symm⟩
  | cons field rest ih =>
      obtain ⟨hfield, hrest⟩ := knownOperators_append.mp hknown
      rw [List.mapM_cons]
      refine ((checkField_advances hroot hkeyed hfield).bind
        (R := fun field' Γ fields' Γ' => ∃ rest', (∃ between frame', Γ = [between]
            ∧ ElaboratesFields between rest rest' frame' ∧ Γ' = [frame'])
          ∧ fields' = field' :: rest') fun field' symbols' hgrown hfield' => ?_).congr
        fun fields' Γ' => ⟨?_, ?_⟩
      -- The frame grows with each field, and the next one sees all that are before it.
      · obtain ⟨type, d', -, -, -, hchain⟩ := hfield'
        have hfields := ih (hroot.grown hgrown hchain) (keyed_cons_setVariable hkeyed) hrest
        refine hfields.bind_pure.congr fun fields' Γ' => ?_
        rw [hchain]
        simp
      · rintro ⟨_, _, ⟨type, d', hd, hnew, rfl, rfl⟩, rest', ⟨between, frame', hbetween, hrest,
          rfl⟩, rfl⟩
        cases hbetween
        exact ⟨frame', .cons hnew hd hrest, rfl⟩
      · rintro ⟨frame', helaborates, rfl⟩
        cases helaborates with
        | cons hnew hd hrest =>
            exact ⟨_, _, ⟨_, _, hd, hnew, rfl, rfl⟩, _, ⟨_, frame', rfl, hrest, rfl⟩, rfl⟩

/-- Fields bind no functions. -/
theorem ElaboratesFields.keyed {frame frame' : Frame VariableSymbol FunctionSymbol}
    {fields : List (Field Offset)} {fields' : List (Field Note)}
    (h : ElaboratesFields frame fields fields' frame') (hkeyed : Keyed [frame]) :
    Keyed [frame'] := by
  induction h with
  | nil => exact hkeyed
  | cons _ _ _ ih => exact ih (keyed_cons_setVariable hkeyed)

/-! ### Headers -/

/-- A function is defined in the program's frame if no other has its name and arity. -/
theorem defineFunction_advances {frame : Frame VariableSymbol FunctionSymbol}
    {symbol : FunctionSymbol} {offset : Offset} {symbols : Symbols}
    (hroot : AtRoot frame symbols) :
    Advances Arena.root (plain.defineFunction symbol offset) symbols fun _ Γ =>
      frame.functionTable.get? symbol.key = none ∧ Γ = [frame.setFunction symbol.key symbol] := by
  obtain ⟨s, hscope⟩ := Arena.exists_scope?_of_chain_eq_cons hroot.chain
  have hframe := Arena.chain_eq hroot.ordered hscope
  rw [hroot.chain] at hframe
  obtain ⟨rfl, -⟩ := List.cons.inj hframe
  have hchain := Arena.chain_bindFunction hroot.ordered hroot.chain symbol.key symbol
  have hparent (s : Scope VariableSymbol FunctionSymbol) :
      (s.setFunction symbol.key symbol).parent = s.parent := rfl
  constructor
  · intro _ symbols' hx
    rw [marking_defineFunction_apply] at hx
    unfold Arena.defineFunction Arena.define at hx
    rw [hscope] at hx
    dsimp only at hx
    cases hexisting : s.functionTable.get? symbol.key with
    | some existing => rw [hexisting] at hx; cases hx
    | none =>
        rw [hexisting] at hx
        cases hx
        exact ⟨⟨_, hparent, rfl⟩, hexisting, hchain⟩
  · rintro _ _ ⟨hnew, rfl⟩
    have hnew' : s.functionTable.get? symbol.key = none := hnew
    refine ⟨symbols.bindFunction Arena.root symbol.key symbol, ?_, hchain⟩
    simp only [marking_defineFunction_apply, Arena.defineFunction, Arena.define, hscope, hnew']
    rfl

/-- The types of a header are found one after the other, and the function is defined in the end. -/
theorem declareMethod_eq (types : TypeTable) (method : Method Offset) :
    plain.declareMethod types method = (do
      let parameters ← method.parameterTypes.mapM fun name => resolveType types name method.mark
      let result ← method.returnType.elim (pure .nil) fun name =>
        resolveType types name method.mark
      plain.defineFunction ⟨method.name, parameters, result, some method.mark⟩ method.mark
      pure ⟨method.name, parameters, result, some method.mark⟩) := by
  unfold Checker.declareMethod
  cases method.returnType <;> rfl

/-- A result without a type is `Nil`, and one with a name has the type of this name. -/
theorem resultType_decides {word : Option String} {offset : Offset} {symbols : Symbols} :
    Decides (word.elim (pure .nil) fun name => resolveType .builtin name offset) symbols
      (NamesResult word) := by
  cases word with
  | none =>
      refine (Decides.pure Ty.nil).congr fun type => ⟨?_, ?_⟩
      · rintro rfl
        exact .absent
      · rintro ⟨⟩
        rfl
  | some name =>
      refine resolveType_decides.congr fun type => ⟨.present, ?_⟩
      rintro ⟨⟩
      assumption

/-- The header of a method defines the function that its words name. -/
theorem declareMethod_advances {frame : Frame VariableSymbol FunctionSymbol}
    {method : Method Offset} {symbols : Symbols} (hroot : AtRoot frame symbols) :
    Advances Arena.root (plain.declareMethod .builtin method) symbols fun symbol Γ =>
      Heads method symbol ∧ frame.functionTable.get? symbol.key = none
        ∧ Γ = [frame.setFunction symbol.key symbol] := by
  have htypes : Decides
      (method.parameterTypes.mapM fun name => resolveType .builtin name method.mark) symbols
      (List.Forall₂ Names method.parameterTypes) :=
    .mapM fun name _ => resolveType_decides
  have hdefine (parameters : List Ty) (result : Ty) :
      Advances Arena.root (do
        plain.defineFunction ⟨method.name, parameters, result, some method.mark⟩ method.mark
        pure ⟨method.name, parameters, result, some method.mark⟩ : Check FunctionSymbol) symbols
        fun symbol Γ => symbol = ⟨method.name, parameters, result, some method.mark⟩
          ∧ frame.functionTable.get? symbol.key = none
          ∧ Γ = [frame.setFunction symbol.key symbol] := by
    refine (defineFunction_advances hroot).bind_pure.congr fun symbol Γ => ⟨?_, ?_⟩
    · rintro ⟨_, ⟨hnew, hΓ⟩, rfl⟩
      exact ⟨rfl, hnew, hΓ⟩
    · rintro ⟨rfl, hnew, hΓ⟩
      exact ⟨(), ⟨hnew, hΓ⟩, rfl⟩
  rw [declareMethod_eq]
  refine (htypes.bind_advances fun parameters _ =>
    resultType_decides.bind_advances fun result _ => hdefine parameters result).congr
    fun symbol Γ => ⟨?_, ?_⟩
  · rintro ⟨parameters, hparameters, result, hresult, rfl, hnew, hΓ⟩
    exact ⟨⟨rfl, hparameters, hresult, rfl⟩, hnew, hΓ⟩
  · obtain ⟨name, parameters, result, offset⟩ := symbol
    rintro ⟨⟨rfl, hparameters, hresult, rfl⟩, hnew, hΓ⟩
    exact ⟨parameters, hparameters, result, hresult, rfl, hnew, hΓ⟩

/-- The headers of a program are bound one after the other. -/
theorem declareMethods_advances {frame : Frame VariableSymbol FunctionSymbol}
    (methods : List (Method Offset)) {symbols : Symbols} (hroot : AtRoot frame symbols) :
    Advances Arena.root (methods.mapM (plain.declareMethod .builtin)) symbols fun found Γ =>
      ∃ frame', ElaboratesHeaders frame methods found frame' ∧ Γ = [frame'] := by
  induction methods generalizing frame symbols with
  | nil =>
      rw [List.mapM_nil]
      refine (Decides.pure _).advances.congr fun found Γ => ⟨?_, ?_⟩
      · rintro ⟨rfl, rfl⟩
        exact ⟨frame, .nil, hroot.chain⟩
      · rintro ⟨_, ⟨⟩, rfl⟩
        exact ⟨rfl, hroot.chain.symm⟩
  | cons method rest ih =>
      rw [List.mapM_cons]
      refine ((declareMethod_advances hroot).bind
        (R := fun symbol Γ found Γ' => ∃ more, (∃ between frame', Γ = [between]
            ∧ ElaboratesHeaders between rest more frame' ∧ Γ' = [frame'])
          ∧ found = symbol :: more) fun symbol symbols' hgrown hsymbol => ?_).congr
        fun found Γ' => ⟨?_, ?_⟩
      · obtain ⟨-, -, hchain⟩ := hsymbol
        refine (ih (hroot.grown hgrown hchain)).bind_pure.congr fun found Γ' => ?_
        rw [hchain]
        simp
      · rintro ⟨symbol, _, ⟨hmethod, hnew, rfl⟩, more, ⟨between, frame', hbetween, hmore, rfl⟩,
          rfl⟩
        cases hbetween
        exact ⟨frame', .cons hmethod hnew hmore, rfl⟩
      · rintro ⟨frame', helaborates, rfl⟩
        cases helaborates with
        | cons hmethod hnew hrest =>
            exact ⟨_, _, ⟨hmethod, hnew, rfl⟩, _, ⟨_, frame', rfl, hrest, rfl⟩, rfl⟩

namespace ElaboratesHeaders

variable {frame frame' : Frame VariableSymbol FunctionSymbol} {methods : List (Method Offset)}
  {symbols : List FunctionSymbol}

/-- Headers bind functions by their own names and arities. -/
theorem keyed (h : ElaboratesHeaders frame methods symbols frame') (hkeyed : Keyed [frame]) :
    Keyed [frame'] := by
  induction h with
  | nil => exact hkeyed
  | cons _ _ _ ih => exact ih (keyed_cons_setFunction hkeyed)

/-- Each symbol heads the method that it was made from: it has its name, its
parameters' types and its result's. -/
theorem heads (h : ElaboratesHeaders frame methods symbols frame') :
    ∀ pair ∈ methods.zip symbols, Heads pair.1 pair.2 := by
  induction h with
  | nil => simp
  | cons hmethod _ _ ih => exact List.forall_mem_cons.mpr ⟨hmethod, ih⟩

/-- What is bound stays bound, so no header is bound again. -/
theorem keys_new (h : ElaboratesHeaders frame methods symbols frame') :
    (symbols.map FunctionSymbol.key).Nodup
      ∧ ∀ symbol ∈ symbols, frame.functionTable.get? symbol.key = none := by
  induction h with
  | nil => simp
  | @cons frame _ _ symbol _ symbols _ hnew _ ih =>
      obtain ⟨hdistinct, hrest⟩ := ih
      have hother (other : FunctionSymbol) (hmem : other ∈ symbols) :
          other.key ≠ symbol.key ∧ frame.functionTable.get? other.key = none := by
        have hfree := hrest other hmem
        rw [Frame.setFunction, Bindings.get?_set] at hfree
        split at hfree
        · cases hfree
        · next hne => exact ⟨by simpa using hne, hfree⟩
      refine ⟨List.nodup_cons.mpr ⟨?_, hdistinct⟩,
        List.forall_mem_cons.mpr ⟨hnew, fun other hmem => (hother other hmem).2⟩⟩
      intro hmem
      obtain ⟨other, hmem, hkey⟩ := List.mem_map.mp hmem
      exact (hother other hmem).1 hkey

end ElaboratesHeaders

/-! ### Bodies -/

/-- A name is free after another has been bound if it was free before and is not
that other one. -/
theorem get?_setVariable_eq_none {frame : Frame VariableSymbol FunctionSymbol}
    {name other : String} {symbol : VariableSymbol} :
    (frame.setVariable name symbol).variableTable.get? other = none
      ↔ ¬ other = name ∧ frame.variableTable.get? other = none := by
  rw [Frame.setVariable, Bindings.get?_set]
  by_cases h : other = name <;> simp [h]

/-- The parameters of a method are defined if their names are distinct and new. -/
theorem defineParameters_advances {scope : ScopeId} {offset : Offset}
    {parameters : List (String × Ty)} {frame : Frame VariableSymbol FunctionSymbol}
    {Γ : Context} {symbols : Symbols} (hordered : symbols.Ordered)
    (hchain : symbols.chain scope = frame :: Γ) :
    Advances scope (plain.defineParameters scope offset parameters) symbols fun _ Γ' =>
      ((parameters.map Prod.fst).Nodup
          ∧ ∀ parameter ∈ parameters, frame.variableTable.get? parameter.1 = none)
        ∧ Γ' = parameters.foldl
          (fun frame (name, type) => frame.setVariable name ⟨name, type, none⟩) frame :: Γ := by
  induction parameters generalizing frame symbols with
  | nil =>
      unfold Checker.defineParameters
      exact (Decides.pure ()).advances.congr fun _ _ => by simp [hchain]
  | cons parameter rest ih =>
      obtain ⟨name, type⟩ := parameter
      unfold Checker.defineParameters
      have hdefine : Advances scope
          (plain.defineVariable scope ⟨name, type, none⟩ (.duplicateParameter name) offset) symbols
          fun _ Γ' => frame.variableTable.get? name = none
            ∧ Γ' = frame.setVariable name ⟨name, type, none⟩ :: Γ :=
        defineVariable_advances hordered hchain
      -- What is new beside the first parameter has another name than it.
      have hnew : (∀ parameter ∈ rest,
          (frame.setVariable name ⟨name, type, none⟩).variableTable.get? parameter.1 = none)
            ↔ name ∉ rest.map Prod.fst
              ∧ ∀ parameter ∈ rest, frame.variableTable.get? parameter.1 = none := by
        simp only [get?_setVariable_eq_none, List.mem_map, not_exists, not_and, forall_and]
      refine (hdefine.bind (R := fun _ Γ _ Γ' => ((rest.map Prod.fst).Nodup
          ∧ ∀ parameter ∈ rest,
            (frame.setVariable name ⟨name, type, none⟩).variableTable.get? parameter.1 = none)
        ∧ Γ' = rest.foldl (fun frame (name, type) => frame.setVariable name ⟨name, type, none⟩)
            (frame.setVariable name ⟨name, type, none⟩) :: Γ.tail)
        fun _ symbols' hgrown hdefined => ?_).congr fun _ Γ' => ?_
      · rw [hdefined.2]
        exact ih (hgrown.ordered hordered) hdefined.2
      · rw [hnew, List.map_cons, List.nodup_cons, List.forall_mem_cons]
        constructor
        · rintro ⟨_, _, ⟨hfirst, rfl⟩, ⟨hdistinct, hname, hrest⟩, hΓ⟩
          exact ⟨⟨⟨hname, hdistinct⟩, hfirst, hrest⟩, hΓ⟩
        · rintro ⟨⟨⟨hname, hdistinct⟩, hfirst, hrest⟩, hΓ⟩
          exact ⟨(), _, ⟨hfirst, rfl⟩, ⟨hdistinct, hname, hrest⟩, hΓ⟩

/-- The body of a method with a header is elaborated below the program's frame. -/
theorem checkMethod_decides {frame : Frame VariableSymbol FunctionSymbol}
    {method : Method Offset} {symbol : FunctionSymbol} {symbols : Symbols}
    (hroot : AtRoot frame symbols) (hkeyed : Keyed [frame]) (hknown : KnownOperators method.exprs)
    (harity : symbol.parameters.length = method.parameters.length) :
    Decides (plain.checkMethod .builtin method symbol) symbols
      (ElaboratesMethod frame method symbol) := by
  have hnames : (method.parameters.zip symbol.parameters).map Prod.fst = method.parameters :=
    List.map_fst_zip (Nat.le_of_eq harity.symm)
  have hparameters {inner : ScopeId} {Γ : Context} {pushed : Symbols} (hpushed : pushed.Ordered)
      (hchain : pushed.chain inner = .empty :: Γ) :
      Advances inner
        (plain.defineParameters inner method.mark (method.parameters.zip symbol.parameters)) pushed
        fun _ Γ' => method.parameters.Nodup
          ∧ Γ' = parameterFrame (method.parameters.zip symbol.parameters) :: Γ :=
    (defineParameters_advances hpushed hchain).congr fun _ _ => by
      rw [hnames]
      refine and_congr_left fun _ => and_iff_left ?_
      intro parameter _
      rfl
  -- The parameters are what is defined in the scope of the body before the body is checked.
  have hbody := BlockAdvances.scoped (checkAll_advances symbol.result method.body hknown)
    hparameters (fun _ => keyed_parameterFrame _) hroot.ordered hroot.size.symm
    (hroot.chain ▸ hkeyed)
  have hchain : symbols.chain 0 = [frame] := hroot.chain
  rw [hchain] at hbody
  unfold Checker.checkMethod
  refine (hbody.bind fun _ _ => .pure _).congr fun method' => ⟨?_, ?_⟩
  · rintro ⟨body, ⟨hdistinct, Γ, hbody⟩, rfl⟩
    exact .mk hdistinct hbody
  · intro h
    cases h with
    | mk hdistinct hbody => exact ⟨_, ⟨hdistinct, _, hbody⟩, rfl⟩

/-! ### The whole -/

/-- The method to start with is the one named `main` that has no parameters. -/
theorem isMain_iff {method : Method Offset} : isMain method = true ↔ Starts method := by
  rw [isMain, Bool.and_eq_true, beq_iff_eq, List.isEmpty_iff]
  constructor
  · rintro ⟨hname, hparameters⟩
    exact ⟨hname, hparameters⟩
  · rintro ⟨hname, hparameters⟩
    exact ⟨hname, hparameters⟩

/-- The first method to start with is the only one, where names and arities are
distinct. -/
theorem find?_eq_some_iff_starts {pairs : List (Method Offset × FunctionSymbol)}
    {pair : Method Offset × FunctionSymbol} {starts : Method Offset × FunctionSymbol → Bool}
    (hstarts : ∀ other, starts other = true ↔ Starts other.1)
    (hdistinct : (pairs.map fun pair => (pair.1.name, pair.1.parameters.length)).Nodup) :
    pairs.find? starts = some pair
      ↔ ∃ before after, pairs = before ++ pair :: after ∧ Starts pair.1
        ∧ ∀ other ∈ before ++ after, ¬ Starts other.1 := by
  rw [List.find?_eq_some_iff_append]
  constructor
  · rintro ⟨hpair, before, after, rfl, hbefore⟩
    rw [hstarts] at hpair
    refine ⟨before, after, rfl, hpair, fun other hmem hother => ?_⟩
    rcases List.mem_append.mp hmem with hmem | hmem
    · simpa [(hstarts other).mpr hother] using hbefore other hmem
    · -- Another one behind the first would have its name and arity.
      have hkey : (pair.1.name, pair.1.parameters.length)
          = (other.1.name, other.1.parameters.length) := by
        rw [hpair.name, hpair.parameters, hother.name, hother.parameters]
      rw [List.map_append, List.map_cons] at hdistinct
      refine (List.nodup_cons.mp (List.nodup_append.mp hdistinct).2.1).1 ?_
      rw [hkey]
      exact List.mem_map_of_mem hmem
  · rintro ⟨before, after, rfl, hpair, hothers⟩
    refine ⟨(hstarts pair).mpr hpair, before, after, rfl, fun other hmem => ?_⟩
    have hother := hothers other (List.mem_append_left _ hmem)
    rw [← hstarts] at hother
    simpa using hother

/-- One method is to start with. The checker looks for the first and does not ask
for a second; that there is none follows from names and arities being distinct,
which the headers have seen to. -/
theorem checkMain_decides {pairs : List (Method Offset × FunctionSymbol)} {symbols : Symbols}
    (hdistinct : (pairs.map fun pair => (pair.1.name, pair.1.parameters.length)).Nodup) :
    Decides (checkMain pairs) symbols fun _ => StartsOnce pairs := by
  unfold checkMain
  split
  · next hnone =>
      refine reject_decides.congr fun _ => ⟨False.elim, ?_⟩
      rintro ⟨before, pair, after, hpairs, hstarts, -, hothers⟩
      have hsome := (find?_eq_some_iff_starts (fun _ => isMain_iff) hdistinct).mpr
        ⟨before, after, hpairs, hstarts, hothers⟩
      cases hnone.symm.trans hsome
  · next method symbol hsome =>
      refine (Decides.ite (fun _ => .pure _) fun _ => reject_decides).congr fun _ => ⟨?_, ?_⟩
      · rintro (⟨hresult, -⟩ | ⟨_, hfalse⟩)
        · obtain ⟨before, after, hpairs, hstarts, hothers⟩ :=
            (find?_eq_some_iff_starts (fun _ => isMain_iff) hdistinct).mp hsome
          exact ⟨before, _, after, hpairs, hstarts, hresult, hothers⟩
        · exact hfalse.elim
      · rintro ⟨before, other, after, hpairs, hstarts, hresult, hothers⟩
        have hother := (find?_eq_some_iff_starts (fun _ => isMain_iff) hdistinct).mpr
          ⟨before, after, hpairs, hstarts, hothers⟩
        cases hsome.symm.trans hother
        exact .inl ⟨hresult, rfl⟩

/-- With all headers bound the rest of a program is decided. -/
theorem checkBodies_decides {between frame : Frame VariableSymbol FunctionSymbol}
    {methods : List (Method Offset)} {found : List FunctionSymbol} {fields : List (Field Note)}
    {symbols : Symbols} (hroot : AtRoot frame symbols) (hkeyed : Keyed [between])
    (hheaders : ElaboratesHeaders between methods found frame)
    (hknown : ∀ method ∈ methods, KnownOperators method.exprs)
    (hparameters : ∀ method ∈ methods, method.parameters.length = method.parameterTypes.length) :
    Decides (do
      let checked ← (methods.zip found).mapM fun (method, symbol) =>
        plain.checkMethod .builtin method symbol
      checkMain (methods.zip found)
      pure ⟨fields, checked⟩ : Check (Program Note)) symbols fun checked =>
        ∃ methods', List.Forall₂ (fun pair => ElaboratesMethod frame pair.1 pair.2)
            (methods.zip found) methods'
          ∧ StartsOnce (methods.zip found) ∧ checked = ⟨fields, methods'⟩ := by
  have harity : ∀ pair ∈ methods.zip found,
      pair.2.parameters.length = pair.1.parameters.length := by
    intro pair hpair
    rw [← (hheaders.heads pair hpair).parameters.length_eq]
    exact (hparameters pair.1 (List.of_mem_zip hpair).1).symm
  -- The keys by which `main` is looked for are those of the headers, which are all different.
  have hkeys : (methods.zip found).map (fun pair => (pair.1.name, pair.1.parameters.length))
      = found.map FunctionSymbol.key := by
    have hfound : found.map FunctionSymbol.key
        = (methods.zip found).map (FunctionSymbol.key ∘ Prod.snd) := by
      rw [← List.map_map, List.map_snd_zip (Nat.le_of_eq hheaders.length)]
    rw [hfound]
    refine List.map_congr_left fun pair hpair => ?_
    rw [Function.comp, FunctionSymbol.key, FunctionSymbol.arity, harity pair hpair,
      (hheaders.heads pair hpair).name]
  have hbodies : Decides ((methods.zip found).mapM fun (method, symbol) =>
      plain.checkMethod .builtin method symbol) symbols
      (List.Forall₂ (fun pair => ElaboratesMethod frame pair.1 pair.2) (methods.zip found)) :=
    .mapM fun pair hpair => checkMethod_decides hroot (hheaders.keyed hkeyed)
      (hknown pair.1 (List.of_mem_zip hpair).1) (harity pair hpair)
  have hmain : Decides (checkMain (methods.zip found)) symbols fun _ =>
      StartsOnce (methods.zip found) :=
    checkMain_decides (hkeys ▸ hheaders.keys_new.1)
  refine (hbodies.bind fun _ _ => hmain.bind fun _ _ => .pure _).congr fun checked => ⟨?_, ?_⟩
  · rintro ⟨methods', hmethods, _, hstart, rfl⟩
    exact ⟨methods', hmethods, hstart, rfl⟩
  · rintro ⟨methods', hmethods, hstart, rfl⟩
    exact ⟨methods', hmethods, (), hstart, rfl⟩

/-- What a text can say is checked as the rules elaborate it, below what was there
before. -/
theorem program_eq_ok_iff {frame : Frame VariableSymbol FunctionSymbol} {symbols : Symbols}
    {program : Program Offset} (hroot : AtRoot frame symbols) (hkeyed : Keyed [frame])
    (hspoken : program.Spoken) (checked : Program Note) :
    (∃ symbols', plain.program .builtin program symbols = .ok checked symbols')
      ↔ ElaboratesProgram frame program checked := by
  obtain ⟨fields, methods⟩ := program
  obtain ⟨hfields, hmethods⟩ := knownOperators_append.mp hspoken.operators
  have hknown : ∀ method ∈ methods, KnownOperators method.exprs := fun method hmethod e he =>
    hmethods e (List.mem_flatMap.mpr ⟨method, hmethod, he⟩)
  -- Fields and headers only add to the root, in this order. So the bodies are checked below a
  -- frame that holds both, and it is the one the rules elaborate them under.
  have hfieldsFirst := checkFields_advances hroot hkeyed hfields
  unfold Checker.program
  constructor
  · rintro ⟨symbols', h⟩
    obtain ⟨fields', middle, hfields', hrest⟩ := bind_eq_ok_iff.mp h
    obtain ⟨found, last, hfound, hbodies⟩ := bind_eq_ok_iff.mp hrest
    obtain ⟨hgrown, between, hbetween, hchain⟩ := hfieldsFirst.sound fields' middle hfields'
    have hrootBetween := hroot.grown hgrown hchain
    obtain ⟨hgrown', frame', hheaders, hchain'⟩ :=
      (declareMethods_advances methods hrootBetween).sound found last hfound
    obtain ⟨-, methods', hmethods', hstart, rfl⟩ := (checkBodies_decides
      (hrootBetween.grown hgrown' hchain') (hbetween.keyed hkeyed) hheaders hknown
      hspoken.parameters checked symbols').mp hbodies
    exact .mk hbetween hheaders hmethods' hstart
  · intro h
    cases h with
    | @mk between frame' _ fields' _ found methods' hbetween hheaders hmethods' hstart =>
        obtain ⟨middle, hfields', hchain⟩ :=
          hfieldsFirst.complete fields' _ ⟨between, hbetween, rfl⟩
        have hrootBetween := hroot.grown (hfieldsFirst.sound fields' middle hfields').1 hchain
        have hheadersNext := declareMethods_advances methods hrootBetween
        obtain ⟨last, hfound, hchain'⟩ :=
          hheadersNext.complete found _ ⟨frame', hheaders, rfl⟩
        have hrootLast := hrootBetween.grown (hheadersNext.sound found last hfound).1 hchain'
        refine ⟨last, bind_eq_ok_iff.mpr ⟨fields', middle, hfields',
          bind_eq_ok_iff.mpr ⟨found, last, hfound, ?_⟩⟩⟩
        exact (checkBodies_decides hrootLast (hbetween.keyed hkeyed) hheaders hknown
          hspoken.parameters ⟨fields', methods'⟩ last).mpr ⟨rfl, methods', hmethods', hstart, rfl⟩

/-- A session begins with the program's scope alone, and the standard functions in
it. -/
theorem atRoot_initialSymbols : AtRoot standardFrame initialSymbols := by
  have hsingle : initialSymbols = Arena.single standardFrame := rfl
  rw [hsingle]
  exact ⟨Arena.ordered_single standardFrame, rfl, Arena.chain_single standardFrame⟩

/-- The standard functions are bound by their own names and arities. -/
theorem keyed_standardFrame : Keyed [standardFrame] := by
  have hempty : Keyed [Frame.empty] := keyed_cons_empty (by simp [Keyed])
  have hprint : standardFrame = Frame.empty.setFunction
      (FunctionSymbol.key ⟨"print", [.any], .nil, none⟩) ⟨"print", [.any], .nil, none⟩ := rfl
  rw [hprint]
  exact keyed_cons_setFunction hempty

/-- The checker decides the type system: of the programs that can be read it accepts
those that are derivable, and answers with what the derivation elaborates. There is
never more than one such tree, and without its types and symbols it is the program. -/
theorem check_eq_ok_iff_elaborates {text : String} {program : Program Offset}
    (hread : readProgram text = .ok program) :
    (∀ checked, check program = .ok checked ↔ ElaboratesProgram standardFrame program checked)
      ∧ (∀ checked other, ElaboratesProgram standardFrame program checked →
          ElaboratesProgram standardFrame program other → checked = other)
      ∧ ∀ checked, check program = .ok checked → checked.map Note.offset = program := by
  have hcheck (checked : Program Note) :
      check program = .ok checked ↔ ElaboratesProgram standardFrame program checked := by
    rw [← program_eq_ok_iff atRoot_initialSymbols keyed_standardFrame
      (spoken_of_readProgram hread), check, alone]
    cases plain.program .builtin program initialSymbols <;> simp
  refine ⟨hcheck, fun checked other h h' => ?_, fun checked h => ((hcheck checked).mp h).map⟩
  exact Except.ok.inj (((hcheck checked).mpr h).symm.trans ((hcheck other).mpr h'))

/-- The value of a local variable that shadows a field is elaborated where the field is
still seen, and what comes behind it where the variable is. -/
theorem elaborates_of_shadowing :
    ∃ program, readProgram "LET n = 2; DEF main(): Integer DO LET n: Any = n < 3; print(n); END"
        = .ok program
      ∧ ElaboratesProgram standardFrame program
        ⟨[⟨⟨0, none, some (.variable ⟨"n", .integer, some 0⟩)⟩, "n", none,
            some (.integer ⟨8, some .integer, none⟩ 2)⟩],
          [⟨⟨11, none, some (.function ⟨"main", [], .integer, some 11⟩)⟩, "main", [], [],
            some "Integer",
            [.declare ⟨34, none, some (.variable ⟨"n", .any, some 34⟩)⟩
                ⟨"n", some "Any", some (.binary ⟨47, some .boolean, none⟩ .less
                  (.var ⟨47, some .integer, some (.variable ⟨"n", .integer, some 0⟩)⟩ "n")
                  (.integer ⟨51, some .integer, none⟩ 3))⟩,
              .expression ⟨54, none, none⟩
                (.call ⟨54, some .nil, some (.function ⟨"print", [.any], .nil, none⟩)⟩ "print"
                  [.var ⟨60, some .any, some (.variable ⟨"n", .any, some 34⟩)⟩ "n"])]⟩]⟩ := by
  have hlex : tokenize "LET n = 2; DEF main(): Integer DO LET n: Any = n < 3; print(n); END" = .ok
      [⟨.identifier, "LET", 0⟩, ⟨.identifier, "n", 4⟩, ⟨.operator, "=", 6⟩, ⟨.integer, "2", 8⟩,
        ⟨.operator, ";", 9⟩, ⟨.identifier, "DEF", 11⟩, ⟨.identifier, "main", 15⟩,
        ⟨.operator, "(", 19⟩, ⟨.operator, ")", 20⟩, ⟨.operator, ":", 21⟩,
        ⟨.identifier, "Integer", 23⟩, ⟨.identifier, "DO", 31⟩, ⟨.identifier, "LET", 34⟩,
        ⟨.identifier, "n", 38⟩, ⟨.operator, ":", 39⟩, ⟨.identifier, "Any", 41⟩,
        ⟨.operator, "=", 45⟩, ⟨.identifier, "n", 47⟩, ⟨.operator, "<", 49⟩, ⟨.integer, "3", 51⟩,
        ⟨.operator, ";", 52⟩, ⟨.identifier, "print", 54⟩, ⟨.operator, "(", 59⟩,
        ⟨.identifier, "n", 60⟩, ⟨.operator, ")", 61⟩, ⟨.operator, ";", 62⟩,
        ⟨.identifier, "END", 64⟩] := by
    rfl
  have hread : readProgram "LET n = 2; DEF main(): Integer DO LET n: Any = n < 3; print(n); END"
      = .ok ⟨[⟨0, "n", none, some (.integer 8 2)⟩],
        [⟨11, "main", [], [], some "Integer",
          [.declare 34 ⟨"n", some "Any", some (.binary 47 .less (.var 47 "n") (.integer 51 3))⟩,
            .expression 54 (.call 54 "print" [.var 60 "n"])]⟩]⟩ :=
    readProgram_eq_ok hlex rfl
  -- The checker computes the tree, so that the rules derive it.
  exact ⟨_, hread, ((check_eq_ok_iff_elaborates hread).1 _).mp rfl⟩

end PlcLang.Proofs
