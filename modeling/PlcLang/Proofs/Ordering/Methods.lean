import Mathlib.Data.List.Perm.Basic
import PlcLang.Proofs.Ordering.Bindings
import PlcLang.Proofs.Scoping.Confinement
import PlcLang.Proofs.Scoping.Stack
import PlcLang.Proofs.Typing.Decision.Programs

/-!
# `PlcLang.Proofs.Ordering.Methods`: the order of methods

A program may have its methods in any order. The checker goes over them three times, for
their headers, for their bodies and for the one to start with, and the interpreter binds
them one after the other. What they come to is said here without an order:

* `program_ok_iff`: a program is accepted if its fields are, and there is a symbol for
  each method such that all is well with all of them (`Checks`).
* `Checks.perm`: that does not depend on their order.
* `simulates_program`: and a run does not, if all methods have different names and
  arities, as they have in a program that is accepted.
* `method_order_means_nothing`: so it is with the whole, between any other programs.
-/

set_option autoImplicit false

namespace PlcLang

/-- The name and arity by which a method is called when the program runs. -/
def Method.calledBy {α : Type} (method : Method α) : FunctionKey :=
  (method.name, method.parameters.length)

namespace Proofs

open Checker

/-! ### Headers -/

/-- The header of a method stands for this symbol: its types are found, and it has
the name and the place of the method. -/
structure Declares (types : TypeTable) (method : Method Offset) (symbol : FunctionSymbol) :
    Prop where
  name : symbol.name = method.name
  parameters : List.Forall₂ (fun name type => types.resolve? name = some type)
    method.parameterTypes symbol.parameters
  result : method.returnType.elim (some .nil) types.resolve? = some symbol.result
  offset : symbol.offset = some method.mark

/-- In the program's scope no function has that name and arity. -/
def Free (symbols : Symbols) (key : FunctionKey) : Prop :=
  ∃ scope, symbols.scope? Arena.root = some scope ∧ scope.functionTable.get? key = none

/-- Functions with the names and arities that they are called by. -/
def keyed (found : List FunctionSymbol) : List (FunctionKey × FunctionSymbol) :=
  found.map fun symbol => (symbol.key, symbol)

/-- The keys of functions that are listed with them. -/
theorem fst_keyed (found : List FunctionSymbol) :
    (keyed found).map Prod.fst = found.map FunctionSymbol.key := by
  unfold keyed
  rw [List.map_map]
  rfl

/-- Behind the binding of a function, a key is free if it was free before and is not
that of the function. -/
theorem free_bindFunction {symbols : Symbols} {symbol : FunctionSymbol} {key : FunctionKey} :
    Free (symbols.bindFunction Arena.root symbol.key symbol) key
      ↔ key ≠ symbol.key ∧ Free symbols key := by
  have hscope : (symbols.bindFunction Arena.root symbol.key symbol).scope? Arena.root
      = (symbols.scope? Arena.root).map (·.setFunction symbol.key symbol) := by
    show (symbols.scopes.modify 0 _)[0]? = symbols.scopes[0]?.map _
    rw [List.getElem?_modify]
    rfl
  have hget (scope : Scope VariableSymbol FunctionSymbol) :
      (scope.setFunction symbol.key symbol).functionTable.get? key = none
        ↔ key ≠ symbol.key ∧ scope.functionTable.get? key = none := by
    show (scope.functionTable.set symbol.key symbol).get? key = none ↔ _
    rw [Bindings.get?_set]
    by_cases hkey : key = symbol.key <;> simp [hkey]
  unfold Free
  rw [hscope]
  cases symbols.scope? Arena.root with
  | none => simp
  | some scope => simp [hget]

/-- A function is defined if its key is free, and is bound by it then. -/
theorem defineFunction_eq_ok_iff {symbol : FunctionSymbol} {offset : Offset}
    {symbols after : Symbols} :
    plain.defineFunction symbol offset symbols = .ok () after
      ↔ Free symbols symbol.key
        ∧ after = symbols.bindFunction Arena.root symbol.key symbol := by
  rw [marking_defineFunction_apply]
  unfold Arena.defineFunction Arena.define Free
  cases symbols.scope? Arena.root with
  | none => simp
  | some scope =>
      cases hfound : scope.functionTable.get? symbol.key with
      | some existing => simp [hfound]
      | none =>
          simp only [hfound, EStateM.Result.ok.injEq, true_and, Option.some.injEq,
            exists_eq_left']
          exact eq_comm

/-- The header of a method is accepted if it stands for a symbol that can be bound. -/
theorem declareMethod_eq_ok_iff {types : TypeTable} {method : Method Offset}
    {symbol : FunctionSymbol} {symbols after : Symbols} :
    plain.declareMethod types method symbols = .ok symbol after
      ↔ Declares types method symbol ∧ Free symbols symbol.key
        ∧ after = symbols.bindFunction Arena.root symbol.key symbol := by
  have hparameters : Decides
      (method.parameterTypes.mapM fun name => resolveType types name method.mark) symbols
      (List.Forall₂ (fun name type => types.resolve? name = some type) method.parameterTypes) :=
    .mapM fun name _ => resolveType_finds
  have hresult : Decides
      (method.returnType.elim (pure .nil) fun name => resolveType types name method.mark) symbols
      fun type => method.returnType.elim (some .nil) types.resolve? = some type := by
    cases method.returnType with
    | some name => exact resolveType_finds
    | none =>
        refine (Decides.pure Ty.nil).congr fun type => ?_
        show type = Ty.nil ↔ some Ty.nil = some type
        rw [Option.some.injEq, eq_comm]
  -- Types are resolved without a look at the symbols, so only the last step depends on them.
  rw [declareMethod_eq]
  constructor
  · intro h
    obtain ⟨parameters, middle, hfirst, hnext⟩ := bind_eq_ok_iff.mp h
    obtain ⟨hmiddle, hparameters'⟩ := (hparameters parameters middle).mp hfirst
    rw [hmiddle] at hnext
    obtain ⟨result, last, hsecond, hdefine⟩ := bind_eq_ok_iff.mp hnext
    obtain ⟨hlast, hresult'⟩ := (hresult result last).mp hsecond
    rw [hlast] at hdefine
    obtain ⟨_, defined, hdefine, hend⟩ := bind_eq_ok_iff.mp hdefine
    cases hend
    obtain ⟨hfree, hafter⟩ := defineFunction_eq_ok_iff.mp hdefine
    exact ⟨⟨rfl, hparameters', hresult', rfl⟩, hfree, hafter⟩
  · rintro ⟨hdeclares, hfree, rfl⟩
    obtain ⟨name, parameters, result, offset⟩ := symbol
    obtain ⟨rfl, hparameters', hresult', rfl⟩ := hdeclares
    refine bind_eq_ok_iff.mpr ⟨parameters, symbols, (hparameters _ _).mpr ⟨rfl, hparameters'⟩, ?_⟩
    refine bind_eq_ok_iff.mpr ⟨result, symbols, (hresult _ _).mpr ⟨rfl, hresult'⟩, ?_⟩
    exact bind_eq_ok_iff.mpr ⟨(), _, defineFunction_eq_ok_iff.mpr ⟨hfree, rfl⟩, rfl⟩

/-- The headers of methods are accepted if they stand for symbols that can all be
bound: no two have one key, and none has one that is bound already. By induction on
the methods. -/
theorem declareMethods_eq_ok_iff {types : TypeTable} {methods : List (Method Offset)}
    {found : List FunctionSymbol} {symbols after : Symbols} :
    methods.mapM (plain.declareMethod types) symbols = .ok found after
      ↔ List.Forall₂ (Declares types) methods found ∧ (found.map FunctionSymbol.key).Nodup
        ∧ (∀ symbol ∈ found, Free symbols symbol.key)
        ∧ after = symbols.bindFunctions Arena.root (keyed found) := by
  induction methods generalizing symbols found with
  | nil =>
      rw [List.mapM_nil, List.forall₂_nil_left_iff]
      show EStateM.Result.ok [] symbols = .ok found after ↔ _
      constructor
      · intro h
        cases h
        exact ⟨rfl, List.nodup_nil, by simp, rfl⟩
      · rintro ⟨rfl, -, -, rfl⟩
        rfl
  | cons method rest ih =>
      rw [List.mapM_cons, bind_eq_ok_iff]
      -- What the first binds is not free for the others, and nothing else changes for them.
      have hfree (symbol : FunctionSymbol) (more : List FunctionSymbol) :
          (∀ other ∈ more, Free (symbols.bindFunction Arena.root symbol.key symbol) other.key)
            ↔ symbol.key ∉ more.map FunctionSymbol.key
              ∧ ∀ other ∈ more, Free symbols other.key := by
        simp only [free_bindFunction, List.mem_map, not_exists, not_and, forall_and]
      constructor
      · rintro ⟨symbol, middle, hmethod, h⟩
        obtain ⟨more, last, hrest, h⟩ := bind_eq_ok_iff.mp h
        cases h
        obtain ⟨hdeclares, hnew, rfl⟩ := declareMethod_eq_ok_iff.mp hmethod
        obtain ⟨hmore, hdistinct, hfresh, rfl⟩ := ih.mp hrest
        obtain ⟨hother, hfresh⟩ := (hfree symbol more).mp hfresh
        exact ⟨.cons hdeclares hmore, List.nodup_cons.mpr ⟨hother, hdistinct⟩,
          List.forall_mem_cons.mpr ⟨hnew, hfresh⟩, rfl⟩
      · rintro ⟨hall, hdistinct, hfresh, rfl⟩
        cases hall with
        | @cons _ symbol _ more hdeclares hmore =>
            obtain ⟨hother, hdistinct⟩ := List.nodup_cons.mp hdistinct
            obtain ⟨hnew, hfresh⟩ := List.forall_mem_cons.mp hfresh
            refine ⟨symbol, _, declareMethod_eq_ok_iff.mpr ⟨hdeclares, hnew, rfl⟩, ?_⟩
            exact bind_eq_ok_iff.mpr ⟨more, _,
              ih.mpr ⟨hmore, hdistinct, (hfree symbol more).mpr ⟨hother, hfresh⟩, rfl⟩, rfl⟩

/-! ### The whole -/

/-- What makes methods with the symbols of their headers good, where `symbols` are in scope. No
order comes into it but that in which the symbols are bound. -/
structure Checks (types : TypeTable) (symbols : Symbols)
    (pairs : List (Method Offset × FunctionSymbol)) : Prop where
  declares : ∀ pair ∈ pairs, Declares types pair.1 pair.2
  distinct : ((pairs.map Prod.snd).map FunctionSymbol.key).Nodup
  free : ∀ symbol ∈ pairs.map Prod.snd, Free symbols symbol.key
  bodies : ∀ pair ∈ pairs, ∃ method' after, plain.checkMethod types pair.1 pair.2
    (symbols.bindFunctions Arena.root (keyed (pairs.map Prod.snd))) = .ok method' after
  starts : StartsOnce pairs

/-- A method whose parameters all have a type is called by the key of its symbol. -/
theorem Declares.key_eq {types : TypeTable} {method : Method Offset} {symbol : FunctionSymbol}
    (h : Declares types method symbol)
    (hlength : method.parameters.length = method.parameterTypes.length) :
    symbol.key = method.calledBy := by
  have harity : symbol.parameters.length = method.parameters.length :=
    h.parameters.length_eq.symm.trans hlength.symm
  show (symbol.name, symbol.parameters.length) = (method.name, method.parameters.length)
  rw [h.name, harity]

/-- The keys of the symbols are those by which the methods are called, one by one. -/
theorem map_key_eq {types : TypeTable} {pairs : List (Method Offset × FunctionSymbol)}
    (hdeclares : ∀ pair ∈ pairs, Declares types pair.1 pair.2)
    (hlengths : ∀ method ∈ pairs.map Prod.fst,
      method.parameters.length = method.parameterTypes.length) :
    (pairs.map Prod.snd).map FunctionSymbol.key = (pairs.map Prod.fst).map Method.calledBy := by
  rw [List.map_map, List.map_map]
  apply List.map_congr_left
  intro pair hpair
  exact (hdeclares pair hpair).key_eq (hlengths pair.1 (List.mem_map_of_mem hpair))

/-- A list goes with another one exactly if each of its items goes with something. -/
theorem exists_forall₂_iff {α β : Type} {R : α → β → Prop} {list : List α} :
    (∃ others, List.Forall₂ R list others) ↔ ∀ a ∈ list, ∃ b, R a b := by
  induction list with
  | nil => simp
  | cons a rest ih =>
      rw [List.forall_mem_cons, ← ih]
      constructor
      · rintro ⟨_, _ | ⟨ha, hrest⟩⟩
        exact ⟨⟨_, ha⟩, _, hrest⟩
      · rintro ⟨⟨b, ha⟩, others, hrest⟩
        exact ⟨b :: others, .cons ha hrest⟩

/-- The body of a method is accepted or not, and leaves the symbols as they are. -/
theorem decides_checkMethod {types : TypeTable} {method : Method Offset}
    {symbol : FunctionSymbol} {symbols : Symbols} (hsize : 0 < symbols.size) :
    Decides (plain.checkMethod types method symbol) symbols fun method' =>
      ∃ after, plain.checkMethod types method symbol symbols = .ok method' after := by
  have hconfined (scope : ScopeId) : Confined scope (plain.checkMethod types method symbol) :=
    confined_checkMethod method symbol
  intro method' after
  constructor
  · intro h
    exact ⟨Confined.eq_of_ok hconfined hsize h, after, h⟩
  · rintro ⟨rfl, other, h⟩
    rwa [Confined.eq_of_ok hconfined hsize h] at h

/-- Bodies are accepted or not one by one, and then one method must be the one to start
with. -/
theorem checkBodies_ok_iff {types : TypeTable} (fields : List (Field Note))
    {pairs : List (Method Offset × FunctionSymbol)} {symbols : Symbols}
    (hsize : 0 < symbols.size) (hdistinct : ((pairs.map Prod.fst).map Method.calledBy).Nodup) :
    (∃ checked after, (do
        let methods ← pairs.mapM fun (method, symbol) => plain.checkMethod types method symbol
        checkMain pairs
        pure ⟨fields, methods⟩ : Check (Program Note)) symbols = .ok checked after)
      ↔ (∀ pair ∈ pairs, ∃ method' after,
          plain.checkMethod types pair.1 pair.2 symbols = .ok method' after)
        ∧ StartsOnce pairs := by
  have hbodies : Decides (pairs.mapM fun (method, symbol) => plain.checkMethod types method symbol)
      symbols (List.Forall₂ (fun pair method' => ∃ after,
        plain.checkMethod types pair.1 pair.2 symbols = .ok method' after) pairs) :=
    .mapM fun pair _ => decides_checkMethod hsize
  have hmain : Decides (checkMain pairs) symbols fun _ => StartsOnce pairs := by
    rw [List.map_map] at hdistinct
    exact checkMain_decides hdistinct
  have hboth (checked : Program Note) (after : Symbols) :=
    (hbodies.bind fun methods _ => hmain.bind fun _ _ => .pure (Program.mk fields methods))
      checked after
  rw [← exists_forall₂_iff]
  constructor
  · rintro ⟨checked, after, h⟩
    obtain ⟨-, methods, hmethods, _, hstarts, -⟩ := (hboth checked after).mp h
    exact ⟨⟨methods, hmethods⟩, hstarts⟩
  · rintro ⟨⟨methods, hmethods⟩, hstarts⟩
    exact ⟨_, symbols, (hboth _ symbols).mpr ⟨rfl, methods, hmethods, (), hstarts, rfl⟩⟩

/-- Binding functions makes no scope. -/
theorem size_bindFunctions {symbols : Symbols} {functions : List (FunctionKey × FunctionSymbol)} :
    (symbols.bindFunctions Arena.root functions).size = symbols.size := by
  rw [Arena.bindFunctions_eq_modify]
  exact List.length_modify ..

/-- The fields of a program leave as many scopes as there were. -/
theorem size_of_checkFields {types : TypeTable} {fields : List (Field Offset)}
    {fields' : List (Field Note)} {symbols after : Symbols} (hsize : 0 < symbols.size)
    (h : fields.mapM (plain.checkField types) symbols = .ok fields' after) :
    after.size = symbols.size := by
  have hconfined : Confined Arena.root (fields.mapM (plain.checkField types)) := by
    apply Confined.mapM
    intro field _
    exact confined_checkField field
  exact ((hconfined symbols hsize).of_ok h).size

/-- A program is accepted if its fields are, and if its methods are good with the symbols of
their headers, where the fields are in scope. -/
theorem program_ok_iff {types : TypeTable} {fields : List (Field Offset)}
    {methods : List (Method Offset)} {symbols : Symbols} (hsize : 0 < symbols.size)
    (hlengths : ∀ method ∈ methods, method.parameters.length = method.parameterTypes.length) :
    (∃ checked after, plain.program types ⟨fields, methods⟩ symbols = .ok checked after)
      ↔ ∃ fields' middle, fields.mapM (plain.checkField types) symbols = .ok fields' middle
        ∧ ∃ pairs, pairs.map Prod.fst = methods ∧ Checks types middle pairs := by
  unfold Checker.program
  constructor
  · rintro ⟨checked, after, h⟩
    obtain ⟨fields', middle, hfields, hnext⟩ := bind_eq_ok_iff.mp h
    obtain ⟨found, last, hfound, hrest⟩ := bind_eq_ok_iff.mp hnext
    obtain ⟨hdeclares, hdistinct, hfree, rfl⟩ := declareMethods_eq_ok_iff.mp hfound
    have hfst : (methods.zip found).map Prod.fst = methods :=
      List.map_fst_zip (Nat.le_of_eq hdeclares.length_eq)
    have hsnd : (methods.zip found).map Prod.snd = found :=
      List.map_snd_zip (Nat.le_of_eq hdeclares.length_eq.symm)
    have hall : ∀ pair ∈ methods.zip found, Declares types pair.1 pair.2 :=
      fun pair hpair => List.forall₂_zip hdeclares hpair
    have hlengths' : ∀ method ∈ (methods.zip found).map Prod.fst,
        method.parameters.length = method.parameterTypes.length := by
      rw [hfst]
      exact hlengths
    -- The bodies are looked up by the words of the methods, the headers were bound by their
    -- symbols: the same keys.
    have hkeys := map_key_eq hall hlengths'
    have hmiddle : 0 < (middle.bindFunctions Arena.root (keyed found)).size := by
      rw [size_bindFunctions, size_of_checkFields hsize hfields]
      exact hsize
    rw [hsnd] at hkeys
    obtain ⟨hbodies, hstarts⟩ :=
      (checkBodies_ok_iff fields' hmiddle (hkeys ▸ hdistinct)).mp ⟨checked, after, hrest⟩
    exact ⟨fields', middle, hfields, methods.zip found, hfst,
      ⟨hall, hsnd.symm ▸ hdistinct, hsnd.symm ▸ hfree, hsnd.symm ▸ hbodies, hstarts⟩⟩
  · rintro ⟨fields', middle, hfields, pairs, rfl, hchecks⟩
    have hdeclares : List.Forall₂ (Declares types) (pairs.map Prod.fst) (pairs.map Prod.snd) := by
      rw [List.forall₂_map_left_iff, List.forall₂_map_right_iff, List.forall₂_same]
      exact hchecks.declares
    have hkeys := map_key_eq hchecks.declares hlengths
    have hmiddle : 0 < (middle.bindFunctions Arena.root (keyed (pairs.map Prod.snd))).size := by
      rw [size_bindFunctions, size_of_checkFields hsize hfields]
      exact hsize
    obtain ⟨checked, after, hrest⟩ :=
      (checkBodies_ok_iff fields' hmiddle (hkeys ▸ hchecks.distinct)).mpr
        ⟨hchecks.bodies, hchecks.starts⟩
    have hzip : (pairs.map Prod.fst).zip (pairs.map Prod.snd) = pairs :=
      (List.zip_of_prod rfl rfl).symm
    refine ⟨checked, after, bind_eq_ok_iff.mpr ⟨fields', middle, hfields,
      bind_eq_ok_iff.mpr ⟨pairs.map Prod.snd, _, declareMethods_eq_ok_iff.mpr
        ⟨hdeclares, hchecks.distinct, hchecks.free, rfl⟩, ?_⟩⟩⟩
    rw [hzip]
    exact hrest

/-! ### Another order -/

/-- Whichever methods stand before and behind it, there is one to start with. -/
theorem StartsOnce.perm {pairs others : List (Method Offset × FunctionSymbol)}
    (h : StartsOnce pairs) (hperm : pairs.Perm others) : StartsOnce others := by
  obtain ⟨before, pair, after, rfl, hstarts, hresult, hothers⟩ := h
  have hmem : pair ∈ others := hperm.subset (by simp)
  obtain ⟨before', after', rfl⟩ := List.append_of_mem hmem
  have hrest : (before ++ after).Perm (before' ++ after') := by
    have hmoved : (pair :: (before ++ after)).Perm (pair :: (before' ++ after')) :=
      List.perm_middle.symm.trans (hperm.trans List.perm_middle)
    exact hmoved.cons_inv
  refine ⟨before', pair, after', rfl, hstarts, hresult, ?_⟩
  intro other hother
  exact hothers other (hrest.mem_iff.mpr hother)

/-- Methods that are good are so in any order. The bodies are checked among the same
bindings. -/
theorem Checks.perm {types : TypeTable} {symbols : Symbols}
    {pairs others : List (Method Offset × FunctionSymbol)} (h : Checks types symbols pairs)
    (hperm : pairs.Perm others) : Checks types symbols others where
  declares pair hpair := h.declares pair (hperm.mem_iff.mpr hpair)
  distinct := ((hperm.map Prod.snd).map FunctionSymbol.key).nodup_iff.mp h.distinct
  free symbol hsymbol := h.free symbol ((hperm.map Prod.snd).mem_iff.mpr hsymbol)
  bodies pair hpair := by
    -- Each body sees the same bindings, in whatever order they were made.
    have hkeyed : (keyed (pairs.map Prod.snd)).Perm (keyed (others.map Prod.snd)) :=
      (hperm.map Prod.snd).map _
    have hsame := (Arena.SameBindings.refl symbols).bindFunctions Arena.root hkeyed
      (by rw [fst_keyed]; exact h.distinct)
    obtain ⟨method', after, hbody⟩ := h.bodies pair (hperm.mem_iff.mpr hpair)
    exact checkMethod_sameBindings hsame hbody
  starts := h.starts.perm hperm

/-- What goes with a list goes along into another order of it. -/
theorem exists_perm_of_map_fst {α β : Type} {pairs : List (α × β)} {list : List α}
    (hperm : list.Perm (pairs.map Prod.fst)) :
    ∃ others : List (α × β), others.map Prod.fst = list ∧ pairs.Perm others := by
  have hzipped : List.Forall₂ (fun a pair => pair.1 = a) (pairs.map Prod.fst) pairs := by
    rw [List.forall₂_map_left_iff, List.forall₂_same]
    intro pair _
    rfl
  obtain ⟨others, hothers, hpairs⟩ := List.perm_comp_forall₂ hperm hzipped
  have hsame : List.Forall₂ (· = ·) (others.map Prod.fst) list := by
    rw [List.forall₂_map_left_iff]
    exact hothers.flip
  rw [List.forall₂_eq_eq_eq] at hsame
  exact ⟨others, hsame, hpairs.symm⟩

/-- A program that is accepted is so with its methods in any order. -/
theorem program_ok_perm {types : TypeTable} {fields : List (Field Offset)}
    {methods methods' : List (Method Offset)} {symbols : Symbols} (hsize : 0 < symbols.size)
    (hlengths : ∀ method ∈ methods, method.parameters.length = method.parameterTypes.length)
    (hperm : methods'.Perm methods)
    (h : ∃ checked after, plain.program types ⟨fields, methods⟩ symbols = .ok checked after) :
    ∃ checked after, plain.program types ⟨fields, methods'⟩ symbols = .ok checked after := by
  have hlengths' : ∀ method ∈ methods',
      method.parameters.length = method.parameterTypes.length :=
    fun method hmethod => hlengths method (hperm.mem_iff.mp hmethod)
  obtain ⟨fields', middle, hfields, pairs, rfl, hchecks⟩ := (program_ok_iff hsize hlengths).mp h
  obtain ⟨others, rfl, hothers⟩ := exists_perm_of_map_fst hperm
  exact (program_ok_iff hsize hlengths').mpr
    ⟨fields', middle, hfields, others, rfl, hchecks.perm hothers⟩

/-! ### Runs -/

/-- What methods are bound to when the program runs. -/
def callables (methods : List (Method Offset)) : List (FunctionKey × Callable) :=
  methods.map fun method => (method.calledBy, .method method)

/-- The methods are bound one after the other, and nothing else happens. -/
theorem defineMethods_eq (methods : List (Method Offset)) (machine : Machine) :
    methods.forM Interpreter.plain.defineMethod machine
      = .ok () { machine with
          scopes := machine.scopes.bindFunctions Arena.root (callables methods) } := by
  induction methods generalizing machine with
  | nil => rfl
  | cons method rest ih =>
      let bound : Machine := { machine with
        scopes := machine.scopes.bindFunction Arena.root method.calledBy (.method method) }
      show rest.forM Interpreter.plain.defineMethod bound = _
      rw [ih bound]
      rfl

/-- In whatever order methods are bound, the machines have the same bindings, if no
two have one key. -/
theorem simulates_defineMethods {methods methods' : List (Method Offset)}
    (hperm : methods.Perm methods') (hkeys : (methods.map Method.calledBy).Nodup) :
    Interpreter.Relabels id .same id (methods.forM Interpreter.plain.defineMethod)
      (methods'.forM Interpreter.plain.defineMethod) := by
  intro machine machine' hmachine
  have hscopes : machine.scopes.SameBindings machine'.scopes := by
    have hrenamed := hmachine.scopes
    rwa [Callee.relabel_eq_id] at hrenamed
  have hfst : (callables methods).map Prod.fst = methods.map Method.calledBy := by
    unfold callables
    rw [List.map_map]
    rfl
  have hbound := hscopes.bindFunctions Arena.root (hperm.map _ : (callables methods).Perm
    (callables methods')) (hfst ▸ hkeys)
  rw [defineMethods_eq, defineMethods_eq]
  refine ⟨_, rfl, { hmachine with scopes := ?_ }⟩
  rw [Callee.relabel_eq_id]
  exact hbound

/-- Programs with the same methods in another order run alike, if no method hides
another. -/
theorem simulates_program (limits : Limits) (fields : List (Field Offset))
    {methods methods' : List (Method Offset)} (hperm : methods.Perm methods')
    (hkeys : (methods.map Method.calledBy).Nodup) :
    Interpreter.Relabels id .same id (Interpreter.plain.program limits ⟨fields, methods⟩)
      (Interpreter.plain.program limits ⟨fields, methods'⟩) := by
  have hfields : Interpreter.Relabels id .same id
      (Interpreter.plain.defineFields limits fields)
      (Interpreter.plain.defineFields limits fields) := by
    have hrelabels : Interpreter.Relabels id .same id
        (Interpreter.plain.defineFields limits fields)
        (Interpreter.plain.defineFields limits (fields.map (Field.relabel id .same))) :=
      (Interpreter.likeness_relabel Naming.faithful_same).defineFields limits fields
        fun _ _ _ _ => trivial
    have hsame : Field.relabel id .same = id := funext Field.relabel_id_same
    rwa [hsame, List.map_id] at hrelabels
  have hmain : Interpreter.Relabels id .same id (Interpreter.plain.runMain limits)
      (Interpreter.plain.runMain limits) := by
    refine (Interpreter.relabels_findMain Naming.faithful_same).bind fun main => ?_
    rw [Callee.relabel_id]
    exact Interpreter.relabels_call_same limits main []
  unfold Interpreter.program
  refine hfields.bind fun _ => (simulates_defineMethods hperm hkeys).bind fun _ => ?_
  refine hmain.bind fun result => ?_
  exact (Interpreter.relabels_inRange result.display).bind fun _ => .pure result

/-- Programs with the same methods in another order end alike on a machine and print the
same. -/
theorem execute_perm (session : Session) (limits : Limits) (fields : List (Field Offset))
    {methods methods' : List (Method Offset)} (hperm : methods.Perm methods')
    (hkeys : (methods.map Method.calledBy).Nodup) :
    (session.execute limits ⟨fields, methods'⟩).1 = (session.execute limits ⟨fields, methods⟩).1
      ∧ (session.execute limits ⟨fields, methods'⟩).2.output
        = (session.execute limits ⟨fields, methods⟩).2.output := by
  have hself : session.quiet.machine.Relabelled id .same session.quiet.machine := by
    refine ⟨?_, rfl, rfl, rfl⟩
    rw [Callee.relabel_eq_id]
    exact Arena.SameBindings.refl _
  have hprogram := simulates_program limits fields hperm hkeys _ _ hself
  unfold Session.execute Session.ran
  cases hresult : Interpreter.plain.program limits ⟨fields, methods⟩ session.quiet.machine with
  | ok value machine =>
      rw [hresult] at hprogram
      obtain ⟨machine', hprogram', hmachine⟩ := hprogram
      rw [hprogram']
      exact ⟨rfl, hmachine.output⟩
  | error stop machine =>
      rw [hresult] at hprogram
      obtain ⟨stop', machine', hprogram', hstop, hmachine⟩ := hprogram
      rw [hprogram', hstop.eq]
      exact ⟨rfl, hmachine.output⟩

/-! ### Any order -/

/-- A session between programs has the program's scope. -/
theorem size_pos_of_atRest {session : Session} (h : session.AtRest) : 0 < session.symbols.size := by
  have hlength := length_parents session.symbols
  rw [h.symbols] at hlength
  rw [← hlength]
  decide

/-- A session accepts a program if the checker does with the session's types and
symbols. -/
theorem check_ok_iff {session : Session} {program : Program Offset} :
    (∃ checked, (session.check program).1 = .ok checked)
      ↔ ∃ checked after, plain.program session.types program session.symbols
        = .ok checked after := by
  unfold Session.check Session.checked
  cases plain.program session.types program session.symbols with
  | ok checked after => simp
  | error e after => simp

/-- The methods of a program that is accepted have different names and arities. -/
theorem nodup_calledBy_of_check {session : Session} (hrest : session.AtRest)
    {fields : List (Field Offset)} {methods : List (Method Offset)}
    (hlengths : ∀ method ∈ methods, method.parameters.length = method.parameterTypes.length)
    (hcheck : ∃ checked, (session.check ⟨fields, methods⟩).1 = .ok checked) :
    (methods.map Method.calledBy).Nodup := by
  obtain ⟨_, _, _, pairs, rfl, hchecks⟩ :=
    (program_ok_iff (size_pos_of_atRest hrest) hlengths).mp (check_ok_iff.mp hcheck)
  rw [← map_key_eq hchecks.declares hlengths]
  exact hchecks.distinct

/-- A text may have its methods in any order. A session between programs, in which other
programs may have been checked and run and the host may have bound what it likes, accepts
the program in the one order if and only if it accepts it in the other. And if it does,
then a run of the one on whatever machine there is prints what a run of the other prints
there, and ends with the same value or in the same fault.

Runs are compared under all limits. So one that reaches no end under any limit has a
counterpart that reaches none. -/
theorem method_order_means_nothing {session : Session} (hrest : session.AtRest) {text : String}
    {program : Program Offset} (hread : readProgram text = .ok program)
    {methods : List (Method Offset)} (hperm : methods.Perm program.methods) :
    ((∃ checked, (session.check program).1 = .ok checked)
        ↔ ∃ checked, (session.check ⟨program.fields, methods⟩).1 = .ok checked)
      ∧ ((∃ checked, (session.check program).1 = .ok checked) →
        ∀ (runner : Session) (limits : Limits),
          (runner.execute limits ⟨program.fields, methods⟩).1 = (runner.execute limits program).1
            ∧ (runner.execute limits ⟨program.fields, methods⟩).2.output
              = (runner.execute limits program).2.output) := by
  have hlengths := (spoken_of_readProgram hread).parameters
  have hlengths' : ∀ method ∈ methods,
      method.parameters.length = method.parameterTypes.length :=
    fun method hmethod => hlengths method (hperm.mem_iff.mp hmethod)
  have hsize := size_pos_of_atRest hrest
  constructor
  · rw [check_ok_iff, check_ok_iff]
    exact ⟨program_ok_perm hsize hlengths hperm, program_ok_perm hsize hlengths' hperm.symm⟩
  · intro hcheck runner limits
    exact execute_perm runner limits program.fields hperm.symm
      (nodup_calledBy_of_check hrest hlengths hcheck)

/-- So it is with two methods that call each other, one of which the program starts with:
in either order the program is accepted, and a run of it goes on until it is cut off. -/
theorem method_order_means_nothing_in_recursion :
    ∃ f main : Method Offset,
      readProgram "DEF f() DO main(); END DEF main(): Integer DO f(); END" = .ok ⟨[], [f, main]⟩
        ∧ (∃ checked, (Session.initial.check ⟨[], [main, f]⟩).1 = .ok checked)
        ∧ ∀ limits, (Session.initial.execute limits ⟨[], [main, f]⟩).1
          = (Session.initial.execute limits ⟨[], [f, main]⟩).1 := by
  have hlex : tokenize "DEF f() DO main(); END DEF main(): Integer DO f(); END" = .ok
      [⟨.identifier, "DEF", 0⟩, ⟨.identifier, "f", 4⟩, ⟨.operator, "(", 5⟩, ⟨.operator, ")", 6⟩,
        ⟨.identifier, "DO", 8⟩, ⟨.identifier, "main", 11⟩, ⟨.operator, "(", 15⟩,
        ⟨.operator, ")", 16⟩, ⟨.operator, ";", 17⟩, ⟨.identifier, "END", 19⟩,
        ⟨.identifier, "DEF", 23⟩, ⟨.identifier, "main", 27⟩, ⟨.operator, "(", 31⟩,
        ⟨.operator, ")", 32⟩, ⟨.operator, ":", 33⟩, ⟨.identifier, "Integer", 35⟩,
        ⟨.identifier, "DO", 43⟩, ⟨.identifier, "f", 46⟩, ⟨.operator, "(", 47⟩,
        ⟨.operator, ")", 48⟩, ⟨.operator, ";", 49⟩, ⟨.identifier, "END", 51⟩] := by
    rfl
  let f : Method Offset := ⟨0, "f", [], [], none, [.expression 11 (.call 11 "main" [])]⟩
  let main : Method Offset :=
    ⟨23, "main", [], [], some "Integer", [.expression 46 (.call 46 "f" [])]⟩
  have hread : readProgram "DEF f() DO main(); END DEF main(): Integer DO f(); END"
      = .ok ⟨[], [f, main]⟩ :=
    readProgram_eq_ok hlex rfl
  have hrest : Session.initial.AtRest := ⟨rfl, rfl⟩
  have hcheck : ∃ checked, (Session.initial.check ⟨[], [f, main]⟩).1 = .ok checked := ⟨_, rfl⟩
  obtain ⟨haccepts, hruns⟩ := method_order_means_nothing hrest hread (List.Perm.swap f main [])
  exact ⟨f, main, hread, haccepts.mp hcheck, fun limits =>
    (hruns hcheck Session.initial limits).1⟩

end Proofs

end PlcLang
