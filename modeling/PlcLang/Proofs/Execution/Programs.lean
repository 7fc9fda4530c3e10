import PlcLang.Proofs.Execution.Preservation
import PlcLang.Proofs.Typing.Acceptance

/-!
# `PlcLang.Proofs.Execution.Programs`: whole programs keep the agreement

A run goes over a program in the order of the checker: the fields, which may call no method
yet, then the definition of the methods, and then the method to start with, which is there
because the checker asks for it (`program_agrees`).
-/

set_option autoImplicit false

namespace PlcLang.Proofs

open Interpreter

/-- Among the program's own names nothing else is seen. -/
theorem AtRoot.standing {frame : Frame VariableSymbol FunctionSymbol} {symbols : Symbols}
    (h : AtRoot frame symbols) : Standing frame symbols 0 [frame] :=
  ⟨h.ordered, h.size.symm, h.chain, h.chain⟩

/-! ### Headers -/

/-- A function that is bound stays bound: the methods have other names or arities. -/
theorem TypedHeaders.get?_of_get? {frame frame' : Frame VariableSymbol FunctionSymbol}
    {methods : List (Method Sight)} (h : TypedHeaders frame methods frame') {key : FunctionKey}
    {symbol : FunctionSymbol} (hget : frame.functionTable.get? key = some symbol) :
    frame'.functionTable.get? key = some symbol := by
  induction h with
  | nil => exact hget
  | @cons frame _ _ other _ _ _ hnew _ _ ih =>
      refine ih ?_
      rw [Frame.setFunction, Bindings.get?_set, if_neg]
      · exact hget
      · intro heq
        rw [beq_iff_eq] at heq
        subst heq
        rw [Bindings.contains, hget] at hnew
        cases hnew

/-- In the end every method is bound by its name and arity, to the symbol that was
noted of it. -/
theorem TypedHeaders.exists_get? {frame frame' : Frame VariableSymbol FunctionSymbol}
    {methods : List (Method Sight)} (h : TypedHeaders frame methods frame') {method : Method Sight}
    (hmethod : method ∈ methods) :
    ∃ symbol, method.mark.note.symbol = some (.function symbol)
      ∧ symbol.offset = some method.mark.offset
      ∧ symbol.key = (method.name, method.parameters.length)
      ∧ frame'.functionTable.get? (method.name, method.parameters.length) = some symbol := by
  induction h with
  | nil => simp at hmethod
  | @cons frame _ first symbol _ hsymbol harity _ hoffset hrest ih =>
      rcases List.mem_cons.mp hmethod with rfl | hmethod
      · refine ⟨symbol, hsymbol, hoffset, harity, hrest.get?_of_get? ?_⟩
        rw [Frame.setFunction, Bindings.get?_set, ← harity, if_pos (by simp)]
      · exact ih hmethod

namespace Expectation

variable {x : Expectation} {symbols : Symbols} {scene : Scene Sight}

/-- The expectation when the methods of the program may be called: those that are
typed, permitted, and the ones that their symbols declare. -/
def calling (x : Expectation) (program : Frame VariableSymbol FunctionSymbol) : Expectation :=
  { x with
    allowed := fun symbol m => m ∈ x.methods ∧ TypedMethod program symbol m
      ∧ symbol.offset = some m.mark.offset ∧ x.PermitsMethod m }

/-- What may be called then is typed. -/
theorem methodsTyped_calling (x : Expectation)
    (program : Frame VariableSymbol FunctionSymbol) :
    (x.calling program).MethodsTyped program :=
  fun _ _ ⟨hmem, htyped, hoffset, hpermits⟩ =>
    ⟨htyped, ⟨hmem, htyped.noted.symbol, hoffset⟩, hpermits⟩

/-- As long as no method is bound, all of them may be allowed for: what the machine
binds does not change. -/
theorem Agrees.calling (h : x.Agrees symbols scene) (hnone : ∀ symbol m, ¬ x.allowed symbol m)
    (program : Frame VariableSymbol FunctionSymbol) :
    (x.calling program).Agrees symbols scene := by
  refine ⟨h.scopes.imp fun frame frame' hframe => ⟨hframe.onVariables, fun key => ?_⟩, h.events⟩
  have hfunction := hframe.onFunctions key
  revert hfunction
  cases frame.functionTable.get? key <;> cases frame'.functionTable.get? key <;>
    intro hfunction
  · exact .none
  · cases hfunction
  · cases hfunction
  · next symbol callee =>
      cases hfunction with
      | some hcallee =>
          cases callee with
          | method m => exact absurd hcallee (hnone symbol m)
          | print => exact .some hcallee
          | host run => exact .some hcallee

/-! ### Fields and methods -/

/-- The fields get their values one after the other. They call no method, since none
is allowed for yet. -/
theorem defineFields_agrees (hx : x.Sound) (hnone : ∀ symbol m, ¬ x.allowed symbol m)
    (limits : Limits) {frame frame' : Frame VariableSymbol FunctionSymbol}
    {fields : List (Field Sight)} (hfields : TypedFields frame fields frame')
    (hpermits : ∀ field ∈ fields, x.Permits field.exprs [field.declaration])
    (hroot : AtRoot frame symbols) (h : x.Agrees symbols scene) :
    Yields (sighted.defineFields limits fields) scene
      (fun _ after => ∃ symbols', AtRoot frame' symbols' ∧ x.Agrees symbols' after) x.Failed := by
  induction hfields generalizing symbols scene with
  | nil =>
      unfold defineFields
      exact Yields.pure ⟨symbols, hroot, h⟩
  | @cons frame last m d symbol rest _ hname _ hd _ ih =>
      obtain ⟨hfield, hrest⟩ := List.forall_mem_cons.mp hpermits
      -- However a field comes by its value, it is bound in the root and the rest goes on from
      -- there.
      have hbind {v : Value} {middle : Scene Sight} (hv : x.good symbol.type v)
          (hmiddle : x.Agrees symbols middle) : Yields
          (do
            sighted.bind Arena.root d.name v
            sighted.defineFields limits rest) middle
          (fun _ after => ∃ symbols', AtRoot last symbols' ∧ x.Agrees symbols' after) x.Failed := by
        refine (bind_agrees symbol hmiddle hv).bind fun _ after hafter => ?_
        refine ih hrest (hroot.grown (.bindVariable Arena.root symbols d.name symbol) ?_) hafter
        rw [hname]
        exact Arena.chain_bindVariable hroot.ordered hroot.chain d.name symbol
      have hmethods : x.MethodsTyped frame := fun symbol m hm => absurd hm (hnone symbol m)
      obtain ⟨heval, -⟩ := run_agrees hx hmethods limits.rounds limits.depth
      unfold defineFields
      cases hd with
      | declared =>
          exact hbind (hfield.initial _ (List.mem_singleton_self _) rfl symbol.type) h
      | @inferred _ value _ hvalue =>
          have hinitial : x.Permits value.subs [] := hfield.mono (List.Subset.refl _) (by simp)
          exact (heval hroot.standing hvalue hinitial h).bind fun v middle hv =>
            hbind hv.1 hv.2
      | @both _ _ value _ _ hvalue =>
          have hinitial : x.Permits value.subs [] := hfield.mono (List.Subset.refl _) (by simp)
          exact (heval.as hx hroot.standing hvalue hinitial h).bind fun v middle hv =>
            hbind hv.1 hv.2

/-- The methods are bound one after the other, each under the key of its symbol. -/
theorem defineMethods_agrees {frame frame' : Frame VariableSymbol FunctionSymbol}
    {methods : List (Method Sight)} (hheaders : TypedHeaders frame methods frame')
    (hallowed : ∀ method ∈ methods, ∀ symbol,
      method.mark.note.symbol = some (.function symbol) →
        symbol.offset = some method.mark.offset → x.allowed symbol method)
    (hroot : AtRoot frame symbols) (h : x.Agrees symbols scene) :
    Yields (methods.forM sighted.defineMethod) scene
      (fun _ after => ∃ symbols', AtRoot frame' symbols' ∧ x.Agrees symbols' after) x.Failed := by
  induction hheaders generalizing symbols scene with
  | nil => exact Yields.pure ⟨symbols, hroot, h⟩
  | @cons frame _ method symbol rest hsymbol harity _ hoffset _ ih =>
      obtain ⟨hfirst, hrest⟩ := List.forall_mem_cons.mp hallowed
      have hdefine : Yields (sighted.defineMethod method) scene
          (fun _ after => x.Agrees (symbols.bindFunction Arena.root symbol.key symbol) after)
          x.Failed := by
        rw [harity]
        exact ⟨h.scopes.modify (fun _ => rfl) (fun _ => rfl) fun _ _ _ _ hframe =>
          hframe.setFunction (hfirst symbol hsymbol hoffset), h.events⟩
      refine hdefine.bind fun _ after hafter => ?_
      refine ih hrest (hroot.grown ⟨(·.setFunction symbol.key symbol), fun _ => rfl, rfl⟩ ?_) hafter
      exact Arena.chain_bindFunction hroot.ordered hroot.chain symbol.key symbol

/-- The method to start with is bound to what its symbol says. The checker has asked
for it. -/
theorem findMain_agrees {frame : Frame VariableSymbol FunctionSymbol} {symbol : FunctionSymbol}
    (h : x.Agrees symbols scene) (hroot : AtRoot frame symbols)
    (hget : frame.functionTable.get? ("main", 0) = some symbol) :
    Yields sighted.findMain scene
      (fun callee after => x.GoodCallee symbol callee ∧ x.Agrees symbols after) x.Failed := by
  have hcallee := nearestFunction_good (h.scopes.chain Arena.root) ("main", 0)
  have hnearest : nearestFunction? ("main", 0) [frame] = some symbol := by
    rw [nearestFunction?, List.findSome?_cons, hget]
  rw [hroot.chain, hnearest, ← boundFunction?_eq] at hcallee
  refine Yields.get_bind ?_
  rw [watched_machine]
  revert hcallee
  cases scene.scopes.boundFunction? Arena.root ("main", 0) with
  | none => intro hcallee; cases hcallee
  | some callee =>
      intro hcallee
      cases hcallee with
      | some hcallee => exact Yields.pure ⟨hcallee, h⟩

/-- A run of a typed and permitted program ends with a value that is good for an integer, or
stops as it may, and everything on the way is as expected. -/
theorem program_agrees (hx : x.Sound) (hnone : ∀ symbol m, ¬ x.allowed symbol m)
    (limits : Limits) {before between frame : Frame VariableSymbol FunctionSymbol}
    {tree : Program Sight} (hmethods : x.methods = tree.methods)
    (htree : TypedProgram before between frame tree) (hpermits : x.PermitsProgram tree)
    (hroot : AtRoot before symbols) (h : x.Agrees symbols scene) :
    Yields (sighted.program limits tree) scene
      (fun v after => x.good .integer v ∧ ∀ event ∈ after.events, x.Fine event) x.Failed := by
  unfold program
  have hfields : ∀ field ∈ tree.fields, x.Permits field.exprs [field.declaration] :=
    fun _ hfield => hpermits.field hfield
  refine (defineFields_agrees hx hnone limits htree.fields hfields hroot h).bind
    fun _ ready ⟨symbols₁, hroot₁, hready⟩ => ?_
  have hallowed : ∀ method ∈ tree.methods, ∀ symbol,
      method.mark.note.symbol = some (.function symbol) →
        symbol.offset = some method.mark.offset → (x.calling frame).allowed symbol method := by
    intro method hmethod symbol hsymbol hoffset
    obtain ⟨noted, htyped⟩ := htree.bodies method hmethod
    have heq := hsymbol.symm.trans htyped.noted.symbol
    cases heq
    exact ⟨hmethods ▸ hmethod, htyped, hoffset, hpermits.method hmethod⟩
  refine (defineMethods_agrees htree.headers hallowed hroot₁ (hready.calling hnone frame)).bind
    fun _ defined ⟨symbols₂, hroot₂, hdefined⟩ => ?_
  -- The method to start with is the one that the checker has found.
  obtain ⟨main, hmain, symbol, hname, hparameters, hsymbol, hresult⟩ := htree.main
  obtain ⟨noted, hnoted, hoffset, hkey, hget⟩ := htree.headers.exists_get? hmain
  have heq := hsymbol.symm.trans hnoted
  cases heq
  rw [hname, hparameters] at hget hkey
  have hvalues : List.Forall₂ x.good symbol.parameters [] := by
    rw [List.length_eq_zero_iff.mp (congrArg Prod.snd hkey : symbol.parameters.length = 0)]
    exact .nil
  have hcalling := x.methodsTyped_calling frame
  have hsound : (x.calling frame).Sound := hx
  obtain ⟨-, hexec⟩ := run_agrees hsound hcalling limits.rounds limits.depth
  have hrun : Yields (sighted.runMain limits) defined
      (fun v after => x.good symbol.result v ∧ (x.calling frame).Agrees symbols₂ after) x.Failed :=
    (findMain_agrees hdefined hroot₂ hget).bind fun callee found hfound =>
      call_agrees hsound hcalling hexec hroot₂.standing hfound.1 hvalues hfound.2
  refine hrun.bind fun v after hv => ?_
  -- What is written out at the end may have too many digits.
  refine (display_agrees hsound hv.2 v).bind fun _ last hlast => ?_
  rw [hresult] at hv
  exact Yields.pure ⟨hv.1, hlast.events⟩

end Expectation

end PlcLang.Proofs
