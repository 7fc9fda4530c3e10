import PlcLang.Proofs.Execution.Agreement

/-!
# `PlcLang.Proofs.Execution.Preservation`: typed trees keep the agreement

A run of a typed and permitted tree keeps machine and symbols in agreement. The symbols play the
interpreter's part without the values: a block, a round of a loop and a call push a scope
in both arenas and release it in both, so that whatever happens in between the symbols are
again those from before. A statement of a block adds to the scope of the block what the
typing rules add to the context.

The proof is by induction on how deep the evaluation may nest (`run_agrees`), with a lemma
for each part of the interpreter.
-/

set_option autoImplicit false

namespace PlcLang.Proofs

open Interpreter

/-- Where in the arena the symbols are that a node sees: in its context `Γ`, which is that
of the scope on top, and above the frame of the program. -/
structure Standing (program : Frame VariableSymbol FunctionSymbol) (symbols : Symbols)
    (scope : Nat) (Γ : Context) : Prop where
  ordered : symbols.Ordered
  top : scope + 1 = symbols.size
  chain : symbols.chain scope = Γ
  root : symbols.chain Arena.root = [program]

/-- Of every typed expression its type was noted. -/
theorem TypedExpr.noted {Γ : Context} {e : Expr Sight} {type : Ty} (h : TypedExpr Γ e type) :
    ∃ symbol, Noted Γ (some type) symbol e.mark := by
  cases h <;> exact ⟨_, ‹_›⟩

/-- Of every typed statement the context was noted. -/
theorem TypedStmt.noted {returnType : Ty} {Γ Γ' : Context} {s : Stmt Sight}
    (h : TypedStmt returnType Γ s Γ') : ∃ symbol, Noted Γ none symbol s.mark := by
  cases h <;> exact ⟨_, ‹_›⟩

namespace Standing

variable {program frame : Frame VariableSymbol FunctionSymbol} {symbols symbols' : Symbols}
  {scope : Nat} {Γ Γ' : Context}

/-- What a statement adds to the scope on top does not show below it. -/
theorem grown (h : Standing program symbols scope Γ) (hpos : 0 < scope)
    (hgrown : Grown scope symbols symbols') (hchain : symbols'.chain scope = Γ') :
    Standing program symbols' scope Γ' := by
  refine ⟨hgrown.ordered h.ordered, by rw [hgrown.size_eq, h.top], hchain, ?_⟩
  obtain ⟨f, -, rfl⟩ := hgrown
  have hroot : (symbols.modify scope f).chain 0 = symbols.chain 0 :=
    Arena.chain_modify_of_lt h.ordered hpos
  exact hroot.trans h.root

/-- A variable that is bound in the scope on top is in the frame on top. -/
theorem bindVariable (h : Standing program symbols scope (frame :: Γ)) (hpos : 0 < scope)
    (name : String) (symbol : VariableSymbol) :
    Standing program (symbols.bindVariable scope name symbol) scope
      (frame.setVariable name symbol :: Γ) :=
  h.grown hpos (.bindVariable scope symbols name symbol)
    (Arena.chain_bindVariable h.ordered h.chain name symbol)

/-- A fresh scope below any other is on top, and sees what that one sees. -/
theorem push (h : Standing program symbols scope Γ) {parent : Nat}
    (hparent : parent < symbols.size) :
    Standing program (symbols.push parent) symbols.size (.empty :: symbols.chain parent) := by
  refine ⟨h.ordered.push hparent, (Arena.size_push symbols parent).symm,
    Arena.chain_push h.ordered hparent, ?_⟩
  have hpos : 0 < symbols.size := by omega
  have hroot : (symbols.push parent).chain 0 = symbols.chain 0 :=
    Arena.chain_push_of_lt h.ordered hpos
  exact hroot.trans h.root

end Standing

namespace Expectation

variable {x : Expectation} {symbols : Symbols} {scene : Scene Sight} {Γ : Context} {β : Type}

/-! ### Notes -/

/-- What is noted is to be as expected, and the machine stays as it is. -/
theorem note_agrees {event : Event Sight} {k : Unit → Watch Sight β}
    {Q : β → Scene Sight → Prop} (h : x.Agrees symbols scene) (hevent : x.Fine event)
    (hk : ∀ after, x.Agrees symbols after → Yields (k ()) after Q x.Failed) :
    Yields (note event >>= k) scene Q x.Failed :=
  hk _ ⟨h.scopes, List.forall_mem_cons.mpr ⟨hevent, h.events⟩⟩

/-- The frames that are seen at run time bind the names of those that the checker
saw. -/
theorem sameNames_chain (h : x.Agrees symbols scene) {scope : Nat} {mark : Sight}
    (hmark : mark.chain = symbols.chain scope) :
    List.Forall₂ Frame.SameNames mark.chain (scene.scopes.chain scope) := by
  rw [hmark]
  exact (h.scopes.chain scope).imp fun _ _ hframe => hframe.sameNames

/-- A node that is come upon is seen from the frames that the checker saw there. -/
theorem noteEnter_agrees {mark : Sight} {scope : Nat} {k : Unit → Watch Sight β}
    {Q : β → Scene Sight → Prop} (h : x.Agrees symbols scene)
    (hmark : mark.chain = symbols.chain scope)
    (hk : ∀ after, x.Agrees symbols after → Yields (k ()) after Q x.Failed) :
    Yields (noteEnter mark scope >>= k) scene Q x.Failed :=
  note_agrees h ⟨sameNames_chain h hmark, trivial⟩ hk

/-- The level at which a variable is found is that of the frame with its symbol. -/
theorem noteAccess_agrees {mark : Sight} {name : String} {symbol : VariableSymbol}
    {type : Option Ty} {scope : Nat} {k : Unit → Watch Sight β} {Q : β → Scene Sight → Prop}
    (h : x.Agrees symbols scene) (hm : Noted Γ type (some (.variable symbol)) mark)
    (hchain : symbols.chain scope = Γ) (hsymbol : nearestVariable? name Γ = some symbol)
    (hk : ∀ after, x.Agrees symbols after → Yields (k ()) after Q x.Failed) :
    Yields (noteAccess mark name scope >>= k) scene Q x.Failed := by
  have hnames := sameNames_chain h (hm.chain.trans hchain.symm)
  obtain ⟨level, frame, hlevel, hframe, hget⟩ := exists_level?_of_nearestVariable? hsymbol
  rw [← hm.chain] at hlevel hframe
  have hlevel' : level? name (scene.scopes.chain scope) = some level :=
    (level?_eq_of_sameNames hnames name).trans hlevel
  exact note_agrees h
    ⟨⟨level, frame, symbol, hlevel, hlevel', hframe, hget, hm.symbol⟩, trivial⟩ hk

/-- The value of an expression is noted, and it is good for the type that was noted. -/
theorem answer_agrees {mark : Sight} {type : Ty} {y : Watch Sight Value}
    (hmark : mark.note.type = some type)
    (hy : Yields y scene (fun v after => x.good type v ∧ x.Agrees symbols after) x.Failed) :
    Yields (answer mark y) scene
      (fun v after => x.good type v ∧ x.Agrees symbols after) x.Failed := by
  refine hy.bind fun v after hafter => ?_
  refine note_agrees hafter.2 ⟨trivial, type, hmark, hafter.1⟩ fun last hlast => ?_
  exact Yields.pure ⟨hafter.1, hlast⟩

/-! ### Variables and scopes -/

/-- A variable is bound to a good value in both arenas. -/
theorem bind_agrees {name : String} {v : Value} {scope : ScopeId} (symbol : VariableSymbol)
    (h : x.Agrees symbols scene) (hv : x.good symbol.type v) :
    Yields (sighted.bind scope name v) scene
      (fun _ after => x.Agrees (symbols.bindVariable scope name symbol) after) x.Failed :=
  ⟨h.scopes.modify (fun _ => rfl) (fun _ => rfl) fun _ _ _ _ hframe => hframe.setVariable hv,
    h.events⟩

/-- The value that is read is good for the type of the symbol. -/
theorem readVariable_agrees {mark : Sight} {name : String} {symbol : VariableSymbol}
    {type : Option Ty} {scope : Nat} (h : x.Agrees symbols scene)
    (hm : Noted Γ type (some (.variable symbol)) mark) (hchain : symbols.chain scope = Γ)
    (hsymbol : nearestVariable? name Γ = some symbol) :
    Yields (sighted.readVariable scope name mark) scene
      (fun v after => x.good symbol.type v ∧ x.Agrees symbols after) x.Failed := by
  refine noteAccess_agrees h hm hchain hsymbol fun after hafter => ?_
  have hvalue := nearestVariable_good (hafter.scopes.chain scope) name
  rw [hchain, hsymbol, ← boundVariable?_eq] at hvalue
  refine Yields.get_bind ?_
  rw [watched_machine]
  revert hvalue
  cases after.scopes.boundVariable? scope name with
  | none => intro hvalue; cases hvalue
  | some v =>
      intro hvalue
      cases hvalue with
      | some hv => exact Yields.pure ⟨hv, hafter⟩

/-- A frame stays good when a variable that it binds gets another good value. -/
theorem GoodFrame.setVariable_right {frame : Frame VariableSymbol FunctionSymbol}
    {frame' : Frame Value (Callee Sight)} {name : String} {symbol : VariableSymbol} {v : Value}
    (h : x.GoodFrame frame frame') (hsymbol : frame.variableTable.get? name = some symbol)
    (hv : x.good symbol.type v) : x.GoodFrame frame (frame'.setVariable name v) := by
  refine ⟨fun other => ?_, h.onFunctions⟩
  rw [Frame.setVariable, Bindings.get?_set]
  split
  · next heq =>
      obtain rfl : other = name := by simpa using heq
      rw [hsymbol]
      exact .some hv
  · exact h.onVariables other

/-- A good value may be written, and the symbols stay as they are. -/
theorem writeVariable_agrees {mark : Sight} {name : String} {symbol : VariableSymbol}
    {type : Option Ty} {v : Value} {scope : Nat} (h : x.Agrees symbols scene)
    (hm : Noted Γ type (some (.variable symbol)) mark) (hchain : symbols.chain scope = Γ)
    (hsymbol : nearestVariable? name Γ = some symbol) (hv : x.good symbol.type v) :
    Yields (sighted.writeVariable scope name v mark) scene
      (fun _ after => x.Agrees symbols after) x.Failed := by
  refine noteAccess_agrees h hm hchain hsymbol fun after hafter => ?_
  have howner : after.scopes.ownerOfVariable? scope name = symbols.ownerOfVariable? scope name :=
    hafter.scopes.ownerOfVariable? (fun _ _ hframe => hframe.sameNames.onVariables) scope name
  have hspec := ownerOfVariable?_spec symbols scope name
  rw [hchain, hsymbol] at hspec
  refine Yields.get_bind ?_
  rw [watched_machine, howner]
  cases hfound : symbols.ownerOfVariable? scope name with
  | none =>
      rw [hfound] at hspec
      cases hspec
  | some owner =>
      rw [hfound] at hspec
      obtain ⟨s, found, hscope, hget, heq⟩ := hspec
      cases heq
      -- The symbols stay as they are; only the machine has another value.
      refine ⟨hafter.scopes.modify_right (fun _ => rfl) fun s' _ hs' _ hframe => ?_,
        hafter.events⟩
      rw [hscope] at hs'
      cases hs'
      exact hframe.setVariable_right hget hv

/-- What is run in a scope of its own leaves the agreement as it was. The scope is
pushed in both arenas before and released in both after it. -/
theorem withScope_agrees {current : ScopeId} {parent : Nat}
    {body : ScopeId → Watch Sight β} {Q : β → Prop}
    (h : x.Agrees symbols scene) (hparent : parent < symbols.size)
    (hbody : ∀ pushed, x.Agrees (symbols.push parent) pushed →
      Yields (body symbols.size) pushed (fun a after => Q a ∧ ∃ symbols',
        Grown symbols.size (symbols.push parent) symbols' ∧ x.Agrees symbols' after) x.Failed) :
    Yields (sighted.withScope current parent body) scene
      (fun a after => Q a ∧ x.Agrees symbols after) x.Failed := by
  have hroot : symbols.size ≠ Arena.root := by
    intro heq
    rw [heq] at hparent
    exact Nat.not_lt_zero parent hparent
  have hpushed := hbody { scene with toMachineOf := scene.toMachineOf.enter parent }
    ⟨h.scopes.push .empty, h.events⟩
  unfold Yields at hpushed ⊢
  rw [withScope_apply sighted (fun _ _ => rfl) (fun _ => rfl), watched_machine, watched_update,
    ← h.scopes.size_eq]
  cases hrun : body symbols.size
      { scene with toMachineOf := scene.toMachineOf.enter parent } with
  | error e after =>
      rw [hrun] at hpushed
      exact ⟨hpushed.1, hpushed.2⟩
  | ok a after =>
      rw [hrun] at hpushed
      obtain ⟨hQ, _, ⟨f, -, rfl⟩, hafter⟩ := hpushed
      -- The block has grown its own scope only, so releasing it gives back the symbols from
      -- before.
      have hrelease : Arena.Corresponds x.GoodFrame
          ((Arena.release _ symbols.size).toOption.getD _)
          ((after.scopes.release symbols.size).toOption.getD after.scopes) :=
        hafter.scopes.release
      rw [Arena.release_modify_push symbols parent f hroot] at hrelease
      exact ⟨hQ, hrelease, hafter.events⟩

/-! ### What a value must be -/

/-- A value that is good for booleans is a truth value, or the run stops as it may. -/
theorem requireBoolean_agrees (hx : x.Sound) (h : x.Agrees symbols scene) {v : Value}
    (hv : x.good .boolean v) (offset : Offset) :
    Yields (sighted.requireBoolean v offset) scene (fun _ after => x.Agrees symbols after)
      x.Failed := by
  unfold requireBoolean
  cases v with
  | boolean truth => exact Yields.pure h
  | _ => exact Yields.throw ⟨hx.condition hv (by simp) _, h.events⟩

/-- A value that is good for sequences has elements that are good, or the run stops
as it may. -/
theorem requireSequence_agrees (hx : x.Sound) (h : x.Agrees symbols scene) {v : Value}
    (hv : x.good .integerIterable v) (offset : Offset) :
    Yields (sighted.requireSequence v offset) scene
      (fun elements after => (∀ element ∈ elements, x.good .integer element)
        ∧ x.Agrees symbols after) x.Failed := by
  unfold requireSequence
  cases v with
  | sequence elements => exact Yields.pure ⟨hx.elements hv, h⟩
  | _ => exact Yields.throw ⟨hx.iterated hv (by simp) _, h.events⟩

/-- An operator makes a value that is good for its type, or the run stops as it may. -/
theorem applyOperator_agrees (hx : x.Sound) (h : x.Agrees symbols scene) {m : Sight}
    {op : BinaryOp} {left right : Expr Sight} {leftType rightType type : Ty} {v w : Value}
    (hop : OperatorType op leftType rightType type)
    (hoperands : x.operands op leftType rightType) (hor : op ≠ .or)
    (hleft : left.mark.note.type = some leftType) (hright : right.mark.note.type = some rightType)
    (hv : x.good leftType v) (hw : x.good rightType w) :
    Yields (sighted.applyOperator m op left.mark right.mark v w) scene
      (fun result after => x.good type result ∧ x.Agrees symbols after) x.Failed := by
  have hoperator := hx.operator hop hoperands hor hleft hright hv hw
  unfold applyOperator
  cases happly : op.apply v w with
  | ok result =>
      rw [happly] at hoperator
      exact Yields.pure ⟨hoperator, h⟩
  | error refusal =>
      rw [happly] at hoperator
      exact Yields.throw ⟨hoperator _, h.events⟩

/-! ### Functions -/

/-- What is found may be bound to the symbol that the checker found. -/
theorem findFunction_agrees {key : FunctionKey} {symbol : FunctionSymbol} {scope : Nat}
    (h : x.Agrees symbols scene) (hchain : symbols.chain scope = Γ)
    (hsymbol : nearestFunction? key Γ = some symbol) (offset : Offset) :
    Yields (sighted.findFunction scope key offset) scene
      (fun callee after => x.GoodCallee symbol callee ∧ x.Agrees symbols after) x.Failed := by
  have hcallee := nearestFunction_good (h.scopes.chain scope) key
  rw [hchain, hsymbol, ← boundFunction?_eq] at hcallee
  refine Yields.get_bind ?_
  rw [watched_machine]
  revert hcallee
  cases scene.scopes.boundFunction? scope key with
  | none => intro hcallee; cases hcallee
  | some callee =>
      intro hcallee
      cases hcallee with
      | some hcallee => exact Yields.pure ⟨hcallee, h⟩

/-- A function of the host answers with what is good for its result, or the run
stops as it may. -/
theorem callHost_agrees {run : HostFunction} {symbol : FunctionSymbol} {arguments : List Value}
    (h : x.Agrees symbols scene) (hrun : x.GoodCallee symbol (.host run)) :
    Yields (sighted.callHost run arguments) scene
      (fun v after => x.good symbol.result v ∧ x.Agrees symbols after) x.Failed := by
  have hresult := hrun.2 scene.heap arguments
  refine Yields.get_bind ?_
  rw [watched_machine]
  cases hanswer : run scene.heap arguments with
  | ok v =>
      rw [hanswer] at hresult
      exact Yields.pure ⟨hresult, h⟩
  | error e =>
      rw [hanswer] at hresult
      exact Yields.throw ⟨hresult, h.events⟩

/-- A value is written out, unless there is a number in it that cannot be. -/
theorem display_agrees (hx : x.Sound) (h : x.Agrees symbols scene) (v : Value) :
    Yields (sighted.inRange v.display) scene (fun _ after => x.Agrees symbols after)
      x.Failed := by
  cases htext : v.display with
  | ok text => exact Yields.pure h
  | error e => exact Yields.throw ⟨hx.number (proper_of_display_eq_error htext), h.events⟩

/-- Printing gives nil, and touches nothing that the symbols speak of. -/
theorem printLine_agrees (hx : x.Sound) (h : x.Agrees symbols scene) (arguments : List Value) :
    Yields (sighted.printLine arguments) scene
      (fun v after => v = .nil ∧ x.Agrees symbols after) x.Failed := by
  refine (display_agrees hx h _).bind fun text after hafter => ?_
  exact ⟨rfl, hafter.scopes, hafter.events⟩

/-! ### Runs that nest as deeply as allowed -/

variable (x) (program : Frame VariableSymbol FunctionSymbol) (rounds depth : Nat)

/-- Evaluating typed expressions keeps the agreement, and gives values that are
good. This is said of one depth, and `run_agrees` shows it of all. -/
def EvaluateAgrees : Prop :=
  ∀ {symbols : Symbols} {scope : Nat} {Γ : Context} {e : Expr Sight} {type : Ty}
    {scene : Scene Sight}, Standing program symbols scope Γ → TypedExpr Γ e type →
      x.Permits e.subs [] → x.Agrees symbols scene →
        Yields (sighted.evaluate rounds depth scope e) scene
          (fun v after => x.good type v ∧ x.Agrees symbols after) x.Failed

/-- Executing typed statements adds to the symbols what the rules add to the
context, and what is returned is good for the return type. -/
def ExecuteAgrees : Prop :=
  ∀ {returnType : Ty} {symbols : Symbols} {scope : Nat} {Γ Γ' : Context} {s : Stmt Sight}
    {scene : Scene Sight}, 0 < scope → Standing program symbols scope Γ →
      TypedStmt returnType Γ s Γ' → x.Permits s.exprs s.declarations →
      x.Agrees symbols scene →
        Yields (sighted.execute rounds depth scope s) scene
          (fun outcome after => (∀ v ∈ outcome, x.good returnType v)
            ∧ ∃ symbols', Grown scope symbols symbols' ∧ symbols'.chain scope = Γ'
              ∧ x.Agrees symbols' after) x.Failed

variable {x program rounds depth}

/-- A value is good for the type that is expected, if the expression's type fits. -/
theorem EvaluateAgrees.as (heval : x.EvaluateAgrees program rounds depth) (hx : x.Sound)
    {scope : Nat} {expected : Ty} {e : Expr Sight} (hstanding : Standing program symbols scope Γ)
    (he : TypedAs Γ expected e) (hpermits : x.Permits e.subs []) (h : x.Agrees symbols scene) :
    Yields (sighted.evaluate rounds depth scope e) scene
      (fun v after => x.good expected v ∧ x.Agrees symbols after) x.Failed := by
  obtain ⟨type, htyped, hfits⟩ := he
  exact (heval hstanding htyped hpermits h).mono fun v after hv => ⟨hx.fits hfits hv.1, hv.2⟩

/-- Arguments are evaluated one after the other, and are good for the parameters. -/
theorem EvaluateAgrees.arguments (heval : x.EvaluateAgrees program rounds depth)
    (hx : x.Sound) {scope : Nat} {parameters : List Ty} {arguments : List (Expr Sight)}
    (hstanding : Standing program symbols scope Γ)
    (harguments : TypedArguments Γ parameters arguments)
    (hpermits : x.Permits (Expr.subsAll arguments) []) (h : x.Agrees symbols scene) :
    Yields (arguments.mapM (sighted.evaluate rounds depth scope)) scene
      (fun values after => List.Forall₂ x.good parameters values ∧ x.Agrees symbols after)
      x.Failed := by
  induction arguments generalizing parameters scene with
  | nil =>
      cases harguments
      exact Yields.pure ⟨.nil, h⟩
  | cons argument rest ih =>
      cases harguments with
      | cons hargument hfits hrest =>
          rw [List.mapM_cons]
          have hfirst : x.Permits argument.subs [] :=
            hpermits.mono (by simp [Expr.subsAll]) (by simp)
          have hothers : x.Permits (Expr.subsAll rest) [] :=
            hpermits.mono (by simp [Expr.subsAll]) (by simp)
          refine (heval.as hx hstanding ⟨_, hargument, hfits⟩ hfirst h).bind fun v after hv => ?_
          refine (ih hrest hothers hv.2).bind fun values last hvalues => ?_
          exact Yields.pure ⟨.cons hv.1 hvalues.1, hvalues.2⟩

/-- The statements of a block run one after the other, until one returns. The
induction is on the rules for blocks. -/
theorem ExecuteAgrees.block (hexec : x.ExecuteAgrees program rounds depth) {returnType : Ty}
    {scope : Nat} {body : List (Stmt Sight)} {Γ' : Context} (hpos : 0 < scope)
    (hstanding : Standing program symbols scope Γ) (hbody : TypedBlock returnType Γ body Γ')
    (hpermits : x.Permits (Stmt.exprsAll body) (Stmt.declarationsAll body))
    (h : x.Agrees symbols scene) :
    Yields (runAll (sighted.execute rounds depth scope) body) scene
      (fun outcome after => (∀ v ∈ outcome, x.good returnType v)
        ∧ ∃ symbols', Grown scope symbols symbols' ∧ x.Agrees symbols' after) x.Failed := by
  induction body generalizing Γ symbols scene with
  | nil =>
      unfold runAll
      exact Yields.pure ⟨by simp, symbols, .refl scope symbols, h⟩
  | cons s rest ih =>
      cases hbody with
      | cons hs hrest =>
          unfold runAll
          have hfirst : x.Permits s.exprs s.declarations :=
            hpermits.mono (by simp [Stmt.exprsAll]) (by simp [Stmt.declarationsAll])
          have hothers : x.Permits (Stmt.exprsAll rest) (Stmt.declarationsAll rest) :=
            hpermits.mono (by simp [Stmt.exprsAll]) (by simp [Stmt.declarationsAll])
          refine (hexec hpos hstanding hs hfirst h).bind fun outcome after hafter => ?_
          obtain ⟨houtcome, symbols', hgrown, hchain, hagrees⟩ := hafter
          cases outcome with
          | some v => exact Yields.pure ⟨houtcome, symbols', hgrown, hagrees⟩
          | none =>
              refine (ih (hstanding.grown hpos hgrown hchain) hrest hothers hagrees).mono ?_
              rintro outcome last ⟨houtcome, symbols'', hgrown', hlast⟩
              exact ⟨houtcome, symbols'', hgrown.trans hgrown', hlast⟩

/-- A branch runs in a scope of its own, which is gone when it ends. -/
theorem ExecuteAgrees.branch (hexec : x.ExecuteAgrees program rounds depth) {returnType : Ty}
    {scope : Nat} {body : List (Stmt Sight)} {Γ' : Context}
    (hstanding : Standing program symbols scope Γ)
    (hbody : TypedBlock returnType (.empty :: Γ) body Γ')
    (hpermits : x.Permits (Stmt.exprsAll body) (Stmt.declarationsAll body))
    (h : x.Agrees symbols scene) :
    Yields
      (sighted.withScope scope scope fun inner =>
        runAll (sighted.execute rounds depth inner) body) scene
      (fun outcome after => (∀ v ∈ outcome, x.good returnType v) ∧ x.Agrees symbols after)
      x.Failed := by
  have hscope : scope < symbols.size := by have := hstanding.top; omega
  have hpushed := hstanding.push hscope
  rw [hstanding.chain] at hpushed
  exact withScope_agrees h hscope fun pushed hagrees =>
    hexec.block (by omega) hpushed hbody hpermits hagrees

/-- Each round of a loop over a sequence runs in a scope of its own, where its
variable is. The induction is on the elements. -/
theorem ExecuteAgrees.loop (hexec : x.ExecuteAgrees program rounds depth) {returnType : Ty}
    {scope : Nat} {name : String} {body : List (Stmt Sight)} {Γ' : Context}
    {elements : List Value} (hstanding : Standing program symbols scope Γ)
    (hbody : TypedBlock returnType
      (Frame.empty.setVariable name ⟨name, .integer, none⟩ :: Γ) body Γ')
    (hpermits : x.Permits (Stmt.exprsAll body) (Stmt.declarationsAll body))
    (helements : ∀ element ∈ elements, x.good .integer element) (h : x.Agrees symbols scene) :
    Yields
      (sighted.forEach scope name
        (fun inner => runAll (sighted.execute rounds depth inner) body)
        elements) scene
      (fun outcome after => (∀ v ∈ outcome, x.good returnType v) ∧ x.Agrees symbols after)
      x.Failed := by
  have hscope : scope < symbols.size := by have := hstanding.top; omega
  have hpushed := hstanding.push hscope
  rw [hstanding.chain] at hpushed
  induction elements generalizing scene with
  | nil =>
      unfold forEach
      exact Yields.pure ⟨by simp, h⟩
  | cons element rest ih =>
      obtain ⟨helement, hrest⟩ := List.forall_mem_cons.mp helements
      have hpos : 0 < symbols.size := by omega
      -- One round: its variable is bound in the new scope, and the block is run there. Afterwards
      -- the scope is left and the symbols are as before.
      have hround : Yields
          (sighted.withScope scope scope fun inner => do
            sighted.bind inner name element
            runAll (sighted.execute rounds depth inner) body) scene
          (fun outcome after => (∀ v ∈ outcome, x.good returnType v) ∧ x.Agrees symbols after)
          x.Failed := by
        refine withScope_agrees h hscope fun pushed hagrees => ?_
        refine (bind_agrees ⟨name, .integer, none⟩ hagrees helement).bind
          fun _ after hafter => ?_
        have hinner := hpushed.bindVariable hpos name ⟨name, .integer, none⟩
        refine (hexec.block hpos hinner hbody hpermits hafter).mono fun outcome last hlast => ?_
        obtain ⟨houtcome, symbols', hgrown, hagrees'⟩ := hlast
        exact ⟨houtcome, symbols', (Grown.bindVariable _ _ _ _).trans hgrown, hagrees'⟩
      unfold forEach
      refine hround.bind fun outcome after hafter => ?_
      cases outcome with
      | some v => exact Yields.pure hafter
      | none => exact ih hrest hafter.2

/-- A loop on a condition keeps what its test and its body keep. The induction is on
the rounds that are left. -/
theorem whileTrue_agrees (hx : x.Sound) {returnType : Ty} {test : Watch Sight Bool}
    {body : Watch Sight (Option Value)} {limit : Nat} (h : x.Agrees symbols scene)
    (htest : ∀ {scene}, x.Agrees symbols scene →
      Yields test scene (fun _ after => x.Agrees symbols after) x.Failed)
    (hbody : ∀ {scene}, x.Agrees symbols scene →
      Yields body scene (fun outcome after => (∀ v ∈ outcome, x.good returnType v)
        ∧ x.Agrees symbols after) x.Failed) :
    Yields (sighted.whileTrue test body limit) scene
      (fun outcome after => (∀ v ∈ outcome, x.good returnType v) ∧ x.Agrees symbols after)
      x.Failed := by
  induction limit generalizing scene with
  | zero =>
      unfold whileTrue
      exact Yields.throw ⟨hx.tooLong, h.events⟩
  | succ limit ih =>
      unfold whileTrue
      refine (htest h).bind fun truth after hafter => ?_
      cases truth with
      | false => exact Yields.pure ⟨by simp, hafter⟩
      | true =>
          refine (hbody hafter).bind fun outcome last hlast => ?_
          cases outcome with
          | some v => exact Yields.pure hlast
          | none => exact ih hlast.2

/-! ### Calls -/

/-- The methods that may be called are typed below the frame of the program and permitted,
and each is the one that its symbol declares. -/
def MethodsTyped (x : Expectation) (program : Frame VariableSymbol FunctionSymbol) : Prop :=
  ∀ symbol m, x.allowed symbol m →
    TypedMethod program symbol m ∧ (Callee.method m).DeclaredBy x.methods symbol
      ∧ x.PermitsMethod m

/-- What a symbol's name is bound to is what the symbol declares. -/
theorem MethodsTyped.declaredBy (hmethods : x.MethodsTyped program) {symbol : FunctionSymbol}
    {callee : Callee Sight} (h : x.GoodCallee symbol callee) :
    callee.DeclaredBy x.methods symbol := by
  cases callee with
  | method m => exact (hmethods symbol m h).2.1
  | print => exact h.1
  | host run => exact h.1

/-- Binding arguments puts the parameters into the frame, as the rule for methods
does. -/
theorem bindAll_agrees {scope : Nat} {frame : Frame VariableSymbol FunctionSymbol}
    {names : List String} {types : List Ty} {values : List Value} (hpos : 0 < scope)
    (hstanding : Standing program symbols scope (frame :: Γ))
    (hvalues : List.Forall₂ x.good types values) (h : x.Agrees symbols scene) :
    Yields (sighted.bindAll scope (names.zip values)) scene
      (fun _ after => ∃ symbols', Grown scope symbols symbols'
        ∧ Standing program symbols' scope ((names.zip types).foldl
            (fun frame (name, type) => frame.setVariable name ⟨name, type, none⟩) frame :: Γ)
        ∧ x.Agrees symbols' after) x.Failed := by
  induction hvalues generalizing names frame symbols scene with
  | nil =>
      rw [List.zip_nil_right, List.zip_nil_right]
      exact Yields.pure ⟨symbols, .refl scope symbols, hstanding, h⟩
  | @cons type v types values hv hvalues ih =>
      cases names with
      | nil => exact Yields.pure ⟨symbols, .refl scope symbols, hstanding, h⟩
      | cons name names =>
          rw [List.zip_cons_cons, List.zip_cons_cons]
          unfold bindAll
          refine (bind_agrees ⟨name, type, none⟩ h hv).bind fun _ after hafter => ?_
          refine (ih (hstanding.bindVariable hpos name ⟨name, type, none⟩) hafter).mono ?_
          rintro _ last ⟨symbols', hgrown, hinner, hlast⟩
          exact ⟨symbols', (Grown.bindVariable _ _ _ _).trans hgrown, hinner, hlast⟩

/-- A typed method gives a value that is good for its return type; so is nil, if it may fall
through. -/
theorem runMethod_agrees (hexec : x.ExecuteAgrees program rounds depth)
    {current : ScopeId} {scope : Nat} {symbol : FunctionSymbol} {m : Method Sight}
    {values : List Value}
    (hstanding : Standing program symbols scope Γ) (hm : TypedMethod program symbol m)
    (hpermits : x.PermitsMethod m) (hvalues : List.Forall₂ x.good symbol.parameters values)
    (h : x.Agrees symbols scene) :
    Yields (sighted.runMethod current (sighted.execute rounds depth) m values) scene
      (fun v after => x.good symbol.result v ∧ x.Agrees symbols after) x.Failed := by
  obtain ⟨Γ', hbody⟩ := hm.body
  have hpos : 0 < symbols.size := by have := hstanding.top; omega
  have hpushed := hstanding.push hpos
  have hroot : symbols.chain 0 = [program] := hstanding.root
  rw [hroot] at hpushed
  refine withScope_agrees h hpos fun pushed hagrees => ?_
  refine (bindAll_agrees hpos hpushed hvalues hagrees).bind fun _ bound hbound => ?_
  obtain ⟨symbols', hgrown, hinner, hbound⟩ := hbound
  have hrun := hexec.block hpos hinner hbody hpermits.body hbound
  -- A body that returns for certain leaves a value. If it may fall through, nil is good, too.
  rcases hpermits.returns with hreturns | hnil
  · have hsome := isSome_runAll Sight.offset rounds depth symbols.size hreturns bound
    refine (hrun.and hsome).bind fun outcome last hlast => ?_
    obtain ⟨⟨houtcome, symbols'', hgrown', hlast⟩, hisSome⟩ := hlast
    refine Yields.pure ⟨?_, symbols'', hgrown.trans hgrown', hlast⟩
    cases outcome with
    | none => cases hisSome
    | some v => exact houtcome v rfl
  · refine hrun.bind fun outcome last hlast => ?_
    obtain ⟨houtcome, symbols'', hgrown', hlast⟩ := hlast
    refine Yields.pure ⟨?_, symbols'', hgrown.trans hgrown', hlast⟩
    cases outcome with
    | none => exact hnil symbol hm.noted.symbol
    | some v => exact houtcome v rfl

/-- A call gives a value that is good for the result, whether it is of a method, of
the built-in function or of the host. -/
theorem call_agrees (hx : x.Sound) (hmethods : x.MethodsTyped program)
    (hexec : x.ExecuteAgrees program rounds depth) {current : ScopeId} {scope : Nat}
    {symbol : FunctionSymbol} {callee : Callee Sight} {values : List Value}
    (hstanding : Standing program symbols scope Γ)
    (hcallee : x.GoodCallee symbol callee)
    (hvalues : List.Forall₂ x.good symbol.parameters values) (h : x.Agrees symbols scene) :
    Yields (sighted.call current (sighted.execute rounds depth) callee values) scene
      (fun v after => x.good symbol.result v ∧ x.Agrees symbols after) x.Failed := by
  cases callee with
  | method m =>
      obtain ⟨hm, -, hpermits⟩ := hmethods symbol m hcallee
      exact runMethod_agrees hexec hstanding hm hpermits hvalues h
  | host run => exact callHost_agrees h hcallee
  | print =>
      refine (printLine_agrees hx h values).mono fun v after hafter => ?_
      rw [hafter.1]
      exact ⟨hcallee.2, hafter.2⟩

/-! ### Expressions and statements -/

/-- What the rule for `OR` says of its operands. -/
theorem operatorType_or {leftType rightType type : Ty}
    (h : OperatorType .or leftType rightType type) :
    Fits .boolean leftType ∧ Fits .boolean rightType ∧ type = .boolean := by
  cases h with
  | logical _ hleft hright => exact ⟨hleft, hright, rfl⟩
  | comparison hop => cases hop
  | arithmetic hop => exact absurd hop (by decide)

/-- Only what is on the left decides whether the right is evaluated. The value is
that of one of the sides. -/
theorem disjunction_agrees (hx : x.Sound) {left right : Watch Sight Value} {offset : Offset}
    (hleft : Yields left scene (fun _ after => x.Agrees symbols after) x.Failed)
    (hright : ∀ {middle}, x.Agrees symbols middle →
      Yields right middle (fun v after => x.good .boolean v ∧ x.Agrees symbols after) x.Failed) :
    Yields
      (do
        match ← left with
        | .boolean true => pure (Value.boolean true)
        | _ => do
          let value ← right
          let truth ← sighted.requireBoolean value offset
          pure (Value.boolean truth)) scene
      (fun v after => x.good .boolean v ∧ x.Agrees symbols after) x.Failed := by
  -- Nothing is asked of the value on the left, so the symbols are all that is carried over to the
  -- right.
  refine hleft.bind fun v middle hmiddle => ?_
  have hsecond : Yields
      (do
        let value ← right
        let truth ← sighted.requireBoolean value offset
        pure (Value.boolean truth)) middle
      (fun v after => x.good .boolean v ∧ x.Agrees symbols after) x.Failed := by
    refine (hright hmiddle).bind fun w last hw => ?_
    refine (requireBoolean_agrees hx hw.2 hw.1 offset).bind fun truth final hfinal => ?_
    exact Yields.pure ⟨hx.boolean truth, hfinal⟩
  cases v with
  | boolean truth =>
      cases truth with
      | true => exact Yields.pure ⟨hx.boolean true, hmiddle⟩
      | false => exact hsecond
  | _ => exact hsecond

/-- One level more for expressions, by the rule that gave the expression its type. -/
theorem evaluateAgrees_succ (hx : x.Sound) (hmethods : x.MethodsTyped program)
    (heval : x.EvaluateAgrees program rounds depth)
    (hexec : x.ExecuteAgrees program rounds depth) :
    x.EvaluateAgrees program rounds (depth + 1) := by
  intro symbols scope Γ e type scene hstanding htyped hpermits h
  obtain ⟨_, hm⟩ := htyped.noted
  unfold evaluate
  refine noteEnter_agrees h (hm.chain.trans hstanding.chain.symm) fun after hafter => ?_
  refine answer_agrees hm.type ?_
  -- The cases are the typing rules. What the rule says of the parts is what the induction on the
  -- depth needs of them; what may be done with them is in `hpermits`.
  cases htyped with
  | nil => exact Yields.pure ⟨hx.nilLiteral, hafter⟩
  | boolean => exact Yields.pure ⟨hx.boolean _, hafter⟩
  | integer => exact Yields.pure ⟨hx.integer _, hafter⟩
  | decimal =>
      have hliteral := hpermits.literals _ _ (List.mem_singleton.mpr rfl)
      exact Yields.pure ⟨hx.decimal _ hliteral, hafter⟩
  | character => exact Yields.pure ⟨hx.character _, hafter⟩
  | string => exact Yields.pure ⟨hx.string _, hafter⟩
  | group _ _ hinner =>
      exact heval hstanding hinner (hpermits.mono (by simp [Expr.subs]) (by simp)) hafter
  | @binary m op left right leftType rightType type _ hleft hright hop =>
      have hpermitsLeft : x.Permits left.subs [] :=
        hpermits.mono (by simp [Expr.subs]) (by simp)
      have hpermitsRight : x.Permits right.subs [] :=
        hpermits.mono (by simp [Expr.subs]) (by simp)
      by_cases hor : op = .or
      · subst hor
        obtain ⟨hfitsLeft, hfitsRight, rfl⟩ := operatorType_or hop
        refine disjunction_agrees hx ?_ fun hagrees => ?_
        · exact (heval hstanding hleft hpermitsLeft hafter).mono fun _ _ hv => hv.2
        · exact heval.as hx hstanding ⟨_, hright, hfitsRight⟩ hpermitsRight hagrees
      · obtain ⟨_, hmLeft⟩ := hleft.noted
        obtain ⟨_, hmRight⟩ := hright.noted
        -- The operator is permitted for the types that the marks of its operands say.
        have hoperands : x.operands op leftType rightType :=
          hpermits.operands _ (by simp [Expr.subs]) m op left right rfl leftType rightType
            hmLeft.type hmRight.type
        have hboth : Yields
            (do
              let leftValue ← sighted.evaluate rounds depth scope left
              let rightValue ← sighted.evaluate rounds depth scope right
              sighted.applyOperator m op left.mark right.mark leftValue rightValue) after
            (fun v after => x.good type v ∧ x.Agrees symbols after) x.Failed := by
          refine (heval hstanding hleft hpermitsLeft hafter).bind fun v middle hv => ?_
          refine (heval hstanding hright hpermitsRight hv.2).bind fun w last hw => ?_
          exact applyOperator_agrees hx hw.2 hop hoperands hor hmLeft.type hmRight.type hv.1 hw.1
        cases op with
        | or => exact absurd rfl hor
        | _ => exact hboth
  | var hmark hsymbol => exact readVariable_agrees hafter hmark hstanding.chain hsymbol
  | @call m name arguments symbol hmark hsymbol harguments =>
      refine (findFunction_agrees hafter hstanding.chain hsymbol _).bind
        fun callee found hfound => ?_
      obtain ⟨hcallee, hagrees⟩ := hfound
      have hinner : x.Permits (Expr.subsAll arguments) [] :=
        hpermits.mono (by simp [Expr.subs]) (by simp)
      refine (heval.arguments hx hstanding harguments hinner hagrees).bind
        fun values ready hready => ?_
      obtain ⟨hvalues, hagrees'⟩ := hready
      -- The call is noted where the arguments are known and the function is not yet entered.
      refine note_agrees hagrees' ⟨⟨symbol, hmark.symbol, hmethods.declaredBy hcallee⟩, trivial⟩
        fun last hlast => ?_
      exact call_agrees hx hmethods hexec hstanding hcallee hvalues hlast

/-- A declaration adds its variable to the scope on top, and returns nothing. -/
theorem declare_agrees {returnType : Ty} {scope : Nat} {name : String} {v : Value}
    {frame : Frame VariableSymbol FunctionSymbol} {symbol : VariableSymbol}
    (hstanding : Standing program symbols scope (frame :: Γ)) (hname : symbol.name = name)
    (hv : x.good symbol.type v) (h : x.Agrees symbols scene) :
    Yields
      (do
        sighted.bind scope name v
        pure none) scene
      (fun outcome after => (∀ v ∈ outcome, x.good returnType v)
        ∧ ∃ symbols', Grown scope symbols symbols'
          ∧ symbols'.chain scope = frame.setVariable symbol.name symbol :: Γ
          ∧ x.Agrees symbols' after) x.Failed := by
  refine (bind_agrees symbol h hv).bind fun _ last hlast => ?_
  refine Yields.pure ⟨by simp, _, .bindVariable scope symbols name symbol, ?_, hlast⟩
  rw [hname]
  exact Arena.chain_bindVariable hstanding.ordered hstanding.chain name symbol

/-- One level more for statements, by the rule that typed the statement. -/
theorem executeAgrees_succ (hx : x.Sound) (heval : x.EvaluateAgrees program rounds depth)
    (hexec : x.ExecuteAgrees program rounds depth) :
    x.ExecuteAgrees program rounds (depth + 1) := by
  intro returnType symbols scope Γ Γ' s scene hpos hstanding htyped hpermits h
  obtain ⟨_, hm⟩ := htyped.noted
  -- Most statements return nothing and leave the context as it is.
  have hsame {outcome : Option Value} {after : Scene Sight}
      (houtcome : ∀ v ∈ outcome, x.good returnType v) (hafter : x.Agrees symbols after) :
      (∀ v ∈ outcome, x.good returnType v) ∧ ∃ symbols', Grown scope symbols symbols'
        ∧ symbols'.chain scope = Γ ∧ x.Agrees symbols' after :=
    ⟨houtcome, symbols, .refl scope symbols, hstanding.chain, hafter⟩
  have hnothing : ∀ v ∈ (none : Option Value), x.good returnType v := by simp
  have hexpr (e : Expr Sight) (he : e.subs ⊆ s.exprs) : x.Permits e.subs [] :=
    hpermits.mono he (by simp)
  unfold execute
  refine noteEnter_agrees h (hm.chain.trans hstanding.chain.symm) fun after hafter => ?_
  cases htyped with
  | @expression _ m value type _ _ hvalue =>
      have hcall := hexpr value (by simp [Stmt.exprs])
      refine (heval hstanding hvalue hcall hafter).bind fun v last hv => ?_
      exact Yields.pure (hsame hnothing hv.2)
  | @declare frame Γ m d symbol _ hname hnew hd =>
      cases hd with
      | @declared name typeName _ _ =>
          have hnil : x.good symbol.type .nil :=
            hpermits.initial ⟨name, some typeName, none⟩ (by simp [Stmt.declarations]) rfl _
          exact declare_agrees hstanding hname hnil hafter
      | @inferred _ value _ hvalue =>
          have hinitial := hexpr value (by simp [Stmt.exprs, Declaration.exprs])
          exact (heval hstanding hvalue hinitial hafter).bind fun v middle hv =>
            declare_agrees hstanding hname hv.1 hv.2
      | @both _ _ value _ _ hvalue =>
          have hinitial := hexpr value (by simp [Stmt.exprs, Declaration.exprs])
          exact (heval.as hx hstanding hvalue hinitial hafter).bind fun v middle hv =>
            declare_agrees hstanding hname hv.1 hv.2
  -- A typed target is a variable: nothing has a field here.
  | @assign _ _ _ _ value _ _ htarget hvalue =>
      cases htarget with
      | var hmark hsymbol =>
          have hassigned := hexpr value (by simp [Stmt.exprs])
          refine (heval.as hx hstanding hvalue hassigned hafter).bind fun v middle hv => ?_
          refine (writeVariable_agrees hv.2 hmark hstanding.chain hsymbol hv.1).bind
            fun _ last hlast => ?_
          exact Yields.pure (hsame hnothing hlast)
  | @cond _ _ _ _ condition thenBody elseBody _ hcondition _ hthen helse =>
      have htested := hexpr condition (by simp [Stmt.exprs])
      have hchosenThen : x.Permits (Stmt.exprsAll thenBody) (Stmt.declarationsAll thenBody) :=
        hpermits.mono (by simp [Stmt.exprs]) (by simp [Stmt.declarations])
      have hchosenElse : x.Permits (Stmt.exprsAll elseBody) (Stmt.declarationsAll elseBody) :=
        hpermits.mono (by simp [Stmt.exprs]) (by simp [Stmt.declarations])
      refine (heval.as hx hstanding hcondition htested hafter).bind fun v middle hv => ?_
      refine (requireBoolean_agrees hx hv.2 hv.1 _).bind fun truth chosen hchosen => ?_
      cases truth with
      | true =>
          exact (hexec.branch hstanding hthen hchosenThen hchosen).mono fun outcome last hlast =>
            hsame hlast.1 hlast.2
      | false =>
          exact (hexec.branch hstanding helse hchosenElse hchosen).mono fun outcome last hlast =>
            hsame hlast.1 hlast.2
  | @forIn _ _ _ _ value body _ hvalue _ hbody =>
      have hiterated := hexpr value (by simp [Stmt.exprs])
      have hinner : x.Permits (Stmt.exprsAll body) (Stmt.declarationsAll body) :=
        hpermits.mono (by simp [Stmt.exprs]) (by simp [Stmt.declarations])
      refine (heval.as hx hstanding hvalue hiterated hafter).bind fun v middle hv => ?_
      refine (requireSequence_agrees hx hv.2 hv.1 _).bind fun elements found hfound => ?_
      exact (hexec.loop hstanding hbody hinner hfound.1 hfound.2).mono fun outcome last hlast =>
        hsame hlast.1 hlast.2
  -- Every round begins with the symbols of the first one, which is why the number of rounds does
  -- not matter.
  | @whileDo _ _ _ condition body _ hcondition hbody =>
      have htested := hexpr condition (by simp [Stmt.exprs])
      have hinner : x.Permits (Stmt.exprsAll body) (Stmt.declarationsAll body) :=
        hpermits.mono (by simp [Stmt.exprs]) (by simp [Stmt.declarations])
      refine (whileTrue_agrees hx hafter (fun hagrees => ?_) fun hagrees => ?_).mono
        fun outcome last hlast => hsame hlast.1 hlast.2
      · exact (heval.as hx hstanding hcondition htested hagrees).bind fun v middle hv =>
          requireBoolean_agrees hx hv.2 hv.1 _
      · exact hexec.branch hstanding hbody hinner hagrees
  | @result _ _ value _ hvalue =>
      have hreturned := hexpr value (by simp [Stmt.exprs])
      refine (heval.as hx hstanding hvalue hreturned hafter).map fun v last hv => ?_
      exact hsame (by simpa using hv.1) hv.2
  | foreign => exact Yields.pure (hsame hnothing hafter)

/-- However deep the evaluation may nest, typed trees keep the agreement. The
induction is on the depth, for expressions and statements at once. -/
theorem run_agrees (hx : x.Sound) (hmethods : x.MethodsTyped program) (rounds depth : Nat) :
    x.EvaluateAgrees program rounds depth ∧ x.ExecuteAgrees program rounds depth := by
  induction depth with
  | zero =>
      constructor
      · intro symbols scope Γ e type scene hstanding htyped _ h
        obtain ⟨_, hm⟩ := htyped.noted
        unfold evaluate
        refine noteEnter_agrees h (hm.chain.trans hstanding.chain.symm) fun after hafter => ?_
        exact Yields.throw ⟨hx.tooDeep, hafter.events⟩
      · intro returnType symbols scope Γ Γ' s scene _ hstanding htyped _ h
        obtain ⟨_, hm⟩ := htyped.noted
        unfold execute
        refine noteEnter_agrees h (hm.chain.trans hstanding.chain.symm) fun after hafter => ?_
        exact Yields.throw ⟨hx.tooDeep, hafter.events⟩
  | succ depth ih =>
      obtain ⟨heval, hexec⟩ := ih
      exact ⟨evaluateAgrees_succ hx hmethods heval hexec, executeAgrees_succ hx heval hexec⟩

end Expectation

end PlcLang.Proofs
