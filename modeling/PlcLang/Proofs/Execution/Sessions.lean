import PlcLang.Proofs.Execution.Erasure
import PlcLang.Proofs.Execution.Programs

/-!
# `PlcLang.Proofs.Execution.Sessions`: programs in a session with functions of a host

Before a program is checked and run a host may declare functions to the checker and bind
functions of the machine. If what it binds is as it declares, every run of an accepted
program is as expected from the first moment on (`session_agrees`). Where that is asked of
programs of a certain form only, it holds of these (`session_agrees_of_permits`).
-/

set_option autoImplicit false

namespace PlcLang

/-- A function of the host as the checker knows it: by its name, its parameters and
its result. -/
structure HostHeader where
  name : String
  parameters : List Ty
  result : Ty

/-- What the checker binds the name of the function to. It has no place in a text. -/
def HostHeader.symbol (header : HostHeader) : FunctionSymbol :=
  ⟨header.name, header.parameters, header.result, none⟩

/-- A session with functions of the host, which are declared to the checker and bound in the
machine. -/
def Session.hosting (declared : List HostHeader) (bound : List (FunctionKey × HostFunction)) :
    Session :=
  let session := declared.foldl (fun session header =>
    session.declareFunction header.name header.parameters header.result) .initial
  bound.foldl (fun session pair => session.bindFunction pair.1 pair.2) session

/-- A mark of a node that the checker has not come upon. Methods of earlier programs
have it. -/
def Sight.unseen (offset : Offset) : Sight :=
  ⟨.plain offset, Arena.root, .initial⟩

/-- What is kept of a moment of a run, without the machine of that moment, and of a value its
textual form. -/
inductive Gist where
  | enter (offset : Offset)
  | value (offset : Offset) (text : Option String)
  | access (offset : Offset) (name : String)
  | called (offset : Offset)
deriving DecidableEq

/-- What an event is about, and where. -/
def Event.gist : Event Sight → Gist
  | enter mark _ _ => .enter mark.offset
  | value mark v => .value mark.offset v.display.toOption
  | access mark name _ _ => .access mark.offset name
  | called mark _ => .called mark.offset

/-- A run of a program as the checker has seen it: watched, and with what the
checker saw at each node as the node's mark. -/
def Session.follow (session : Session) (limits : Limits) (seen : Program Sight) :
    Except (Halt Sight) Value × Scene Sight :=
  session.watch Sight.unseen Sight.offset limits seen

/-- A program that is accepted comes with its notes and with a session that knows of
it. -/
theorem Session.check_eq {session : Session} {program : Program Offset} {checked : Program Note}
    (h : (session.check program).1 = .ok checked) :
    session.check program = (.ok checked, (session.check program).2) := by
  rw [← h]

namespace Proofs

/-- The built-in function as the checker knows it. -/
def printSymbol : FunctionSymbol :=
  ⟨"print", [.any], .nil, none⟩

/-- A frame of symbols with functions of the host. Of two under one key the later
one is kept. -/
def addSymbols (frame : Frame VariableSymbol FunctionSymbol) (declared : List HostHeader) :
    Frame VariableSymbol FunctionSymbol :=
  declared.foldl (fun frame header => frame.setFunction header.symbol.key header.symbol) frame

/-- A frame of the machine with functions of the host, where `host` makes what is
bound. Of two under one key the later one is kept. -/
def addCallees {F : Type} (host : HostFunction → F) (frame : Frame Value F)
    (bound : List (FunctionKey × HostFunction)) : Frame Value F :=
  bound.foldl (fun frame pair => frame.setFunction pair.1 (host pair.2)) frame

/-- What the checker sees of the host: the built-in function, and what was declared. -/
def hostSymbols (declared : List HostHeader) : Frame VariableSymbol FunctionSymbol :=
  addSymbols (Frame.empty.setFunction printSymbol.key printSymbol) declared

/-- What a watched machine has of the host: the built-in function, and what was
bound. -/
def hostCallees (bound : List (FunctionKey × HostFunction)) : Frame Value (Callee Sight) :=
  addCallees .host (Frame.empty.setFunction printSymbol.key .print) bound

/-- What the machine has of the host, which is the same without marks. -/
def hostCallables (bound : List (FunctionKey × HostFunction)) : Frame Value Callable :=
  addCallees Callee.host (Frame.empty.setFunction printSymbol.key .print) bound

/-- A session of a host has one scope of symbols and one scope in its machine. -/
theorem hosting_eq (declared : List HostHeader) (bound : List (FunctionKey × HostFunction)) :
    Session.hosting declared bound
      = ⟨.builtin, .single (hostSymbols declared),
          { Machine.initial with scopes := .single (hostCallables bound) }, 0⟩ := by
  have hdeclare (frame : Frame VariableSymbol FunctionSymbol) :
      declared.foldl (fun session header =>
        session.declareFunction header.name header.parameters header.result)
          (⟨.builtin, .single frame, .initial, 0⟩ : Session)
        = ⟨.builtin, .single (addSymbols frame declared), .initial, 0⟩ := by
    induction declared generalizing frame with
    | nil => rfl
    | cons header rest ih =>
        rw [List.foldl_cons]
        exact ih (frame.setFunction header.symbol.key header.symbol)
  have hbind (symbols : Symbols) (frame : Frame Value Callable) :
      bound.foldl (fun session pair => session.bindFunction pair.1 pair.2)
          (⟨.builtin, symbols, { Machine.initial with scopes := .single frame }, 0⟩ : Session)
        = ⟨.builtin, symbols,
            { Machine.initial with scopes := .single (addCallees Callee.host frame bound) },
            0⟩ := by
    induction bound generalizing frame with
    | nil => rfl
    | cons pair rest ih =>
        rw [List.foldl_cons]
        exact ih (frame.setFunction pair.1 (.host pair.2))
  -- In the root there is what the language brings with it, before the host adds to it.
  unfold Session.hosting
  have hinitial : Session.initial
      = ⟨.builtin, .single (Frame.empty.setFunction printSymbol.key printSymbol), .initial, 0⟩ :=
    rfl
  rw [hinitial, hdeclare]
  exact hbind (.single (hostSymbols declared))
    (Frame.empty.setFunction printSymbol.key .print)

/-- Before a watched run the machine has what the host has bound. -/
theorem scopes_scene_hosting (declared : List HostHeader)
    (bound : List (FunctionKey × HostFunction)) :
    ((Session.hosting declared bound).quiet.machine.scene Sight.unseen).scopes
      = .single (hostCallees bound) := by
  rw [hosting_eq]
  -- Each function that is bound is bound on both sides.
  have hfold (frame : Frame Value Callable) (frame' : Frame Value (Callee Sight))
      (hframe : (Arena.single frame).mapFunctions (Callee.relabel Sight.unseen .same)
        = .single frame') :
      (Arena.single (addCallees Callee.host frame bound)).mapFunctions
          (Callee.relabel Sight.unseen .same)
        = .single (addCallees Callee.host frame' bound) := by
    induction bound generalizing frame frame' with
    | nil => exact hframe
    | cons pair rest ih =>
        refine ih (frame.setFunction pair.1 (.host pair.2))
          (frame'.setFunction pair.1 (.host pair.2)) ?_
        rw [← Arena.bindFunction_single, ← Arena.bindFunction_single, ← hframe]
        exact (Arena.bindFunction_mapFunctions _ _ Arena.root pair.1
          (Callee.host pair.2)).symm
  exact hfold _ _ rfl

/-- Each function of the host is declared under its own name and arity. -/
theorem keyed_hostSymbols (declared : List HostHeader) : Keyed [hostSymbols declared] := by
  have hfold {frame : Frame VariableSymbol FunctionSymbol} (hframe : Keyed [frame]) :
      Keyed [addSymbols frame declared] := by
    induction declared generalizing frame with
    | nil => exact hframe
    | cons header rest ih => exact ih (keyed_cons_setFunction hframe)
  have hempty : Keyed [] := fun _ h => by cases h
  exact hfold (keyed_cons_setFunction (keyed_cons_empty hempty))

/-- What the checker knows before a program are the program's own names, so far
those of the host. -/
theorem atRoot_hosting (declared : List HostHeader)
    (bound : List (FunctionKey × HostFunction)) :
    AtRoot (hostSymbols declared) (Session.hosting declared bound).symbols := by
  rw [hosting_eq]
  exact ⟨Arena.ordered_single _, rfl, Arena.chain_single _⟩

/-- What is expected as long as no method may be called. -/
def Reading.expecting (x : Reading) (methods : List (Method Sight)) : Expectation :=
  ⟨x, methods, fun _ _ => False⟩

/-- Functions that answer with what they promise are what their symbols say. They
are pure functions, so what they answer is a matter of the heap and of their
arguments. -/
theorem goodFrame_of_answers {x : Reading} (hnil : x.good .nil .nil)
    {hosts : List (HostHeader × HostFunction)}
    (hhosts : ∀ host ∈ hosts, ∀ heap arguments,
      ∃ v, host.2 heap arguments = .ok v ∧ x.good host.1.result v)
    (methods : List (Method Sight)) :
    (x.expecting methods).GoodFrame (hostSymbols (hosts.map (·.1)))
      (hostCallees (hosts.map fun host => (host.1.symbol.key, host.2))) := by
  have hfold {frame : Frame VariableSymbol FunctionSymbol} {frame' : Frame Value (Callee Sight)}
      (hframe : (x.expecting methods).GoodFrame frame frame') :
      (x.expecting methods).GoodFrame (addSymbols frame (hosts.map (·.1)))
        (addCallees .host frame' (hosts.map fun host => (host.1.symbol.key, host.2))) := by
    induction hosts generalizing frame frame' with
    | nil => exact hframe
    | cons host rest ih =>
        obtain ⟨hhost, hrest⟩ := List.forall_mem_cons.mp hhosts
        refine ih hrest (hframe.setFunction ⟨rfl, fun heap arguments => ?_⟩)
        obtain ⟨v, hanswer, hv⟩ := hhost heap arguments
        rw [hanswer]
        exact hv
  exact hfold (Expectation.GoodFrame.empty.setFunction ⟨rfl, hnil⟩)

/-- The program is checked in the session `start`, which becomes `session`, and its run there is
the run of a tree that was watched while it was checked; every moment of that run, its value
and the way it stops are as expected. -/
def Reading.Foretells (x : Reading) (start : Session) (program : Program Offset)
    (checked : Program Note) (session : Session) (limits : Limits) : Prop :=
  ∃ seen : Program Sight,
    start.sight program = .ok seen
      ∧ seen.map Sight.note = checked
      ∧ session.execute limits program
        = ((session.follow limits seen).1.mapError Halt.stop,
            { session with
              machine := (session.follow limits seen).2.toMachineOf.relabel Sight.offset })
      ∧ (∀ event ∈ (session.follow limits seen).2.events,
          event.Resolves seen.methods ∧ event.Typed x.good)
      ∧ (∀ v, (session.follow limits seen).1 = .ok v → x.good .integer v)
      ∧ ∀ halt, (session.follow limits seen).1 = .error halt → x.accepts halt

/-- What an accepted program of the form that is asked for does in a session with functions of
the host. -/
theorem session_agrees_of_permits {x : Reading} (hx : x.Sound) {declared : List HostHeader}
    {bound : List (FunctionKey × HostFunction)}
    (hhost : ∀ methods, (x.expecting methods).GoodFrame (hostSymbols declared) (hostCallees bound))
    {text : String} {program : Program Offset} {checked : Program Note} {session : Session}
    (hread : readProgram text = .ok program)
    (hcheck : (Session.hosting declared bound).check program = (.ok checked, session))
    (hpermits : ∀ seen : Program Sight, seen.map Sight.note = checked →
      seen.map Sight.offset = program → x.PermitsProgram seen)
    (limits : Limits) :
    x.Foretells (Session.hosting declared bound) program checked session limits := by
  have hmachine : session.quiet.machine = (Session.hosting declared bound).quiet.machine := by
    unfold Session.check Session.checked at hcheck
    split at hcheck <;> cases hcheck
    rfl
  have hnotes := Session.check_eq_sight (Session.hosting declared bound) program
  rw [hcheck] at hnotes
  unfold Reading.Foretells
  unfold Session.sight Session.checked at hnotes ⊢
  have htypes : (Session.hosting declared bound).types = .builtin := by rw [hosting_eq]
  rw [htypes] at hnotes ⊢
  cases hseen : Checker.watched.program .builtin program
      (Session.hosting declared bound).symbols with
  | error e symbols => rw [hseen] at hnotes; cases hnotes
  | ok seen symbols =>
      rw [hseen] at hnotes
      have hchecked : seen.map Sight.note = checked := (Except.ok.inj hnotes).symm
      obtain ⟨⟨between, frame, htyped⟩, hmap⟩ :=
        program_sound (atRoot_hosting declared bound) (keyed_hostSymbols declared)
          (spoken_of_readProgram hread) hseen
      -- The sights are what the check saw; a run of the program is that of the tree with them,
      -- which is seen from the scene of the session.
      have hunseen (offset : Offset) : (Sight.unseen offset).offset = offset := rfl
      have hexecute := session.execute_eq_watch hunseen limits seen
      rw [hmap] at hexecute
      have hstart : (x.expecting seen.methods).Agrees (Session.hosting declared bound).symbols
          (session.quiet.machine.scene Sight.unseen) := by
        refine ⟨?_, by simp [Machine.scene]⟩
        rw [hmachine, scopes_scene_hosting, hosting_eq]
        exact .single (hhost seen.methods)
      have hrun := Expectation.program_agrees (x := x.expecting seen.methods) hx (fun _ _ h => h)
        limits rfl htyped (hpermits seen hchecked hmap) (atRoot_hosting declared bound) hstart
      refine ⟨seen, rfl, hchecked, hexecute, ?_⟩
      unfold Yields at hrun
      unfold Session.follow Session.watch
      cases houtcome : sighted.program limits seen
          (session.quiet.machine.scene Sight.unseen) with
      | ok v scene =>
          rw [houtcome] at hrun
          dsimp only at hrun ⊢
          refine ⟨hrun.2, fun w hw => ?_, fun halt hhalt => ?_⟩
          · cases hw
            exact hrun.1
          · cases hhalt
      | error halt scene =>
          rw [houtcome] at hrun
          dsimp only at hrun ⊢
          refine ⟨hrun.2, fun w hw => ?_, fun other hother => ?_⟩
          · cases hw
          · cases hother
            exact hrun.1

/-- What an accepted program does in a session with functions of the host, if nil is
good for every type. Then nothing more is asked of the program. -/
theorem session_agrees {x : Reading} (hx : x.Closed) {declared : List HostHeader}
    {bound : List (FunctionKey × HostFunction)}
    (hhost : ∀ methods, (x.expecting methods).GoodFrame (hostSymbols declared) (hostCallees bound))
    {text : String} {program : Program Offset} {checked : Program Note} {session : Session}
    (hread : readProgram text = .ok program)
    (hcheck : (Session.hosting declared bound).check program = (.ok checked, session))
    (limits : Limits) :
    x.Foretells (Session.hosting declared bound) program checked session limits :=
  session_agrees_of_permits hx.toSound hhost hread hcheck
    (fun seen _ _ => hx.permitsProgram seen) limits

end Proofs

end PlcLang
