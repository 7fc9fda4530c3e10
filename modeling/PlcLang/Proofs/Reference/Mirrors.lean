import PlcLang.Proofs.Reference.Semantics
import PlcLang.Proofs.Scoping.Chains

/-!
# `PlcLang.Proofs.Reference.Mirrors`: where the cells are in an arena

Beside the machine's arena of values stands a layout: an arena of the same shape that has
cells in place of values. The machine mirrors a memory if the values of its variables are
those in the cells of the layout (`Mirrors`), and a scope views an environment if the chain
of the scope in the layout is the chain of the environment (`Views`).

No cell belongs to two variables of the layout. So an assignment changes the same one
variable on both sides (`Mirrors.write`), whichever scopes are live besides the running
one, and a scope that is released takes only its own variables with it (`Mirrors.leave`):
an index never denotes another scope than the one it was handed out for.
-/

set_option autoImplicit false

namespace PlcLang.Reference

open Proofs

/-- The cells of the variables of an arena, and the functions as the arena has them. -/
abbrev Layout := Arena Cell Callable

/-- The cell of a variable that a scope binds itself. -/
def Layout.own? (layout : Layout) (scope : Nat) (name : String) : Option Cell :=
  (layout.scope? scope).bind (·.variableTable.get? name)

/-- No two variables share a cell. -/
def Layout.Apart (layout : Layout) : Prop :=
  ∀ ⦃scope scope' : Nat⦄ ⦃name name' : String⦄ ⦃cell : Cell⦄,
    layout.own? scope name = some cell → layout.own? scope' name' = some cell →
      scope = scope' ∧ name = name'

/-- A frame binds variables to what is in their cells, and functions as the layout
does. -/
structure Holds (cells : List Value) (frame : Frame Value Callable)
    (places : Frame Cell Callable) : Prop where
  onVariables : ∀ name, Option.Rel (fun value (cell : Cell) => cells[cell]? = some value)
    (frame.variableTable.get? name) (places.variableTable.get? name)
  onFunctions : frame.functionTable = places.functionTable

/-- The machine has in its arena what the memory has in the cells of the layout. -/
structure Mirrors (machine : Machine) (layout : Layout) (mem : Memory) : Prop where
  scopes : Arena.Corresponds (Holds mem.cells) machine.scopes layout
  ordered : layout.Ordered
  apart : layout.Apart
  heap_eq : machine.heap = mem.heap
  methods_eq : machine.methods = mem.methods
  output_eq : machine.output = mem.output

/-- The frames of an environment, as the scopes of an arena bind them. Only the last
one has functions. -/
def Environment.frames (env : Environment) : List (Frame Cell Callable) :=
  env.locals.map (⟨·, .empty⟩) ++ [⟨env.globals, env.functions⟩]

/-- From the scope the environment is seen, and from the program's scope the
program's frame. -/
structure Views (layout : Layout) (scope : Nat) (env : Environment) : Prop where
  chain_eq : layout.chain scope = env.frames
  root_eq : layout.chain Arena.root = env.outermost.frames
  atRoot : env.locals = [] → scope = Arena.root

/-! ### Frames -/

namespace Holds

variable {cells : List Value} {frame : Frame Value Callable} {places : Frame Cell Callable}

/-- An empty frame binds nothing on either side. -/
theorem empty (cells : List Value) : Holds cells .empty .empty :=
  ⟨fun _ => .none, rfl⟩

/-- A frame binds a variable exactly if it has a cell for it. -/
theorem contains_eq (h : Holds cells frame places) (name : String) :
    frame.variableTable.contains name = places.variableTable.contains name := by
  have hname := h.onVariables name
  unfold Bindings.contains
  revert hname
  cases frame.variableTable.get? name <;> cases places.variableTable.get? name <;>
    intro hname <;> cases hname <;> rfl

/-- The cells of a frame have been used. -/
theorem lt_length (h : Holds cells frame places) {name : String} {cell : Cell}
    (hcell : places.variableTable.get? name = some cell) : cell < cells.length := by
  have hname := h.onVariables name
  rw [hcell] at hname
  revert hname
  cases frame.variableTable.get? name <;> intro hname <;> cases hname
  next hvalue => exact (List.getElem?_eq_some_iff.mp hvalue).1

/-- More cells do not matter. -/
theorem append (h : Holds cells frame places) (more : List Value) :
    Holds (cells ++ more) frame places := by
  refine ⟨fun name => ?_, h.onFunctions⟩
  have hname := h.onVariables name
  revert hname
  cases frame.variableTable.get? name <;> cases places.variableTable.get? name <;>
    intro hname <;> cases hname
  · exact .none
  · next hvalue =>
      have hlt := (List.getElem?_eq_some_iff.mp hvalue).1
      exact .some ((List.getElem?_append_left hlt).trans hvalue)

/-- A variable that is bound to a value has a cell with the value. -/
theorem setVariable (h : Holds cells frame places) {name : String} {value : Value}
    {cell : Cell} (hcell : cells[cell]? = some value) :
    Holds cells (frame.setVariable name value) (places.setVariable name cell) := by
  refine ⟨fun other => ?_, h.onFunctions⟩
  rw [Frame.setVariable, Frame.setVariable, Bindings.get?_set, Bindings.get?_set]
  by_cases heq : (other == name) = true
  · rw [if_pos heq, if_pos heq]
    exact .some hcell
  · rw [if_neg heq, if_neg heq]
    exact h.onVariables other

/-- A function is bound on both sides. -/
theorem setFunction (h : Holds cells frame places) (key : FunctionKey) (callable : Callable) :
    Holds cells (frame.setFunction key callable) (places.setFunction key callable) := by
  refine ⟨h.onVariables, ?_⟩
  rw [Frame.setFunction, Frame.setFunction, h.onFunctions]

/-- A value in a cell that the frame does not have does not matter. -/
theorem write_of_forall_ne (h : Holds cells frame places) {cell : Cell}
    (hne : ∀ name, places.variableTable.get? name ≠ some cell) (value : Value) :
    Holds (cells.set cell value) frame places := by
  refine ⟨fun name => ?_, h.onFunctions⟩
  have hname := h.onVariables name
  have hcell := hne name
  revert hname hcell
  cases frame.variableTable.get? name <;> cases places.variableTable.get? name <;>
    intro hname hcell <;> cases hname
  · exact .none
  · next place hvalue =>
      have hplace : cell ≠ place := fun heq => hcell (congrArg some heq.symm)
      exact .some ((List.getElem?_set_ne hplace).trans hvalue)

/-- A value in the cell of one variable of the frame changes this variable alone. -/
theorem write (h : Holds cells frame places) {name : String} {cell : Cell}
    (hcell : places.variableTable.get? name = some cell)
    (honly : ∀ other, places.variableTable.get? other = some cell → other = name)
    (value : Value) : Holds (cells.set cell value) (frame.setVariable name value) places := by
  refine ⟨fun other => ?_, h.onFunctions⟩
  rw [Frame.setVariable, Bindings.get?_set]
  by_cases heq : (other == name) = true
  · obtain rfl : other = name := beq_iff_eq.mp heq
    rw [if_pos heq, hcell]
    exact .some (List.getElem?_set_self (h.lt_length hcell))
  · rw [if_neg heq]
    have hother := h.onVariables other
    have hne : ∀ place, places.variableTable.get? other = some place → cell ≠ place := by
      rintro place hplace rfl
      exact heq (beq_iff_eq.mpr (honly other hplace))
    revert hother hne
    cases frame.variableTable.get? other <;> cases places.variableTable.get? other <;>
      intro hother hne <;> cases hother
    · exact .none
    · next place hvalue =>
        exact .some ((List.getElem?_set_ne (hne place rfl)).trans hvalue)

end Holds

/-! ### Layouts -/

namespace Layout

variable {layout : Layout}

/-- What a scope binds itself is bound by a scope that is live. -/
theorem own?_eq_some {scope : Nat} {name : String} {cell : Cell}
    (h : layout.own? scope name = some cell) :
    ∃ s, layout.scope? scope = some s ∧ s.variableTable.get? name = some cell := by
  unfold own? at h
  exact Option.bind_eq_some_iff.mp h

/-- What a live scope binds itself is in its table. -/
theorem own?_of_scope? {scope : Nat} {name : String} {s : Scope Cell Callable}
    (h : layout.scope? scope = some s) : layout.own? scope name = s.variableTable.get? name := by
  unfold own?
  rw [h]
  rfl

/-- A fresh scope has no cells to share. -/
theorem Apart.push (h : layout.Apart) (parent : Nat) : Layout.Apart (layout.push parent) := by
  -- The fresh scope has no variables, and the others are those from before.
  have hown {scope : Nat} {name : String} {cell : Cell}
      (hcell : Layout.own? (layout.push parent) scope name = some cell) :
      layout.own? scope name = some cell := by
    obtain ⟨s, hscope, hget⟩ := own?_eq_some hcell
    have hlt := Arena.scope?_lt hscope
    rw [Arena.size_push] at hlt
    by_cases heq : scope = layout.size
    · rw [heq, Arena.scope?_push_self, Option.some.injEq] at hscope
      rw [← hscope] at hget
      cases hget
    · rw [Arena.scope?_push_of_lt (by omega)] at hscope
      rw [own?_of_scope? hscope, hget]
  intro scope scope' name name' cell hcell hcell'
  exact h (hown hcell) (hown hcell')

/-- A variable that a scope binds anew needs a cell that no variable has. -/
theorem Apart.bindVariable (h : layout.Apart) {scope : Nat} {name : String} {cell : Cell}
    (hfresh : ∀ other name', layout.own? other name' ≠ some cell) :
    Layout.Apart (layout.bindVariable scope name cell) := by
  -- A variable has its cell from before, or it is the one that is bound.
  have hown {other : Nat} {name' : String} {place : Cell}
      (hplace : Layout.own? (layout.bindVariable scope name cell) other name' = some place) :
      (layout.own? other name' = some place ∧ place ≠ cell)
        ∨ (other = scope ∧ name' = name ∧ place = cell) := by
    obtain ⟨s, hscope, hget⟩ := own?_eq_some hplace
    have hbefore (heq : layout.own? other name' = some place) :
        (layout.own? other name' = some place ∧ place ≠ cell)
          ∨ (other = scope ∧ name' = name ∧ place = cell) :=
      .inl ⟨heq, fun hcell => hfresh other name' (hcell ▸ heq)⟩
    by_cases heq : scope = other
    · subst heq
      rw [Arena.bindVariable, Arena.scope?_modify_self] at hscope
      obtain ⟨before, hbeforeScope, rfl⟩ := Option.map_eq_some_iff.mp hscope
      rw [Scope.setVariable, Bindings.get?_set] at hget
      by_cases hname : (name' == name) = true
      · rw [if_pos hname] at hget
        cases hget
        exact .inr ⟨rfl, beq_iff_eq.mp hname, rfl⟩
      · rw [if_neg hname] at hget
        exact hbefore (by rw [own?_of_scope? hbeforeScope, hget])
    · rw [Arena.bindVariable, Arena.scope?_modify_of_ne heq] at hscope
      exact hbefore (by rw [own?_of_scope? hscope, hget])
  intro first second name₁ name₂ place hfirst hsecond
  rcases hown hfirst with ⟨h₁, hne₁⟩ | ⟨rfl, rfl, hcell₁⟩
  · rcases hown hsecond with ⟨h₂, -⟩ | ⟨-, -, hcell₂⟩
    · exact h h₁ h₂
    · exact absurd hcell₂ hne₁
  · rcases hown hsecond with ⟨-, hne₂⟩ | ⟨rfl, rfl, -⟩
    · exact absurd hcell₁ hne₂
    · exact ⟨rfl, rfl⟩

/-- Functions have no cells. -/
theorem own?_bindFunction (layout : Layout) (scope : Nat) (key : FunctionKey)
    (callable : Callable) (other : Nat) (name : String) :
    Layout.own? (layout.bindFunction scope key callable) other name = layout.own? other name := by
  unfold own? Arena.bindFunction
  by_cases heq : scope = other
  · subst heq
    rw [Arena.scope?_modify_self, Option.bind_map]
    rfl
  · rw [Arena.scope?_modify_of_ne heq]

/-- So binding one leaves all cells apart. -/
theorem Apart.bindFunction (h : layout.Apart) (scope : Nat) (key : FunctionKey)
    (callable : Callable) : Layout.Apart (layout.bindFunction scope key callable) := by
  intro first second name name' cell hfirst hsecond
  rw [own?_bindFunction] at hfirst hsecond
  exact h hfirst hsecond

end Layout

/-! ### Environments -/

namespace Views

variable {layout : Layout} {scope : Nat} {env : Environment}

/-- The nearest frame with a variable is the same on the chain and in the
environment. -/
theorem nearestVariable?_eq (h : Views layout scope env) (name : String) :
    nearestVariable? name (layout.chain scope) = env.cell? name := by
  rw [h.chain_eq, nearestVariable?, Environment.frames, Environment.cell?, List.findSome?_append,
    List.findSome?_append, List.findSome?_map]
  rfl

/-- The functions are those of the program: other frames bind none. -/
theorem nearestFunction?_eq (h : Views layout scope env) (key : FunctionKey) :
    nearestFunction? key (layout.chain scope) = env.functions.get? key := by
  have hlocals : env.locals.findSome?
      ((fun frame : Frame Cell Callable => frame.functionTable.get? key) ∘ (⟨·, .empty⟩)) = none :=
    List.findSome?_eq_none_iff.mpr fun _ _ => rfl
  rw [h.chain_eq, nearestFunction?, Environment.frames, List.findSome?_append, List.findSome?_map,
    hlocals, Option.none_or, List.findSome?_cons, List.findSome?_nil]
  cases env.functions.get? key <;> rfl

/-- The scope is live. -/
theorem lt_size (h : Views layout scope env) : scope < layout.size := by
  obtain ⟨frame, rest, hcons⟩ : ∃ frame rest, env.frames = frame :: rest := by
    unfold Environment.frames
    cases env.locals with
    | nil => exact ⟨_, _, rfl⟩
    | cons frame rest => exact ⟨_, _, rfl⟩
  obtain ⟨s, hs⟩ := Arena.exists_scope?_of_chain_eq_cons (h.chain_eq.trans hcons)
  exact Arena.scope?_lt hs

/-- The program's scope is always live, so a fresh scope is another one. -/
theorem size_ne_root (h : Views layout scope env) : layout.size ≠ Arena.root := by
  intro heq
  have hlt := h.lt_size
  rw [heq] at hlt
  exact Nat.not_lt_zero scope hlt

/-- From the program's scope only the program's frame is seen. -/
theorem outermost (h : Views layout scope env) : Views layout Arena.root env.outermost :=
  ⟨h.root_eq, h.root_eq, fun _ => rfl⟩

/-- A fresh scope views the environment with a fresh frame. -/
theorem push (h : Views layout scope env) (hordered : layout.Ordered) :
    Views (layout.push scope) layout.size env.enter := by
  have hlt := h.lt_size
  have hpos : Arena.root < layout.size := Nat.lt_of_le_of_lt (Nat.zero_le scope) hlt
  refine ⟨?_, ?_, fun hnil => by cases hnil⟩
  · rw [Arena.chain_push hordered hlt, h.chain_eq]
    rfl
  · rw [Arena.chain_push_of_lt hordered hpos]
    exact h.root_eq

/-- Binding a variable in the scope is binding it in the innermost frame. -/
theorem bind (h : Views layout scope env) (hordered : layout.Ordered) (name : String)
    (cell : Cell) : Views (layout.bindVariable scope name cell) scope (env.bind name cell) := by
  have hchain := h.chain_eq
  have hroot := h.root_eq
  unfold Environment.frames at hchain
  unfold Environment.bind
  cases hlocals : env.locals with
  | nil =>
      rw [hlocals] at hchain
      obtain rfl := h.atRoot hlocals
      have hbound := Arena.chain_bindVariable hordered hchain name cell
      exact ⟨by rw [hbound]; simp [Environment.frames, Frame.setVariable], hbound,
        fun _ => rfl⟩
  | cons frame rest =>
      rw [hlocals] at hchain
      -- The chain of the scope is longer than that of the program, so the scope is another.
      have hne : scope ≠ Arena.root := by
        rintro rfl
        rw [hroot] at hchain
        have hlength := congrArg List.length hchain
        simp [Environment.frames, Environment.outermost] at hlength
      refine ⟨Arena.chain_bindVariable hordered hchain name cell, ?_, fun hnil => by cases hnil⟩
      have hlt : Arena.root < scope := Nat.pos_of_ne_zero hne
      rw [Arena.bindVariable, Arena.chain_modify_of_lt hordered hlt]
      exact hroot

/-- Binding a function in the program's scope is binding it for all to see. -/
theorem define (h : Views layout Arena.root env) (hordered : layout.Ordered)
    (hlocals : env.locals = []) (key : FunctionKey) (callable : Callable) :
    Views (layout.bindFunction Arena.root key callable) Arena.root (env.define key callable) := by
  have hbound := Arena.chain_bindFunction hordered h.root_eq key callable
  refine ⟨hbound.trans ?_, hbound, fun _ => rfl⟩
  unfold Environment.frames Environment.define
  rw [hlocals]
  rfl

end Views

/-! ### Machines -/

namespace Mirrors

variable {machine : Machine} {layout layout' : Layout} {mem : Memory} {scope : Nat}
  {env : Environment}

/-- A cell of the layout has been used, so the fresh one is none of them. -/
theorem lt_fresh (h : Mirrors machine layout mem) {owner : Nat} {name : String} {cell : Cell}
    (hcell : layout.own? owner name = some cell) : cell < mem.fresh := by
  obtain ⟨s, hs, hget⟩ := Layout.own?_eq_some hcell
  have hlt := Arena.scope?_lt hs
  rw [← h.scopes.size_eq] at hlt
  obtain ⟨s', hs'⟩ : ∃ s', machine.scopes.scope? owner = some s' :=
    ⟨_, List.getElem?_eq_getElem hlt⟩
  exact (h.scopes.scope owner s' s hs' hs).2.lt_length hget

/-- A variable has the value that is in its cell. -/
theorem boundVariable?_eq (h : Mirrors machine layout mem) (hviews : Views layout scope env)
    (name : String) : machine.scopes.boundVariable? scope name = mem.lookup? env name := by
  have hnearest {chain : List (Frame Value Callable)} {places : List (Frame Cell Callable)}
      (hchain : List.Forall₂ (Holds mem.cells) chain places) :
      nearestVariable? name chain = (nearestVariable? name places).bind (mem.cells[·]?) := by
    induction hchain with
    | nil => rfl
    | cons hframe _ ih =>
        have hname := hframe.onVariables name
        rw [nearestVariable?, nearestVariable?, List.findSome?_cons, List.findSome?_cons]
        revert hname
        cases Bindings.get? _ name <;> cases Bindings.get? _ name <;> intro hname <;> cases hname
        · exact ih
        · next hvalue => exact hvalue.symm
  rw [PlcLang.boundVariable?_eq, hnearest (h.scopes.chain scope), hviews.nearestVariable?_eq]
  rfl

/-- Functions are found in the environment. -/
theorem boundFunction?_eq (h : Mirrors machine layout mem) (hviews : Views layout scope env)
    (key : FunctionKey) :
    machine.scopes.boundFunction? scope key = env.functions.get? key := by
  have hnearest {chain : List (Frame Value Callable)} {places : List (Frame Cell Callable)}
      (hchain : List.Forall₂ (Holds mem.cells) chain places) :
      nearestFunction? key chain = nearestFunction? key places := by
    induction hchain with
    | nil => rfl
    | cons hframe _ ih =>
        rw [nearestFunction?, nearestFunction?, List.findSome?_cons, List.findSome?_cons,
          hframe.onFunctions]
        cases Bindings.get? _ key with
        | some callable => rfl
        | none => exact ih
  rw [PlcLang.boundFunction?_eq, hnearest (h.scopes.chain scope), hviews.nearestFunction?_eq]

/-- The scope that owns a variable binds it to the cell that is seen. Where no scope
owns one, none is seen. -/
theorem ownerOfVariable?_spec (h : Mirrors machine layout mem) (hviews : Views layout scope env)
    (name : String) :
    match machine.scopes.ownerOfVariable? scope name with
    | some owner => ∃ cell, env.cell? name = some cell ∧ layout.own? owner name = some cell
    | none => env.cell? name = none := by
  have hspec := PlcLang.ownerOfVariable?_spec layout scope name
  rw [hviews.nearestVariable?_eq,
    h.scopes.ownerOfVariable? (fun _ _ hframe => hframe.contains_eq) scope name] at hspec
  revert hspec
  cases machine.scopes.ownerOfVariable? scope name with
  | none => exact id
  | some owner =>
      rintro ⟨s, cell, hs, hget, hcell⟩
      exact ⟨cell, hcell, (Layout.own?_of_scope? hs).trans hget⟩

/-- Assigning to a variable changes its cell. No other variable has the cell, so all
others stay. -/
theorem write (h : Mirrors machine layout mem) {owner : Nat} {name : String} {cell : Cell}
    (hcell : layout.own? owner name = some cell) (value : Value) :
    Mirrors (machine.bind owner name value) layout (mem.write cell value) := by
  refine ⟨⟨?_, fun i s s' hs hs' => ?_⟩, h.ordered, h.apart, h.heap_eq, h.methods_eq, h.output_eq⟩
  · exact (Arena.size_modify ..).trans h.scopes.size_eq
  · have hown (other : String) (hother : s'.variableTable.get? other = some cell) :
        i = owner ∧ other = name :=
      h.apart ((Layout.own?_of_scope? hs').trans hother) hcell
    replace hs : (machine.scopes.bindVariable owner name value).scope? i = some s := hs
    by_cases heq : owner = i
    · subst heq
      rw [Arena.bindVariable, Arena.scope?_modify_self] at hs
      obtain ⟨before, hbefore, rfl⟩ := Option.map_eq_some_iff.mp hs
      obtain ⟨hparent, hholds⟩ := h.scopes.scope owner before s' hbefore hs'
      rw [Layout.own?_of_scope? hs'] at hcell
      exact ⟨hparent, hholds.write hcell (fun other hother => (hown other hother).2) value⟩
    · rw [Arena.bindVariable, Arena.scope?_modify_of_ne heq] at hs
      obtain ⟨hparent, hholds⟩ := h.scopes.scope i s s' hs hs'
      exact ⟨hparent, hholds.write_of_forall_ne
        (fun other hother => heq (hown other hother).1.symm) value⟩

/-- A declared variable has a fresh cell. -/
theorem bind (h : Mirrors machine layout mem) (scope : Nat) (name : String) (value : Value) :
    Mirrors (machine.bind scope name value) (layout.bindVariable scope name mem.fresh)
      (mem.alloc value) := by
  have hfresh (other : Nat) (name' : String) : layout.own? other name' ≠ some mem.fresh :=
    fun hcell => Nat.lt_irrefl _ (h.lt_fresh hcell)
  have hgrown : Arena.Corresponds (Holds (mem.alloc value).cells) machine.scopes layout :=
    h.scopes.imp fun _ _ hframe => hframe.append [value]
  have hcell : (mem.alloc value).cells[mem.fresh]? = some value := by
    simp [Memory.alloc, Memory.fresh]
  exact ⟨hgrown.modify (fun _ => rfl) (fun _ => rfl) fun _ _ _ _ hframe =>
      hframe.setVariable hcell,
    h.ordered.modify fun _ => rfl, h.apart.bindVariable hfresh, h.heap_eq, h.methods_eq,
    h.output_eq⟩

/-- A method is bound on both sides, and has no cell. -/
theorem define (h : Mirrors machine layout mem) (method : Method Offset) :
    Mirrors (machine.define method)
      (layout.bindFunction Arena.root (method.name, method.parameters.length) (.method method))
      mem :=
  ⟨h.scopes.modify (fun _ => rfl) (fun _ => rfl) fun _ _ _ _ hframe =>
      hframe.setFunction _ (.method method),
    h.ordered.modify fun _ => rfl, h.apart.bindFunction Arena.root _ (.method method), h.heap_eq,
    h.methods_eq, h.output_eq⟩

/-- A fresh scope has no cells. -/
theorem push (h : Mirrors machine layout mem) {parent : Nat} (hparent : parent < layout.size) :
    Mirrors (machine.enter parent) (layout.push parent) mem :=
  ⟨h.scopes.push (.empty _), h.ordered.push hparent, h.apart.push parent, h.heap_eq,
    h.methods_eq, h.output_eq⟩

/-- When the scope on top is released the layout is again the one from before. What
was written to older cells meanwhile stays. -/
theorem leave (h : Mirrors machine layout' mem) {parent : Nat} (hordered : layout.Ordered)
    (hapart : layout.Apart) (hsize : layout.size ≠ Arena.root)
    (hgrown : Grown layout.size (layout.push parent) layout') :
    Mirrors (machine.leave layout.size) layout mem := by
  obtain ⟨f, -, rfl⟩ := hgrown
  have hrelease : Arena.Corresponds (Holds mem.cells)
      ((machine.scopes.release layout.size).toOption.getD machine.scopes)
      ((Arena.release _ layout.size).toOption.getD _) := h.scopes.release
  rw [Arena.release_modify_push layout parent f hsize] at hrelease
  exact ⟨hrelease, hordered, hapart, h.heap_eq, h.methods_eq, h.output_eq⟩

/-- Assigning to a field changes the object in the heap. -/
theorem setField (h : Mirrors machine layout mem) (ref : ObjectRef) (name : String)
    (value : Value) :
    Mirrors { machine with heap := machine.heap.setField ref name value } layout
      (mem.setField ref name value) :=
  ⟨h.scopes, h.ordered, h.apart, congrArg (·.setField ref name value) h.heap_eq, h.methods_eq,
    h.output_eq⟩

/-- A line is printed on both sides. -/
theorem print (h : Mirrors machine layout mem) (text : String) :
    Mirrors (machine.print text) layout (mem.print text) :=
  ⟨h.scopes, h.ordered, h.apart, h.heap_eq, h.methods_eq,
    congrArg (· ++ text ++ "\n") h.output_eq⟩

end Mirrors

end PlcLang.Reference
