import PlcLang.Proofs.Ordering.Methods

/-!
# `PlcLang.Proofs.Scoping.RootScope`: what an analysis does to the program's scope

The checker adds symbols to the program's scope and takes none away. Each field adds a variable
(`AddsField`) and the header of each method a function (`AddsHeader`), in their order; bodies and
the method to start with add nothing. Where the checker fails it stops, and nothing of what has
been added is taken back.

* `FailsIn`: where a run of the checker fails. What is in front of that place has succeeded.
* `Extends`: the program's scope before and after, with the fields and the methods whose symbols
  it has more. `Extends.variable_kept` and `function_kept`: what it bound before is still bound.
* `addsAll_of_mapM`: what one field or header adds, all of a list add one after the other.
* `program_extends_root` is the whole: whether the checker accepts a program or not, the scope is
  the only one there is in the end, and it has been extended by all that is in front of the
  place of the error.
-/

set_option autoImplicit false

namespace PlcLang

variable {α β γ : Type}

/-- A new entry is the last one. -/
theorem Bindings.entries_set_of_new {κ : Type} [BEq κ] [LawfulBEq κ] {bindings : Bindings κ α}
    {key : κ} {value : α} (h : bindings.get? key = none) :
    (bindings.set key value).entries = bindings.entries ++ [(key, value)] := by
  obtain ⟨entries⟩ := bindings
  show Bindings.setEntry key value entries = entries ++ [(key, value)]
  replace h : entries.lookup key = none := h
  induction entries with
  | nil => rfl
  | cons entry rest ih =>
      obtain ⟨k, v⟩ := entry
      rw [List.lookup_cons] at h
      cases hkey : key == k with
      | true =>
          rw [hkey] at h
          cases h
      | false =>
          rw [hkey] at h
          have hother : ¬ (k == key) = true := by
            rw [beq_iff_eq]
            rintro rfl
            exact absurd hkey (by simp)
          rw [Bindings.setEntry, if_neg hother, ih h, List.cons_append]

namespace Proofs

open Checker

/-- What the program's scope binds while the checker is at work. -/
abbrev RootFrame := Frame VariableSymbol FunctionSymbol

/-- The symbol of a field that is new in the frame: its type is the one that the field names, or
that of its value. -/
structure AddsField (types : TypeTable) (frame : RootFrame) (field : Field Offset)
    (symbol : VariableSymbol) : Prop where
  name : symbol.name = field.declaration.name
  offset : symbol.offset = some field.mark
  declared : ∀ typeName ∈ field.declaration.typeName, types.resolve? typeName = some symbol.type
  inferred : field.declaration.typeName = none → ∃ value ∈ field.declaration.value, ∃ value',
    plain.infer types Arena.root value (Arena.single frame)
      = .ok (symbol.type, value') (Arena.single frame)
  isNew : frame.variableTable.get? symbol.name = none

/-- The symbol of a method's header that is new in the frame. -/
structure AddsHeader (types : TypeTable) (frame : RootFrame) (method : Method Offset)
    (symbol : FunctionSymbol) : Prop extends Declares types method symbol where
  isNew : frame.functionTable.get? symbol.key = none

/-- Each of a list adds its symbol to the frame that those in front of it have left. -/
inductive AddsAll (Adds : RootFrame → α → β → Prop) (add : RootFrame → β → RootFrame) :
    RootFrame → List α → List β → RootFrame → Prop where
  | nil {frame : RootFrame} : AddsAll Adds add frame [] [] frame
  | cons {frame after : RootFrame} {a : α} {symbol : β} {rest : List α} {symbols : List β}
      (h : Adds frame a symbol) (hrest : AddsAll Adds add (add frame symbol) rest symbols after) :
      AddsAll Adds add frame (a :: rest) (symbol :: symbols) after

/-- Each of the fields adds its variable. -/
abbrev AddsFields (types : TypeTable) :=
  AddsAll (AddsField types) fun frame symbol => frame.setVariable symbol.name symbol

/-- The header of each of the methods adds its function. -/
abbrev AddsHeaders (types : TypeTable) :=
  AddsAll (AddsHeader types) fun frame symbol => frame.setFunction symbol.key symbol

/-- The frame `after` is `before` with the symbols of some first fields of the program, and, if
these are all of them, of the headers of some first methods. -/
structure Extends (types : TypeTable) (program : Program Offset) (before after : RootFrame)
    (fields : List (Field Offset)) (methods : List (Method Offset)) : Prop where
  fields_prefix : fields <+: program.fields
  methods_prefix : methods <+: program.methods
  complete : methods ≠ [] → fields = program.fields
  adds : ∃ found headers middle,
    AddsFields types before fields found middle ∧ AddsHeaders types middle methods headers after
      ∧ after.variableTable.entries
        = before.variableTable.entries ++ found.map (fun symbol => (symbol.name, symbol))
      ∧ after.functionTable.entries
        = before.functionTable.entries ++ headers.map (fun symbol => (symbol.key, symbol))
  variable_kept : ∀ name symbol, before.variableTable.get? name = some symbol →
    after.variableTable.get? name = some symbol
  function_kept : ∀ key symbol, before.functionTable.get? key = some symbol →
    after.functionTable.get? key = some symbol

/-- A part of a program at which the checker may fail: the field or the header behind some others,
the body of a method, or the method to start with. -/
inductive CheckPart where
  | field (before : List (Field Offset))
  | header (before : List (Method Offset))
  | body
  | start

namespace CheckPart

/-- The fields in front of the part. -/
def fields (program : Program Offset) : CheckPart → List (Field Offset)
  | field before => before
  | _ => program.fields

/-- The methods whose headers are in front of the part. -/
def methods (program : Program Offset) : CheckPart → List (Method Offset)
  | field _ => []
  | header before => before
  | _ => program.methods

end CheckPart

/-- Begun in `symbols`, the checker goes through all that is in front of the part, and fails in
it. -/
inductive FailsIn (types : TypeTable) (program : Program Offset) (symbols : Symbols) :
    CheckPart → CheckError → Symbols → Prop where
  | field {before rest : List (Field Offset)} {field : Field Offset} {checked : List (Field Note)}
      {middle after : Symbols} {e : CheckError} (hparts : program.fields = before ++ field :: rest)
      (hbefore : before.mapM (plain.checkField types) symbols = .ok checked middle)
      (h : plain.checkField types field middle = .error e after) :
      FailsIn types program symbols (.field before) e after
  | header {before rest : List (Method Offset)} {method : Method Offset}
      {checked : List (Field Note)} {found : List FunctionSymbol} {defined middle after : Symbols}
      {e : CheckError}
      (hfields : program.fields.mapM (plain.checkField types) symbols = .ok checked defined)
      (hparts : program.methods = before ++ method :: rest)
      (hbefore : before.mapM (plain.declareMethod types) defined = .ok found middle)
      (h : plain.declareMethod types method middle = .error e after) :
      FailsIn types program symbols (.header before) e after
  | body {before rest : List (Method Offset × FunctionSymbol)} {method : Method Offset}
      {symbol : FunctionSymbol} {checked : List (Field Note)} {found : List FunctionSymbol}
      {bodies : List (Method Note)} {defined declared middle after : Symbols} {e : CheckError}
      (hfields : program.fields.mapM (plain.checkField types) symbols = .ok checked defined)
      (hheaders : program.methods.mapM (plain.declareMethod types) defined = .ok found declared)
      (hparts : program.methods.zip found = before ++ (method, symbol) :: rest)
      (hbefore :
        (before.mapM fun (method, symbol) => plain.checkMethod types method symbol) declared
          = .ok bodies middle)
      (h : plain.checkMethod types method symbol middle = .error e after) :
      FailsIn types program symbols .body e after
  | start {checked : List (Field Note)} {found : List FunctionSymbol} {bodies : List (Method Note)}
      {defined declared middle after : Symbols} {e : CheckError}
      (hfields : program.fields.mapM (plain.checkField types) symbols = .ok checked defined)
      (hheaders : program.methods.mapM (plain.declareMethod types) defined = .ok found declared)
      (hbodies : ((program.methods.zip found).mapM fun (method, symbol) =>
        plain.checkMethod types method symbol) declared = .ok bodies middle)
      (h : checkMain (program.methods.zip found) middle = .error e after) :
      FailsIn types program symbols .start e after

/-! ### Where a run ends -/

variable {types : TypeTable} {program : Program Offset} {symbols after : Symbols} {e : CheckError}

/-- An accepted program has gone through its four stages: the fields, the headers of
the methods, their bodies and the method to start with. The symbols between the
stages are named, so that each can be spoken of by itself. -/
theorem exists_of_program_eq_ok {checked : Program Note}
    (h : plain.program types program symbols = .ok checked after) :
    ∃ fields found bodies defined declared middle,
      program.fields.mapM (plain.checkField types) symbols = .ok fields defined
        ∧ program.methods.mapM (plain.declareMethod types) defined = .ok found declared
        ∧ ((program.methods.zip found).mapM fun (method, symbol) =>
            plain.checkMethod types method symbol) declared = .ok bodies middle
        ∧ checkMain (program.methods.zip found) middle = .ok () after := by
  unfold Checker.program at h
  obtain ⟨fields, defined, hfields, h⟩ := bind_eq_ok_iff.mp h
  obtain ⟨found, declared, hheaders, h⟩ := bind_eq_ok_iff.mp h
  rw [marking_before, pure_bind] at h
  obtain ⟨bodies, middle, hbodies, h⟩ := bind_eq_ok_iff.mp h
  obtain ⟨_, last, hmain, h⟩ := bind_eq_ok_iff.mp h
  cases h
  exact ⟨fields, found, bodies, defined, declared, middle, hfields, hheaders, hbodies, hmain⟩

/-- A run that fails does so in a part of the program. -/
theorem exists_failsIn (h : plain.program types program symbols = .error e after) :
    ∃ part, FailsIn types program symbols part e after := by
  unfold Checker.program at h
  rcases bind_eq_error_iff.mp h with h | ⟨fields, defined, hfields, h⟩
  · obtain ⟨before, field, rest, checked, middle, hparts, hbefore, h⟩ := exists_of_mapM_eq_error h
    exact ⟨_, .field hparts hbefore h⟩
  rcases bind_eq_error_iff.mp h with h | ⟨found, declared, hheaders, h⟩
  · obtain ⟨before, method, rest, found, middle, hparts, hbefore, h⟩ := exists_of_mapM_eq_error h
    exact ⟨_, .header hfields hparts hbefore h⟩
  rw [marking_before, pure_bind] at h
  rcases bind_eq_error_iff.mp h with h | ⟨bodies, middle, hbodies, h⟩
  · obtain ⟨before, ⟨method, symbol⟩, rest, bodies, middle, hparts, hbefore, h⟩ :=
      exists_of_mapM_eq_error h
    exact ⟨_, .body hfields hheaders hparts hbefore h⟩
  rcases bind_eq_error_iff.mp h with h | ⟨_, _, _, hend⟩
  · exact ⟨_, .start hfields hheaders hbodies h⟩
  · cases hend

/-! ### One symbol -/

/-- An arena with the program's scope alone has that scope. -/
theorem size_single (frame : RootFrame) : 0 < (Arena.single frame).size := Nat.one_pos

/-- After what changes no scope, the next part begins in the same scope. -/
theorem bind_single {frame : RootFrame} {x : Check α} {k : α → Check β} {Q : β → Symbols → Prop}
    (h : ∀ scope, Confined scope x)
    (hk : ∀ a, x (Arena.single frame) = .ok a (Arena.single frame) →
      Yields (k a) (Arena.single frame) Q fun _ after => after = Arena.single frame) :
    Yields (x >>= k) (Arena.single frame) Q fun _ after => after = Arena.single frame := by
  refine (Confined.yields h (size_single frame)).bind ?_
  rintro a _ ⟨rfl, ha⟩
  exact hk a ha

/-- In the program's scope a variable is either new, and added to it, or there
already, and nothing is changed. A field that is declared twice is the second case. -/
theorem defineVariable_single (frame : RootFrame) (symbol : VariableSymbol) (cause : CheckCause)
    (offset : Offset) :
    Yields (plain.defineVariable Arena.root symbol cause offset) (Arena.single frame)
      (fun _ after => frame.variableTable.get? symbol.name = none
        ∧ after = Arena.single (frame.setVariable symbol.name symbol))
      fun _ after => after = Arena.single frame := by
  have hscope : (Arena.single frame).scope? Arena.root
      = some ⟨none, frame.variableTable, frame.functionTable⟩ := rfl
  unfold Yields
  rw [marking_defineVariable_apply]
  unfold Arena.defineVariable Arena.define
  rw [hscope]
  dsimp only
  cases frame.variableTable.get? symbol.name with
  | some existing => rfl
  | none => exact ⟨rfl, rfl⟩

/-- The same of a method. That it succeeds says nothing here of what has been added:
the frame afterwards is what `AddsHeader` speaks of. -/
theorem defineFunction_single (frame : RootFrame) (symbol : FunctionSymbol) (offset : Offset) :
    Yields (plain.defineFunction symbol offset) (Arena.single frame) (fun _ _ => True)
      fun _ after => after = Arena.single frame := by
  have hscope : (Arena.single frame).scope? Arena.root
      = some ⟨none, frame.variableTable, frame.functionTable⟩ := rfl
  unfold Yields
  rw [marking_defineFunction_apply]
  unfold Arena.defineFunction Arena.define
  rw [hscope]
  dsimp only
  cases frame.functionTable.get? symbol.key with
  | some existing => rfl
  | none => trivial

/-- A field adds its variable, or fails and adds nothing. -/
theorem checkField_single (types : TypeTable) (frame : RootFrame) (field : Field Offset) :
    Yields (plain.checkField types field) (Arena.single frame)
      (fun _ after => ∃ symbol, AddsField types frame field symbol
        ∧ after = Arena.single (frame.setVariable symbol.name symbol))
      fun _ after => after = Arena.single frame := by
  obtain ⟨offset, name, typeName, value⟩ := field
  -- Whatever its type and first value turn out to be, the variable is defined in the end.
  have hdefine (type : Ty) (value' : Option (Expr Note))
      (hdeclared : ∀ written ∈ typeName, types.resolve? written = some type)
      (hinferred : typeName = none → ∃ found ∈ value, ∃ found',
        plain.infer types Arena.root found (Arena.single frame)
          = .ok (type, found') (Arena.single frame)) :
      Yields (plain.defineDeclared Arena.root offset ⟨name, typeName, value⟩ type value')
        (Arena.single frame)
        (fun _ after => ∃ symbol, AddsField types frame ⟨offset, name, typeName, value⟩ symbol
          ∧ after = Arena.single (frame.setVariable symbol.name symbol))
        fun _ after => after = Arena.single frame :=
    (defineVariable_single frame ⟨name, type, some offset⟩ _ offset).bind fun _ after hafter =>
      .pure ⟨_, ⟨rfl, rfl, hdeclared, hinferred, hafter.1⟩, hafter.2⟩
  unfold Checker.checkField
  rw [marking_root, marking_look, pure_bind]
  refine Yields.bind ?_ fun _ after hafter => .pure hafter
  cases typeName with
  | none =>
      cases value with
      | none => exact .throw rfl
      | some value =>
          rw [declare_inferred]
          refine bind_single (fun _ => confined_infer _ value) fun typed htype => ?_
          exact hdefine typed.1 (some typed.2) (by simp) fun _ => ⟨value, rfl, typed.2, htype⟩
  | some written =>
      have hwritten {type : Ty} {symbols : Symbols}
          (h : resolveType types written offset (Arena.single frame) = .ok type symbols) :
          ∀ other ∈ some written, types.resolve? other = some type := by
        rintro _ ⟨⟩
        exact ((resolveType_finds type _).mp h).2
      cases value with
      | none =>
          rw [declare_declared]
          exact bind_single (fun _ => confined_resolveType written offset) fun type h =>
            hdefine type none (hwritten h) (by simp)
      | some value =>
          rw [declare_both]
          refine bind_single (fun _ => confined_resolveType written offset) fun type h => ?_
          refine bind_single (fun _ => confined_infer _ value) fun typed _ => ?_
          refine bind_single (fun _ => confined_require type typed.1 value.mark) fun _ _ => ?_
          exact hdefine type (some typed.2) (hwritten h) (by simp)

/-- The header of a method adds its function, or fails and adds nothing. -/
theorem declareMethod_single (types : TypeTable) (frame : RootFrame) (method : Method Offset) :
    Yields (plain.declareMethod types method) (Arena.single frame)
      (fun _ after => ∃ symbol, AddsHeader types frame method symbol
        ∧ after = Arena.single (frame.setFunction symbol.key symbol))
      fun _ after => after = Arena.single frame := by
  have hfailing : Yields (plain.declareMethod types method) (Arena.single frame) (fun _ _ => True)
      fun _ after => after = Arena.single frame := by
    unfold Checker.declareMethod
    refine bind_single (fun _ => Confined.mapM fun name _ =>
      confined_resolveType name method.mark) fun parameters _ => ?_
    have hdefine (result : Ty) :
        Yields (do
          let symbol : FunctionSymbol := ⟨method.name, parameters, result, some method.mark⟩
          plain.defineFunction symbol method.mark
          pure symbol) (Arena.single frame) (fun _ _ => True)
          fun _ after => after = Arena.single frame :=
      (defineFunction_single frame _ method.mark).bind fun _ _ _ => .pure trivial
    cases method.returnType with
    | none => exact hdefine .nil
    | some written =>
        exact bind_single (fun _ => confined_resolveType written method.mark) fun result _ =>
          hdefine result
  unfold Yields
  cases hresult : plain.declareMethod types method (Arena.single frame) with
  | ok symbol after =>
      obtain ⟨hdeclares, ⟨_, ⟨⟩, hnew⟩, rfl⟩ := declareMethod_eq_ok_iff.mp hresult
      exact ⟨symbol, ⟨hdeclares, hnew⟩, rfl⟩
  | error e after => exact hfailing.of_error hresult

/-! ### All symbols -/

namespace AddsAll

variable {Adds : RootFrame → α → β → Prop} {add : RootFrame → β → RootFrame}
  {before after : RootFrame} {list : List α} {added : List β}

/-- The symbols are the last entries of the table that they are added to. -/
theorem entries_eq {κ : Type} [BEq κ] [LawfulBEq κ] {key : β → κ}
    (h : AddsAll Adds add before list added after) (table : RootFrame → Bindings κ β)
    (hadds : ∀ frame a symbol, Adds frame a symbol → (table frame).get? (key symbol) = none)
    (hadd : ∀ frame symbol, table (add frame symbol) = (table frame).set (key symbol) symbol) :
    (table after).entries
      = (table before).entries ++ added.map fun symbol => (key symbol, symbol) := by
  induction h with
  | nil => rw [List.map_nil, List.append_nil]
  | @cons frame after a symbol rest symbols hfirst hrest ih =>
      rw [ih, hadd, Bindings.entries_set_of_new (hadds frame a symbol hfirst), List.append_assoc,
        List.map_cons, List.singleton_append]

/-- Any other table is as it was. -/
theorem table_eq (h : AddsAll Adds add before list added after) (table : RootFrame → γ)
    (hadd : ∀ frame symbol, table (add frame symbol) = table frame) :
    table after = table before := by
  induction h with
  | nil => rfl
  | cons _ _ ih => rw [ih, hadd]

end AddsAll

/-- If each of a list adds its symbol where it succeeds, they all do so one after the other. -/
theorem addsAll_of_mapM {Adds : RootFrame → α → β → Prop} {add : RootFrame → β → RootFrame}
    {k : α → Check γ}
    (hk : ∀ (frame : RootFrame) (a : α), Yields (k a) (Arena.single frame)
      (fun _ after => ∃ symbol, Adds frame a symbol ∧ after = Arena.single (add frame symbol))
      fun _ after => after = Arena.single frame)
    {frame : RootFrame} {list : List α} {answers : List γ}
    (h : list.mapM k (Arena.single frame) = .ok answers after) :
    ∃ added frame', AddsAll Adds add frame list added frame' ∧ after = Arena.single frame' := by
  induction list generalizing frame answers with
  | nil =>
      cases h
      exact ⟨[], frame, .nil, rfl⟩
  | cons a list ih =>
      rw [List.mapM_cons] at h
      obtain ⟨answer, middle, hfirst, h⟩ := bind_eq_ok_iff.mp h
      obtain ⟨more, last, hrest, h⟩ := bind_eq_ok_iff.mp h
      cases h
      obtain ⟨symbol, hadds, rfl⟩ := (hk frame a).of_ok hfirst
      obtain ⟨added, frame', hmore, rfl⟩ := ih hrest
      exact ⟨symbol :: added, frame', .cons hadds hmore, rfl⟩

/-- What a table binds is still bound behind more entries. -/
theorem get?_of_entries_append {κ : Type} [BEq κ] {before after : Bindings κ α}
    {more : List (κ × α)} (h : after.entries = before.entries ++ more) {key : κ} {value : α}
    (hvalue : before.get? key = some value) : after.get? key = some value := by
  have hbefore : before.entries.lookup key = some value := hvalue
  show after.entries.lookup key = some value
  rw [h, List.lookup_append, hbefore, Option.some_or]

section

variable {before middle after : RootFrame} {fields : List (Field Offset)}
  {methods : List (Method Offset)}

/-- Fields and then headers that add their symbols extend the program's scope. -/
theorem extends_of_addsAll {found : List VariableSymbol} {headers : List FunctionSymbol}
    (hfields : fields <+: program.fields) (hmethods : methods <+: program.methods)
    (hcomplete : methods ≠ [] → fields = program.fields)
    (hfound : AddsFields types before fields found middle)
    (hheaders : AddsHeaders types middle methods headers after) :
    Extends types program before after fields methods := by
  have hvariables : middle.variableTable.entries
      = before.variableTable.entries ++ found.map fun symbol => (symbol.name, symbol) :=
    hfound.entries_eq Frame.variableTable (fun _ _ _ h => h.isNew) fun _ _ => rfl
  have hfunctions : after.functionTable.entries
      = middle.functionTable.entries ++ headers.map fun symbol => (symbol.key, symbol) :=
    hheaders.entries_eq Frame.functionTable (fun _ _ _ h => h.isNew) fun _ _ => rfl
  have hsame : after.variableTable = middle.variableTable :=
    hheaders.table_eq Frame.variableTable fun _ _ => rfl
  have hsame' : middle.functionTable = before.functionTable :=
    hfound.table_eq Frame.functionTable fun _ _ => rfl
  rw [← hsame] at hvariables
  rw [hsame'] at hfunctions
  exact
    { fields_prefix := hfields
      methods_prefix := hmethods
      complete := hcomplete
      adds := ⟨found, headers, middle, hfound, hheaders, hvariables, hfunctions⟩
      variable_kept := fun _ _ => get?_of_entries_append hvariables
      function_kept := fun _ _ => get?_of_entries_append hfunctions }

/-- As long as fields are checked, the program's scope is extended by those that
have been checked so far, in their order. -/
theorem extends_of_fields {checked : List (Field Note)} {defined : Symbols}
    (hfields : fields <+: program.fields)
    (h : fields.mapM (plain.checkField types) (Arena.single before) = .ok checked defined) :
    ∃ after, defined = Arena.single after ∧ Extends types program before after fields [] := by
  obtain ⟨found, after, hfound, rfl⟩ := addsAll_of_mapM (checkField_single types) h
  have hnone : ([] : List (Method Offset)) ≠ [] → fields = program.fields := fun h => absurd rfl h
  exact ⟨after, rfl, extends_of_addsAll hfields List.nil_prefix hnone hfound .nil⟩

/-- As long as headers are declared, it is extended by all fields and by the methods
whose headers have been declared so far. -/
theorem extends_of_headers {checked : List (Field Note)} {headers : List FunctionSymbol}
    {defined declared : Symbols} (hmethods : methods <+: program.methods)
    (hfields :
      program.fields.mapM (plain.checkField types) (Arena.single before) = .ok checked defined)
    (hheaders : methods.mapM (plain.declareMethod types) defined = .ok headers declared) :
    ∃ after, declared = Arena.single after
      ∧ Extends types program before after program.fields methods := by
  obtain ⟨found, middle, hfound, rfl⟩ := addsAll_of_mapM (checkField_single types) hfields
  obtain ⟨added, after, hadded, rfl⟩ := addsAll_of_mapM (declareMethod_single types) hheaders
  exact ⟨after, rfl, extends_of_addsAll List.prefix_rfl hmethods (fun _ => rfl) hfound hadded⟩

end

/-- Bodies leave the symbols as they are. -/
theorem eq_of_bodies {pairs : List (Method Offset × FunctionSymbol)} {bodies : List (Method Note)}
    {symbols middle : Symbols} (hsize : 0 < symbols.size)
    (h : (pairs.mapM fun (method, symbol) => plain.checkMethod types method symbol) symbols
      = .ok bodies middle) : middle = symbols :=
  Confined.eq_of_ok (fun _ => Confined.mapM fun pair _ =>
    confined_checkMethod pair.1 pair.2) hsize h

/-- Where the checker fails, the program's scope has been extended by what is in front, and is the
only one. -/
theorem FailsIn.extends {before : RootFrame} {part : CheckPart}
    (h : FailsIn types program (Arena.single before) part e symbols) :
    ∃ after, symbols = Arena.single after
      ∧ Extends types program before after (part.fields program) (part.methods program) := by
  cases h with
  | @field front rest field _ middle _ _ hparts hbefore hfield =>
      obtain ⟨after, rfl, hextends⟩ := extends_of_fields (hparts ▸ List.prefix_append _ _) hbefore
      exact ⟨after, (checkField_single types after field).of_error hfield, hextends⟩
  | @header front rest method _ _ _ _ _ _ hfields hparts hbefore hmethod =>
      obtain ⟨after, rfl, hextends⟩ :=
        extends_of_headers (hparts ▸ List.prefix_append _ _) hfields hbefore
      exact ⟨after, (declareMethod_single types after method).of_error hmethod, hextends⟩
  | @body front rest method symbol _ _ _ _ _ _ _ _ hfields hheaders hparts hbefore hmethod =>
      obtain ⟨after, rfl, hextends⟩ := extends_of_headers List.prefix_rfl hfields hheaders
      obtain rfl := eq_of_bodies (size_single after) hbefore
      exact ⟨after, (Confined.yields (fun _ => confined_checkMethod method symbol)
        (size_single after)).of_error hmethod, hextends⟩
  | start hfields hheaders hbodies hmain =>
      obtain ⟨after, rfl, hextends⟩ := extends_of_headers List.prefix_rfl hfields hheaders
      obtain rfl := eq_of_bodies (size_single after) hbodies
      exact ⟨after, (Confined.yields (fun _ => confined_checkMain _)
        (size_single after)).of_error hmain, hextends⟩

/-- Checking a program, where the program's scope is the only one, extends that scope by the
symbols of its fields and its headers: of all if the program is accepted, and else of those in
front of the part in which the checker fails. -/
theorem program_extends_root (types : TypeTable) (before : RootFrame) (program : Program Offset) :
    match plain.program types program (Arena.single before) with
    | .ok _ symbols => ∃ after, symbols = Arena.single after
        ∧ Extends types program before after program.fields program.methods
    | .error e symbols => ∃ part after,
        FailsIn types program (Arena.single before) part e symbols
        ∧ symbols = Arena.single after
        ∧ Extends types program before after (part.fields program) (part.methods program) := by
  cases hresult : plain.program types program (Arena.single before) with
  | ok checked symbols =>
      obtain ⟨_, _, _, _, _, _, hfields, hheaders, hbodies, hmain⟩ :=
        exists_of_program_eq_ok hresult
      obtain ⟨after, rfl, hextends⟩ := extends_of_headers List.prefix_rfl hfields hheaders
      obtain rfl := eq_of_bodies (size_single after) hbodies
      exact ⟨after, Confined.eq_of_ok (fun _ => confined_checkMain _) (size_single after) hmain,
        hextends⟩
  | error e symbols =>
      obtain ⟨part, hpart⟩ := exists_failsIn hresult
      obtain ⟨after, hafter, hextends⟩ := hpart.extends
      exact ⟨part, after, hpart, hafter, hextends⟩

end Proofs

end PlcLang
