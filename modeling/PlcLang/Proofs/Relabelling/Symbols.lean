import PlcLang.Proofs.Relabelling.Trees

/-!
# `PlcLang.Proofs.Relabelling.Symbols`: what the checker finds, under other labels

What the checker notes on a tree, the symbols that it keeps and the errors that it raises have
places and names in them. This module says what other labels make of each.

Members have symbols of the host's making, which no program relabels. Where new labels leave
those alone (`TypeTable.Unlabelled`), a relabelled program is checked as the program is. The
built-in types have no members (`TypeTable.memberless_builtin`).
-/

set_option autoImplicit false

namespace PlcLang

/-! ### Symbols, notes and errors -/

section

variable (place : Offset → Offset) (names : Naming)

/-- The symbol of a relabelled variable. -/
def VariableSymbol.relabel (symbol : VariableSymbol) : VariableSymbol :=
  ⟨names.ofVariable symbol.name, symbol.type, symbol.offset.map place⟩

/-- The symbol of a relabelled function. Its types stay as they are. -/
def FunctionSymbol.relabel (symbol : FunctionSymbol) : FunctionSymbol :=
  ⟨names.ofMethod symbol.name, symbol.parameters, symbol.result, symbol.offset.map place⟩

/-- The symbol that a relabelled node stands for. -/
def Symbol.relabel : Symbol → Symbol
  | .variable symbol => .variable (symbol.relabel place names)
  | .function symbol => .function (symbol.relabel place names)

/-- The note of a relabelled node: its type stays, and its place and its symbol are
relabelled. -/
def Note.relabel (note : Note) : Note :=
  ⟨place note.offset, note.type, note.symbol.map (Symbol.relabel place names)⟩

/-- The cause with the names that a relabelling gives. -/
def CheckCause.rename : CheckCause → CheckCause
  | .needsTypeOrValue name => .needsTypeOrValue (names.ofVariable name)
  | .alreadyDefined name => .alreadyDefined (names.ofVariable name)
  | .methodAlreadyDefined key => .methodAlreadyDefined (names.key key)
  | .duplicateParameter name => .duplicateParameter (names.ofVariable name)
  | .undefinedVariable name => .undefinedVariable (names.ofVariable name)
  | .undefinedFunction key => .undefinedFunction (names.key key)
  | cause => cause

/-- The error of a relabelled program. -/
def CheckError.relabel (e : CheckError) : CheckError :=
  ⟨e.cause.rename names, e.offset.map place⟩

end

/-! ### All labels as they are -/

/-- With all labels as they are the symbol of a variable is the symbol. -/
@[simp] theorem VariableSymbol.relabel_same : VariableSymbol.relabel id .same = id := by
  funext symbol
  show VariableSymbol.mk symbol.name symbol.type (symbol.offset.map id) = symbol
  rw [Option.map_id_apply]

/-- So is the symbol of a function. -/
@[simp] theorem FunctionSymbol.relabel_same : FunctionSymbol.relabel id .same = id := by
  funext symbol
  show FunctionSymbol.mk symbol.name _ _ (symbol.offset.map id) = symbol
  rw [Option.map_id_apply]

/-- So is a note. -/
@[simp] theorem Note.relabel_same (note : Note) : note.relabel id .same = note := by
  obtain ⟨offset, type, symbol⟩ := note
  cases symbol with
  | none => rfl
  | some symbol => cases symbol <;> simp [Note.relabel, Symbol.relabel]

/-- So is the cause of an error. -/
@[simp] theorem CheckCause.rename_same (cause : CheckCause) : cause.rename .same = cause := by
  cases cause <;> rfl

/-! ### Members -/

/-- No type has a member. -/
structure TypeTable.Memberless (types : TypeTable) : Prop where
  field? : ∀ type name, types.field? type name = none
  method? : ∀ type key, types.method? type key = none

/-- The built-in types have no members. -/
theorem TypeTable.memberless_builtin : TypeTable.builtin.Memberless where
  field? type name := by cases type <;> rfl
  method? type key := by cases type <;> rfl

/-- The symbols of members are the same under the new labels. -/
structure TypeTable.Unlabelled (types : TypeTable) (place : Offset → Offset)
    (names : Naming) : Prop where
  field? : ∀ type name symbol, types.field? type name = some symbol →
    symbol.relabel place names = symbol
  method? : ∀ type key symbol, types.method? type key = some symbol →
    symbol.relabel place names = symbol

/-- Where there are no members, new labels leave all of them alone. -/
theorem TypeTable.Memberless.unlabelled {types : TypeTable} (h : types.Memberless)
    (place : Offset → Offset) (names : Naming) : types.Unlabelled place names where
  field? type name symbol hsymbol := by
    rw [h.field?] at hsymbol
    cases hsymbol
  method? type key symbol hsymbol := by
    rw [h.method?] at hsymbol
    cases hsymbol

/-- Labels that are as they were leave all members alone. -/
theorem TypeTable.unlabelled_same (types : TypeTable) : types.Unlabelled id .same where
  field? _ _ symbol _ := congrFun VariableSymbol.relabel_same symbol
  method? _ _ symbol _ := congrFun FunctionSymbol.relabel_same symbol

end PlcLang
