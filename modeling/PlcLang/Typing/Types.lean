import PlcLang.Scope
import PlcLang.Syntax

/-!
# `PlcLang.Typing.Types`: types and what they say about names

Types are nominal: two types are the same if they have the same name. Nine
are built in, and a host may register more. A type says whether its values
can be compared and which members they have; the built-in ones have none.

A value of one type may stand where another is wanted if the types are the
same, if any value is wanted, or if a comparable one is wanted and the type
is comparable: `TypeTable.assignable`.
-/

set_option autoImplicit false

namespace PlcLang

/-- A static type. `comparable`, `any` and `integerIterable` have no values of their
own: they say what is wanted. -/
inductive Ty where
  | nil
  | boolean
  | integer
  | decimal
  | character
  | string
  | comparable
  | any
  | integerIterable
  | host (name : String)
deriving DecidableEq, Repr

namespace Ty

/-- The type's name. -/
def name : Ty → String
  | nil => "Nil"
  | boolean => "Boolean"
  | integer => "Integer"
  | decimal => "Decimal"
  | character => "Character"
  | string => "String"
  | comparable => "Comparable"
  | any => "Any"
  | integerIterable => "IntegerIterable"
  | host name => name

/-- The type of a name: a built-in one, or the host's type of that name. -/
def named : String → Ty
  | "Nil" => nil
  | "Boolean" => boolean
  | "Integer" => integer
  | "Decimal" => decimal
  | "Character" => character
  | "String" => string
  | "Comparable" => comparable
  | "Any" => any
  | "IntegerIterable" => integerIterable
  | name => host name

/-- What stands for the type of a host's binding when no type has the name
that the host gives. It fits itself and nothing but `any`. -/
def unresolved : Ty :=
  host "<unresolved>"

/-- The built-in types, each with whether its values can be compared. -/
def builtins : List (Ty × Bool) :=
  [(nil, false), (boolean, true), (integer, true), (decimal, true), (character, true),
    (string, true), (comparable, true), (any, false), (integerIterable, false)]

/-- Whether the type has arithmetic. -/
def isNumeric : Ty → Bool
  | integer | decimal => true
  | _ => false

end Ty

/-- What a variable's name is bound to: its type, and where it is declared
if the program declares it. -/
structure VariableSymbol where
  name : String
  type : Ty
  offset : Option Offset
deriving DecidableEq, Repr

/-- What a function's name is bound to. The parameters of a method leave
the receiver out. -/
structure FunctionSymbol where
  name : String
  parameters : List Ty
  result : Ty
  offset : Option Offset
deriving DecidableEq, Repr

namespace FunctionSymbol

/-- How many parameters the function has. -/
def arity (symbol : FunctionSymbol) : Nat :=
  symbol.parameters.length

/-- The name by which calls find the function: its name and its arity. -/
def key (symbol : FunctionSymbol) : FunctionKey :=
  (symbol.name, symbol.arity)

/-- The function's name and types, as they are shown to people. -/
def signature (symbol : FunctionSymbol) : String :=
  symbol.name ++ "(" ++ ", ".intercalate (symbol.parameters.map Ty.name) ++ "): "
    ++ symbol.result.name

end FunctionSymbol

/-- What is known of one type. Only a host gives types members. -/
structure TypeInfo where
  comparable : Bool
  fields : Bindings String VariableSymbol := .empty
  methods : Bindings FunctionKey FunctionSymbol := .empty

/-- The types that a program may name. A program adds none. -/
structure TypeTable where
  entries : Bindings Ty TypeInfo

/-- A type can be registered once, and a built-in one is registered from the
beginning. -/
inductive TypeTableError where
  | alreadyRegistered (name : String)
deriving DecidableEq, Repr

/-- The wording. -/
def TypeTableError.message : TypeTableError → String
  | alreadyRegistered name => "type '" ++ name ++ "' is already registered"

namespace TypeTable

/-- The table of the built-in types. -/
def builtin : TypeTable :=
  ⟨⟨Ty.builtins.map fun (type, comparable) => (type, ⟨comparable, .empty, .empty⟩)⟩⟩

/-- The type of that name, if there is one. A type that is not in the table has no
name that would find it. -/
def resolve? (types : TypeTable) (name : String) : Option Ty :=
  let type := Ty.named name
  if types.entries.contains type then some type else none

/-- The type that a host means by a name. One that nobody has registered is the
unresolved one. -/
def resolve (types : TypeTable) (name : String) : Ty :=
  (types.resolve? name).getD .unresolved

/-- Adds a type without members. Members come one by one, since they may speak of
the type itself. -/
def register (types : TypeTable) (name : String) (comparable : Bool) :
    Except TypeTableError TypeTable :=
  match types.resolve? name with
  | some _ => .error (.alreadyRegistered name)
  | none => .ok ⟨types.entries.set (Ty.named name) ⟨comparable, .empty, .empty⟩⟩

/-- The names of all types, in order. -/
def names (types : TypeTable) : List String :=
  (types.entries.entries.map (·.1.name)).mergeSort nameLe

/-- Whether values of a type can be compared. Of a type that is not in the table
they cannot. -/
def isComparable (types : TypeTable) (type : Ty) : Bool :=
  match types.entries.get? type with
  | some info => info.comparable
  | none => false

/-- Whether a value of type `source` may stand where `target` is wanted. -/
def assignable (types : TypeTable) (target source : Ty) : Bool :=
  target == source || target == .any || (target == .comparable && types.isComparable source)

/-- Changes what is known of a type. One that is not in the table stays out of it. -/
def update (types : TypeTable) (type : Ty) (f : TypeInfo → TypeInfo) : TypeTable :=
  match types.entries.get? type with
  | some info => ⟨types.entries.set type (f info)⟩
  | none => types

/-- Gives a type a field, in place of one of that name. -/
def defineField (types : TypeTable) (type : Ty) (symbol : VariableSymbol) : TypeTable :=
  types.update type fun info => { info with fields := info.fields.set symbol.name symbol }

/-- Gives a type a method, in place of one of that name and arity. -/
def defineMethod (types : TypeTable) (type : Ty) (symbol : FunctionSymbol) : TypeTable :=
  types.update type fun info => { info with methods := info.methods.set symbol.key symbol }

/-- The field of a type of that name. -/
def field? (types : TypeTable) (type : Ty) (name : String) : Option VariableSymbol :=
  (types.entries.get? type).bind (·.fields.get? name)

/-- The method of a type of that name and arity. -/
def method? (types : TypeTable) (type : Ty) (key : FunctionKey) : Option FunctionSymbol :=
  (types.entries.get? type).bind (·.methods.get? key)

end TypeTable

end PlcLang
