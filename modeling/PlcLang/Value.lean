import PlcLang.Decimal.Notation
import PlcLang.Scope

/-!
# `PlcLang.Value`: what programs compute with

Nil, booleans, integers, decimals, characters and strings come from the
program; sequences, functions and objects from the host. A value has a tag,
a textual form, an equality and, within the tags that are ordered, an
order. Functions and objects have an identity and are equal only to
themselves; an object's fields are kept in a heap.
-/

set_option autoImplicit false

namespace PlcLang

/-- An object of the host: its identity and the name of its type. The fields are in
the heap, so a value does not change when they do. -/
structure ObjectRef where
  id : Nat
  typeName : String
deriving DecidableEq, Repr

/-- A function of the host as a value: its identity, name and arity. It can be
passed on and printed; it is called by name only. -/
structure FunctionRef where
  id : Nat
  key : FunctionKey
deriving DecidableEq, Repr

/-- A runtime value. A character is kept as a text, too, and is still not equal to
the string of that text. -/
inductive Value where
  | nil
  | boolean (value : Bool)
  | integer (value : Int)
  | decimal (value : Decimal)
  | character (text : String)
  | string (text : String)
  | sequence (elements : List Value)
  | function (ref : FunctionRef)
  | object (ref : ObjectRef)
deriving Inhabited, Repr

/-- The variants of a value. An object's tag says of which type it is. -/
inductive Tag where
  | nil
  | boolean
  | integer
  | decimal
  | character
  | string
  | sequence
  | function
  | object (typeName : String)
deriving DecidableEq, Repr

/-- The tag's name. For an object it is the name of its type, whatever else goes by
that name. -/
def Tag.name : Tag → String
  | nil => "Nil"
  | boolean => "Boolean"
  | integer => "Integer"
  | decimal => "Decimal"
  | character => "Character"
  | string => "String"
  | sequence => "Sequence"
  | function => "Function"
  | object typeName => typeName

namespace Value

/-- The value's tag. A sequence has one whatever is in it. -/
def tag : Value → Tag
  | nil => .nil
  | boolean _ => .boolean
  | integer _ => .integer
  | decimal _ => .decimal
  | character _ => .character
  | string _ => .string
  | sequence _ => .sequence
  | function _ => .function
  | object ref => .object ref.typeName

mutual

/-- The textual form: what is printed, and what joins a string. There is
none of a value with an integer in it of too many digits. -/
def display : Value → Except NumberError String
  | nil => .ok "nil"
  | boolean value => .ok (if value then "true" else "false")
  | integer value => integerText value
  | decimal value => .ok value.scientific
  | character text | string text => .ok text
  | sequence elements => do
    let texts ← displayAll elements
    pure ("[" ++ ", ".intercalate texts ++ "]")
  | function ref => .ok ("<function " ++ keyText ref.key ++ ">")
  | object ref => .ok ("<" ++ ref.typeName ++ " object>")

/-- The textual forms of a list of values, up to the first that has none. -/
def displayAll : List Value → Except NumberError (List String)
  | [] => .ok []
  | v :: rest => do
    let text ← v.display
    let texts ← displayAll rest
    pure (text :: texts)

end

mutual

/-- Equality of values. Decimals of different scale can be equal; values of
different tags never are. -/
def equals : Value → Value → Bool
  | nil, nil => true
  | boolean a, boolean b => a == b
  | integer a, integer b => a == b
  | decimal a, decimal b => a.sameValue b
  | character a, character b => a == b
  | string a, string b => a == b
  | sequence as, sequence bs => equalAll as bs
  | function a, function b => a.id == b.id
  | object a, object b => a.id == b.id
  | _, _ => false

/-- Equality of lists of values, one by one. Lists of different lengths are not
equal. -/
def equalAll : List Value → List Value → Bool
  | [], [] => true
  | a :: as, b :: bs => a.equals b && equalAll as bs
  | _, _ => false

end

/-- The order of two values of one ordered tag. Nil, sequences, functions and
objects have none, also among themselves. -/
def compare? : Value → Value → Option Ordering
  | boolean a, boolean b => some (compare a b)
  | integer a, integer b => some (compare a b)
  | decimal a, decimal b => some (Decimal.compare a b)
  | character a, character b => some (compare a b)
  | string a, string b => some (compare a b)
  | _, _ => none

end Value

/-! ### The host's side -/

/-- The fields of all objects, by identity. Identities are given out one after the
other, so an object is a place in a list. -/
structure Heap where
  objects : List (Bindings String Value) := []

namespace Heap

/-- The fields of an object. One that was never made has none. -/
def fields (heap : Heap) (ref : ObjectRef) : Bindings String Value :=
  (heap.objects[ref.id]?).getD .empty

/-- Puts a value into a field of an object, whether or not it has the field. -/
def setField (heap : Heap) (ref : ObjectRef) (name : String) (value : Value) : Heap :=
  ⟨heap.objects.modify ref.id (·.set name value)⟩

end Heap

/-- How a function of the host can fail. These are failures of the few functions
that are offered here; the interpreter passes them on. -/
inductive HostError where
  /-- An argument that it looks at is not there. -/
  | noArgument
  /-- A member that it looks at is not there. -/
  | noMember
  /-- It is made for another number of arguments. -/
  | wrongCount
  /-- A number that it writes out has no text. -/
  | number (e : NumberError)
deriving DecidableEq, Repr

/-- A function of the host: it may look at objects and maps arguments to a
result. The first argument of a method is the receiver. It has no memory of
its own and changes nothing, so what it answers depends on no earlier call;
whatever is said of all functions of the host is said of functions of this
kind. -/
abbrev HostFunction := Heap → List Value → Except HostError Value

/-- The methods of one object. They are its own: two objects of one type may have
different ones. -/
abbrev MethodTable := Bindings FunctionKey HostFunction

end PlcLang
