import PlcLang.Bindings
import PlcLang.Decimal

/-!
# `PlcLang.Toml`: values of a settings file, and how tables come about

A settings file is a table. Its statements open tables and put values into
them, and each may be said once only: what is bound stays as it is, a table
with a heading has no second one, a table that dotted keys have opened gets
no heading later, and what an inline table or array holds is all it will
ever hold. A `Draft` is the table as far as it has been said, with the keys
that these rules lock.
-/

set_option autoImplicit false

namespace PlcLang

/-- A value of a settings file. Values are kept as they are said; what a setting may
be is for whoever uses it. -/
inductive Toml where
  | string (text : String)
  | integer (value : Int)
  /-- A number with a fraction or an exponent; it has no value if it is
  infinite or no number at all. -/
  | real (value : Option Decimal)
  | boolean (value : Bool)
  /-- A date, a time or both, as it is written. -/
  | moment (written : String)
  | array (items : List Toml)
  | table (entries : Bindings String Toml)

namespace Toml

/-- A table: what its keys are bound to. -/
abbrev Table := Bindings String Toml

/-- A dotted key: the names on the way to a value. It has at least one. -/
abbrev Key := List String

/-- Whether the value counts as a yes: it is neither `false`, nor zero, nor
empty. -/
def isYes : Toml → Bool
  | string text => !text.isEmpty
  | integer value => value != 0
  | real value => value.elim true fun value => !value.isZero
  | boolean value => value
  | moment _ => true
  | array items => !items.isEmpty
  | table entries => !entries.entries.isEmpty

/-- Whether the value holds others. Such a value is closed once it has been written. -/
def isCollection : Toml → Bool
  | array _ | table _ => true
  | _ => false

namespace Table

/-- Changes the table that a key leads to; tables on the way that are not
there yet are made. With `intoArrays` an array stands for its last table. -/
def changeAt (intoArrays : Bool) (change : Table → Option Table) :
    Key → Table → Option Table
  | [], entries => change entries
  | name :: key, entries =>
    match entries.get? name with
    | none =>
      (changeAt intoArrays change key .empty).map fun inner => entries.set name (.table inner)
    | some (.table inner) =>
      (changeAt intoArrays change key inner).map fun inner => entries.set name (.table inner)
    | some (.array items) =>
      match intoArrays, items.getLast? with
      | true, some (.table last) =>
        (changeAt intoArrays change key last).map fun last =>
          entries.set name (.array (items.dropLast ++ [.table last]))
      | _, _ => none
    | some _ => none

/-- Binds a name that is not bound yet. Nothing is ever bound twice. -/
def bind (name : String) (value : Toml) (entries : Table) : Option Table :=
  if entries.contains name then none else some (entries.set name value)

/-- Binds the last name of a key in the table that the others lead to. -/
def bindAt (intoArrays : Bool) (key : Key) (value : Toml) (entries : Table) : Option Table :=
  match key.getLast? with
  | some name => entries.changeAt intoArrays (bind name value) key.dropLast
  | none => none

/-- Adds an empty table to the array that a name is bound to. Without such an array
one is made. -/
def appendTo (name : String) (entries : Table) : Option Table :=
  match entries.get? name with
  | none => some (entries.set name (.array [.table .empty]))
  | some (.array items) => some (entries.set name (.array (items ++ [.table .empty])))
  | some _ => none

end Table

/-- A table as far as it has been said. What may still be said depends on how it was
said, and not only on what is in it. -/
structure Draft where
  /-- The whole table. -/
  root : Table := .empty
  /-- The key of the heading that the statements stand under. -/
  heading : Key := []
  /-- Keys of tables that get no heading any more. -/
  named : List Key := []
  /-- Keys that join those at the next heading. -/
  opened : List Key := []
  /-- Keys of values that nothing is added to. -/
  closed : List Key := []

namespace Draft

/-- Whether a key leads to or into something closed. -/
def isClosed (draft : Draft) (key : Key) : Bool :=
  draft.closed.any (·.isPrefixOf key)

/-- The draft where a new heading begins. What dotted keys have opened under the
last one is locked from here on. -/
def atHeading (draft : Draft) : Draft :=
  { draft with named := draft.named ++ draft.opened, opened := [] }

/-- A heading of a table. A table may have been made on the way to another before it
has its heading. -/
def openTable (key : Key) (draft : Draft) : Option Draft :=
  let draft := draft.atHeading
  if draft.named.contains key || draft.isClosed key then none
  else
    (draft.root.changeAt true some key).map fun root =>
      { draft with root := root, heading := key, named := key :: draft.named }

/-- A heading of a further table in an array. What was said of the tables
before it locks nothing in this one. -/
def openItem (key : Key) (draft : Draft) : Option Draft :=
  let draft := draft.atHeading
  if draft.isClosed key then none
  else
    match key.getLast? with
    | none => none
    | some name =>
      (draft.root.changeAt true (Table.appendTo name) key.dropLast).map fun root =>
        { draft with
          root := root
          heading := key
          named := key :: draft.named.filter fun other => !key.isPrefixOf other
          closed := draft.closed.filter fun other => !key.isPrefixOf other }

/-- The keys of the tables that a dotted key goes through, below a heading. A key of
one name goes through none. -/
def waypoints (heading : Key) : Key → List Key
  | [] | [_] => []
  | name :: rest => (heading ++ [name]) :: waypoints (heading ++ [name]) rest

/-- A key with its value. Tables on the way may be opened by it, but none that has a
heading already. -/
def assign (key : Key) (value : Toml) (draft : Draft) : Option Draft :=
  let through := waypoints draft.heading key
  let whole := draft.heading ++ key
  if through.any draft.named.contains || draft.isClosed whole.dropLast then none
  else
    (draft.root.bindAt true whole value).map fun root =>
      { draft with
        root := root
        opened := draft.opened ++ through
        closed := if value.isCollection then whole :: draft.closed else draft.closed }

end Draft

end Toml

end PlcLang
