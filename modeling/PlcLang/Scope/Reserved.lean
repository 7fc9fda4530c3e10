import PlcLang.Scope

/-!
# `PlcLang.Scope.Reserved`: arenas put together by hand

In an arena of optional values a name may be entered without a value. Such
a name is reserved: it shows in its scope but counts as unbound, for
definitions, which may still give it a value, and for look-ups, which go on
to the parent. Scopes may be named from the end of the arena, too.
-/

set_option autoImplicit false

namespace PlcLang.Arena

variable {V F : Type}

/-- The index that a number names: itself, or counted from the end if it is
negative, where `-1` is the newest scope. -/
def indexOf? (arena : Arena V F) (place : Int) : Option ScopeId :=
  if 0 ≤ place then some place.toNat
  else if place.natAbs ≤ arena.size then some (arena.size - place.natAbs)
  else none

/-- Defines a variable unless the scope has a value for it. A name that is only
reserved gets its value, and may be reserved again. -/
def reserveVariable (arena : Arena (Option V) (Option F)) (index : ScopeId) (name : String)
    (value : Option V) : Except ArenaError (Option V × Arena (Option V) (Option F)) :=
  arena.define index (fun scope => (scope.variableTable.get? name).join) (·.setVariable name value)

/-- Defines a function unless the scope has a value for it. The name may be reserved
before. -/
def reserveFunction (arena : Arena (Option V) (Option F)) (index : ScopeId) (key : FunctionKey)
    (value : Option F) : Except ArenaError (Option F × Arena (Option V) (Option F)) :=
  arena.define index (fun scope => (scope.functionTable.get? key).join) (·.setFunction key value)

/-- The nearest value of a variable. A scope that only reserves the name has none,
and is passed by. -/
def valueOfVariable (arena : Arena (Option V) (Option F)) (index : ScopeId) (name : String) :
    Except ArenaError (Option V) :=
  arena.findUp index fun _ scope => (scope.variableTable.get? name).join

/-- The nearest value of a function. A scope that only reserves its key is passed
by. -/
def valueOfFunction (arena : Arena (Option V) (Option F)) (index : ScopeId) (key : FunctionKey) :
    Except ArenaError (Option F) :=
  arena.findUp index fun _ scope => (scope.functionTable.get? key).join

end PlcLang.Arena
