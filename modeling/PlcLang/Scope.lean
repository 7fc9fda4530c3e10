import PlcLang.Bindings

/-!
# `PlcLang.Scope`: nested scopes in an arena

The checker and the interpreter keep their scopes in an arena: a list in
which each scope names its parent by index. Entering a block pushes a
scope at the end and leaving it releases that scope, so in use the arena is
a stack on top of the program's scope, which has index 0 and stays.

Variables and functions have separate names, and functions of different
arity too. A look-up begins in one scope and goes on from parent to parent
until a scope answers: `findUp`.
-/

set_option autoImplicit false

namespace PlcLang

/-- The index of a scope in its arena. An index is given out again when its scope
has been released. -/
abbrev ScopeId := Nat

/-- A name with a number of parameters. This is what functions are told apart by;
their types are not. -/
abbrev FunctionKey := String × Nat

/-- One scope: its parent and what it binds itself. Variables and functions have
tables of their own, so one name may be both. -/
structure Scope (V F : Type) where
  parent : Option ScopeId
  variableTable : Bindings String V := .empty
  functionTable : Bindings FunctionKey F := .empty

/-- The live scopes, the program's first. A scope is named by its place in the list. -/
structure Arena (V F : Type) where
  scopes : List (Scope V F)

/-- Misuse of an arena. The stages never come to it; it is for whoever uses an arena
by hand. -/
inductive ArenaError where
  /-- There is no scope of that index. -/
  | noScope
  /-- The program's scope cannot be released. -/
  | programScope
deriving DecidableEq, Repr

/-- The wording, where there is one. -/
def ArenaError.message? : ArenaError → Option String
  | noScope => none
  | programScope => some "cannot release the program scope"

namespace Scope

variable {V F : Type}

/-- The scope with a variable bound, whatever it was bound to before. -/
def setVariable (scope : Scope V F) (name : String) (value : V) : Scope V F :=
  { scope with variableTable := scope.variableTable.set name value }

/-- The scope with a function bound, whatever it was bound to before. -/
def setFunction (scope : Scope V F) (key : FunctionKey) (value : F) : Scope V F :=
  { scope with functionTable := scope.functionTable.set key value }

end Scope

namespace Arena

variable {V F β : Type}

/-- The index of the program's scope. It is the only scope without a parent. -/
def root : ScopeId := 0

/-- The arena with an empty program scope. -/
def initial : Arena V F := ⟨[⟨none, .empty, .empty⟩]⟩

/-- The number of live scopes. It is the index of the next one. -/
def size (arena : Arena V F) : Nat :=
  arena.scopes.length

/-- The scope of an index. One that has been released is not found, as long as its
index has not been given out again. -/
def scope? (arena : Arena V F) (index : ScopeId) : Option (Scope V F) :=
  arena.scopes[index]?

/-- Puts an empty scope at the end. Its index is the size before. -/
def push (arena : Arena V F) (parent : ScopeId) : Arena V F :=
  ⟨arena.scopes ++ [⟨some parent, .empty, .empty⟩]⟩

/-- Drops a scope and all that were pushed after it. The program's scope stays. -/
def release (arena : Arena V F) (index : ScopeId) : Except ArenaError (Arena V F) :=
  if index = root then .error .programScope else .ok ⟨arena.scopes.take index⟩

/-- Changes the scope of an index, if there is one. Its place and those of all
others stay. -/
def modify (arena : Arena V F) (index : ScopeId) (f : Scope V F → Scope V F) : Arena V F :=
  ⟨arena.scopes.modify index f⟩

/-- Binds a variable in a scope, in place of what it bound there before. Only this
scope is changed: a variable of the same name further up is hidden. -/
def bindVariable (arena : Arena V F) (index : ScopeId) (name : String) (value : V) : Arena V F :=
  arena.modify index (·.setVariable name value)

/-- Binds a function in a scope, in place of what it bound there before. -/
def bindFunction (arena : Arena V F) (index : ScopeId) (key : FunctionKey) (value : F) :
    Arena V F :=
  arena.modify index (·.setFunction key value)

/-- Changes a scope by `add` unless `existing?` finds something in it;
answers with what it finds. -/
def define (arena : Arena V F) (index : ScopeId) (existing? : Scope V F → Option β)
    (add : Scope V F → Scope V F) : Except ArenaError (Option β × Arena V F) :=
  match arena.scope? index with
  | none => .error .noScope
  | some scope =>
    match existing? scope with
    | some existing => .ok (some existing, arena)
    | none => .ok (none, arena.modify index add)

/-- Defines a variable in a scope that has none of that name. Where it has, nothing
changes and the answer is what is there. -/
def defineVariable (arena : Arena V F) (index : ScopeId) (name : String) (value : V) :
    Except ArenaError (Option V × Arena V F) :=
  arena.define index (·.variableTable.get? name) (·.setVariable name value)

/-- Defines a function in a scope that has none of that name and arity. Where it
has, nothing changes and the answer is what is there. -/
def defineFunction (arena : Arena V F) (index : ScopeId) (key : FunctionKey) (value : F) :
    Except ArenaError (Option F × Arena V F) :=
  arena.define index (·.functionTable.get? key) (·.setFunction key value)

/-- The scopes that a look-up visits, at most `fuel` of them: a scope, its
parent, and so on, each with its index. The look-up is over at a scope
without a parent, and fails at an index without a scope. -/
def findUpFrom (arena : Arena V F) (find? : ScopeId → Scope V F → Option β) :
    Nat → ScopeId → Except ArenaError (Option β)
  | 0, _ => .ok none
  | fuel + 1, index =>
    match arena.scope? index with
    | none => .error .noScope
    | some scope =>
      match find? index scope with
      | some found => .ok (some found)
      | none =>
        match scope.parent with
        | none => .ok none
        | some parent => arena.findUpFrom find? fuel parent

/-- What the nearest scope answers, from `index` on through its parents. A
chain of parents is no longer than there are scopes. -/
def findUp (arena : Arena V F) (index : ScopeId) (find? : ScopeId → Scope V F → Option β) :
    Except ArenaError (Option β) :=
  arena.findUpFrom find? arena.size index

/-- What a variable is bound to, seen from a scope. It fails where the look-up meets
an index without a scope. -/
def lookupVariable (arena : Arena V F) (index : ScopeId) (name : String) :
    Except ArenaError (Option V) :=
  arena.findUp index fun _ scope => scope.variableTable.get? name

/-- What a function is bound to, seen from a scope. A function of the name with
another arity is passed by. -/
def lookupFunction (arena : Arena V F) (index : ScopeId) (key : FunctionKey) :
    Except ArenaError (Option F) :=
  arena.findUp index fun _ scope => scope.functionTable.get? key

/-- `lookupVariable` where a missing scope counts as an unbound name. In a stack of
scopes none is missing, so nothing is lost. -/
def boundVariable? (arena : Arena V F) (index : ScopeId) (name : String) : Option V :=
  (arena.lookupVariable index name).toOption.join

/-- `lookupFunction` where a missing scope counts as an unbound name. -/
def boundFunction? (arena : Arena V F) (index : ScopeId) (key : FunctionKey) : Option F :=
  (arena.lookupFunction index key).toOption.join

/-- The scope that binds a variable, seen from a scope: the nearest one, which an
assignment changes. -/
def ownerOfVariable? (arena : Arena V F) (index : ScopeId) (name : String) : Option ScopeId :=
  (arena.findUp index fun owner scope =>
    if scope.variableTable.contains name then some owner else none).toOption.join

end Arena

/-- Runs `x`, and `cleanup` after it, however `x` ends. So a scope that was
entered is left again. -/
def always {ε σ β : Type} (x : EStateM ε σ β) (cleanup : EStateM ε σ Unit) : EStateM ε σ β :=
  fun s =>
    match x s with
    | .ok b s => (cleanup >>= fun _ => pure b) s
    | .error e s => (cleanup >>= fun _ => throw e) s

/-- The order of names: by characters. -/
def nameLe (a b : String) : Bool :=
  a ≤ b

/-- The order of functions: by name, then by arity. -/
def keyLe (a b : FunctionKey) : Bool :=
  a.1 < b.1 || (a.1 == b.1 && a.2 ≤ b.2)

namespace Scope

variable {V F : Type}

/-- The scope's variables in the order of their names. -/
def sortedVariables (scope : Scope V F) : List (String × V) :=
  scope.variableTable.sortedBy nameLe

/-- The scope's functions in the order of their names and arities. -/
def sortedFunctions (scope : Scope V F) : List (FunctionKey × F) :=
  scope.functionTable.sortedBy keyLe

end Scope

/-- A function's name and arity as one text, as messages have it. -/
def keyText (key : FunctionKey) : String :=
  key.1 ++ "/" ++ toString key.2

end PlcLang
