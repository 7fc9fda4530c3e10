import PlcLang.Proofs.Typing.Watched

/-!
# `PlcLang.Proofs.Typing.Rules`: the typing rules

What the checker accepts, as rules. A context is what is seen from a place: the
frames of the scopes around it, the nearest first. In a context an expression
has a type, and a statement leaves a context behind, in which the nearest
frame may have one variable more.

The rules are about trees that were checked while the checker was watched, and
every mark has to be right: it holds the context of the node, and the type and
the symbol that the rule gives it (`Noted`).
-/

set_option autoImplicit false

namespace PlcLang.Proofs

/-- What is seen from a place in a program, the nearest frame first. -/
abbrev Context := List (Frame VariableSymbol FunctionSymbol)

/-- A value of type `source` may stand where `target` is wanted. -/
def Fits (target source : Ty) : Prop :=
  TypeTable.builtin.assignable target source = true

/-- The node was come upon in a context, and this is noted about it. -/
structure Noted (Γ : Context) (type : Option Ty) (symbol : Option Symbol) (sight : Sight) :
    Prop where
  chain : sight.chain = Γ
  type : sight.note.type = type
  symbol : sight.note.symbol = symbol

/-! ### Expressions -/

/-- What an operator makes of the types of its operands. -/
inductive OperatorType : BinaryOp → Ty → Ty → Ty → Prop where
  | logical {op : BinaryOp} {left right : Ty} (hop : op.precedence? = some .logical)
      (hleft : Fits .boolean left) (hright : Fits .boolean right) :
      OperatorType op left right .boolean
  | comparison {op : BinaryOp} {left right : Ty} (hop : op.precedence? = some .comparison)
      (hleft : Fits .comparable left) (hright : Fits .comparable right) :
      OperatorType op left right .boolean
  | concat {left right : Ty} (h : left = .string ∨ right = .string) :
      OperatorType .add left right .string
  | arithmetic {op : BinaryOp} {type : Ty}
      (hop : op.precedence? = some .additive ∨ op.precedence? = some .multiplicative)
      (hnumeric : type.isNumeric = true) : OperatorType op type type type

mutual

/-- The expression has a type in a context. -/
inductive TypedExpr (Γ : Context) : Expr Sight → Ty → Prop where
  | nil {m : Sight} (hm : Noted Γ (some .nil) none m) : TypedExpr Γ (.nil m) .nil
  | boolean {m : Sight} {value : Bool} (hm : Noted Γ (some .boolean) none m) :
      TypedExpr Γ (.boolean m value) .boolean
  | integer {m : Sight} {value : Int} (hm : Noted Γ (some .integer) none m)
      (hfits : Checker.fitsInteger value = true) : TypedExpr Γ (.integer m value) .integer
  | decimal {m : Sight} {value : Decimal} (hm : Noted Γ (some .decimal) none m)
      (hfits : Checker.fitsDecimal value = true) : TypedExpr Γ (.decimal m value) .decimal
  | character {m : Sight} {text : String} (hm : Noted Γ (some .character) none m) :
      TypedExpr Γ (.character m text) .character
  | string {m : Sight} {text : String} (hm : Noted Γ (some .string) none m) :
      TypedExpr Γ (.string m text) .string
  | group {m : Sight} {inner : Expr Sight} {type : Ty} (hm : Noted Γ (some type) none m)
      (hkind : inner.kind = .binary) (hinner : TypedExpr Γ inner type) :
      TypedExpr Γ (.group m inner) type
  | binary {m : Sight} {op : BinaryOp} {left right : Expr Sight} {leftType rightType type : Ty}
      (hm : Noted Γ (some type) none m) (hleft : TypedExpr Γ left leftType)
      (hright : TypedExpr Γ right rightType) (hop : OperatorType op leftType rightType type) :
      TypedExpr Γ (.binary m op left right) type
  | var {m : Sight} {name : String} {symbol : VariableSymbol}
      (hm : Noted Γ (some symbol.type) (some (.variable symbol)) m)
      (hsymbol : nearestVariable? name Γ = some symbol) :
      TypedExpr Γ (.var m name) symbol.type
  | call {m : Sight} {name : String} {arguments : List (Expr Sight)} {symbol : FunctionSymbol}
      (hm : Noted Γ (some symbol.result) (some (.function symbol)) m)
      (hsymbol : nearestFunction? (name, arguments.length) Γ = some symbol)
      (harguments : TypedArguments Γ symbol.parameters arguments) :
      TypedExpr Γ (.call m name arguments) symbol.result

/-- The expressions have types that are good for parameters, one by one. -/
inductive TypedArguments (Γ : Context) : List Ty → List (Expr Sight) → Prop where
  | nil : TypedArguments Γ [] []
  | cons {parameter type : Ty} {parameters : List Ty} {argument : Expr Sight}
      {rest : List (Expr Sight)} (hargument : TypedExpr Γ argument type)
      (hfits : Fits parameter type) (hrest : TypedArguments Γ parameters rest) :
      TypedArguments Γ (parameter :: parameters) (argument :: rest)

end

/-- The expression has a type that is good where `expected` is wanted. -/
def TypedAs (Γ : Context) (expected : Ty) (e : Expr Sight) : Prop :=
  ∃ type, TypedExpr Γ e type ∧ Fits expected type

/-- The declaration gives its variable this type. -/
inductive TypedDeclaration (Γ : Context) : Declaration Sight → Ty → Prop where
  | declared {name typeName : String} {type : Ty}
      (htype : TypeTable.builtin.resolve? typeName = some type) :
      TypedDeclaration Γ ⟨name, some typeName, none⟩ type
  | inferred {name : String} {value : Expr Sight} {type : Ty} (hvalue : TypedExpr Γ value type) :
      TypedDeclaration Γ ⟨name, none, some value⟩ type
  | both {name typeName : String} {value : Expr Sight} {type : Ty}
      (htype : TypeTable.builtin.resolve? typeName = some type) (hvalue : TypedAs Γ type value) :
      TypedDeclaration Γ ⟨name, some typeName, some value⟩ type

/-! ### Statements -/

mutual

/-- In a method with this return type the statement turns a context into
another. -/
inductive TypedStmt (returnType : Ty) : Context → Stmt Sight → Context → Prop where
  | expression {Γ : Context} {m : Sight} {value : Expr Sight} {type : Ty}
      (hm : Noted Γ none none m) (hkind : value.kind = .call) (hvalue : TypedExpr Γ value type) :
      TypedStmt returnType Γ (.expression m value) Γ
  | declare {frame : Frame VariableSymbol FunctionSymbol} {Γ : Context} {m : Sight}
      {d : Declaration Sight} {symbol : VariableSymbol}
      (hm : Noted (frame :: Γ) none (some (.variable symbol)) m) (hname : symbol.name = d.name)
      (hnew : frame.variableTable.contains symbol.name = false)
      (hd : TypedDeclaration (frame :: Γ) d symbol.type) :
      TypedStmt returnType (frame :: Γ) (.declare m d)
        (frame.setVariable symbol.name symbol :: Γ)
  | assign {Γ : Context} {m target : Sight} {name : String} {value : Expr Sight} {type : Ty}
      (hm : Noted Γ none none m) (htarget : TypedExpr Γ (.var target name) type)
      (hvalue : TypedAs Γ type value) :
      TypedStmt returnType Γ (.assign m (.var target name) value) Γ
  | cond {Γ Γthen Γelse : Context} {m : Sight} {condition : Expr Sight}
      {thenBody elseBody : List (Stmt Sight)} (hm : Noted Γ none none m)
      (hcondition : TypedAs Γ .boolean condition) (hempty : thenBody ≠ [])
      (hthen : TypedBlock returnType (.empty :: Γ) thenBody Γthen)
      (helse : TypedBlock returnType (.empty :: Γ) elseBody Γelse) :
      TypedStmt returnType Γ (.cond m condition thenBody elseBody) Γ
  | forIn {Γ Γbody : Context} {m : Sight} {name : String} {value : Expr Sight}
      {body : List (Stmt Sight)} (hm : Noted Γ none none m)
      (hvalue : TypedAs Γ .integerIterable value) (hempty : body ≠ [])
      (hbody : TypedBlock returnType
        (Frame.empty.setVariable name ⟨name, .integer, none⟩ :: Γ) body Γbody) :
      TypedStmt returnType Γ (.forIn m name value body) Γ
  | whileDo {Γ Γbody : Context} {m : Sight} {condition : Expr Sight} {body : List (Stmt Sight)}
      (hm : Noted Γ none none m) (hcondition : TypedAs Γ .boolean condition)
      (hbody : TypedBlock returnType (.empty :: Γ) body Γbody) :
      TypedStmt returnType Γ (.whileDo m condition body) Γ
  | result {Γ : Context} {m : Sight} {value : Expr Sight} (hm : Noted Γ none none m)
      (hvalue : TypedAs Γ returnType value) : TypedStmt returnType Γ (.result m value) Γ
  | foreign {Γ : Context} {m : Sight} {kind : NodeKind} {written : String}
      (hm : Noted Γ none none m) : TypedStmt returnType Γ (.foreign m kind written) Γ

/-- The statements turn a context into another, one after the other. -/
inductive TypedBlock (returnType : Ty) : Context → List (Stmt Sight) → Context → Prop where
  | nil {Γ : Context} : TypedBlock returnType Γ [] Γ
  | cons {Γ Γ' Γ'' : Context} {s : Stmt Sight} {rest : List (Stmt Sight)}
      (hs : TypedStmt returnType Γ s Γ') (hrest : TypedBlock returnType Γ' rest Γ'') :
      TypedBlock returnType Γ (s :: rest) Γ''

end

/-! ### Methods and fields -/

/-- The frame of a method's body before its first statement: its parameters. -/
def parameterFrame (parameters : List (String × Ty)) : Frame VariableSymbol FunctionSymbol :=
  parameters.foldl (fun frame (name, type) => frame.setVariable name ⟨name, type, none⟩) .empty

/-- The method is good below a program's frame, if calls see it as `symbol`. -/
structure TypedMethod (program : Frame VariableSymbol FunctionSymbol) (symbol : FunctionSymbol)
    (method : Method Sight) : Prop where
  noted : Noted [program] none (some (.function symbol)) method.mark
  arity : symbol.key = (method.name, method.parameters.length)
  body : ∃ Γ, TypedBlock symbol.result
    [parameterFrame (method.parameters.zip symbol.parameters), program] method.body Γ

/-- The fields turn a program's frame into another, one after the other. -/
inductive TypedFields : Frame VariableSymbol FunctionSymbol → List (Field Sight) →
    Frame VariableSymbol FunctionSymbol → Prop where
  | nil {frame : Frame VariableSymbol FunctionSymbol} : TypedFields frame [] frame
  | cons {frame frame' : Frame VariableSymbol FunctionSymbol} {m : Sight}
      {d : Declaration Sight} {symbol : VariableSymbol} {rest : List (Field Sight)}
      (hm : Noted [frame] none (some (.variable symbol)) m) (hname : symbol.name = d.name)
      (hnew : frame.variableTable.contains symbol.name = false)
      (hd : TypedDeclaration [frame] d symbol.type)
      (hrest : TypedFields (frame.setVariable symbol.name symbol) rest frame') :
      TypedFields frame (⟨m, d⟩ :: rest) frame'

/-- The headers of the methods turn a program's frame into another: each method
is bound by its name and arity, which no other function has. -/
inductive TypedHeaders : Frame VariableSymbol FunctionSymbol → List (Method Sight) →
    Frame VariableSymbol FunctionSymbol → Prop where
  | nil {frame : Frame VariableSymbol FunctionSymbol} : TypedHeaders frame [] frame
  | cons {frame frame' : Frame VariableSymbol FunctionSymbol} {method : Method Sight}
      {symbol : FunctionSymbol} {rest : List (Method Sight)}
      (hsymbol : method.mark.note.symbol = some (.function symbol))
      (harity : symbol.key = (method.name, method.parameters.length))
      (hnew : frame.functionTable.contains symbol.key = false)
      (hoffset : symbol.offset = some method.mark.offset)
      (hrest : TypedHeaders (frame.setFunction symbol.key symbol) rest frame') :
      TypedHeaders frame (method :: rest) frame'

/-- The program is good: its fields turn the frame `before` into `between`, and
its headers turn that into the frame `program`, in which its methods are. -/
structure TypedProgram (before between program : Frame VariableSymbol FunctionSymbol)
    (tree : Program Sight) : Prop where
  fields : TypedFields before tree.fields between
  headers : TypedHeaders between tree.methods program
  bodies : ∀ method ∈ tree.methods, ∃ symbol, TypedMethod program symbol method
  main : ∃ method ∈ tree.methods, ∃ symbol, method.name = "main" ∧ method.parameters = []
    ∧ method.mark.note.symbol = some (.function symbol) ∧ symbol.result = .integer

end PlcLang.Proofs
