import PlcLang.Proofs.Decimals.Value
import PlcLang.Proofs.Typing.Rules

/-!
# `PlcLang.Proofs.Typing.Declarative`: the type system

The type system of the language, as rules that turn a tree into the tree with
its types and symbols. Nothing is threaded through them and nothing is undone: a
context is a list of frames, a block is judged in its context with one frame
more, and a declaration is in force in the statements behind it because they
are judged in the context that it makes.

* `Assignable`: which types are good for which.
* `Operation`: what the operators are defined on.
* `Elaborates`, `ElaboratesStmt`: expressions and statements in a context.
* `ElaboratesProgram`: fields in order, then the headers of all methods, then
  their bodies, with one method to start with.

An elaborated tree has the type of an expression in the mark of its node, and in
the mark of a name the symbol that the name stands for. Other marks only say
where their node is. All the rest of the tree is the tree: `ElaboratesProgram.map`.
-/

set_option autoImplicit false

namespace PlcLang.Proofs

/-! ### Types -/

/-- The types whose values can be compared. -/
inductive ComparableType : Ty → Prop where
  | boolean : ComparableType .boolean
  | integer : ComparableType .integer
  | decimal : ComparableType .decimal
  | character : ComparableType .character
  | string : ComparableType .string
  | comparable : ComparableType .comparable

/-- The types that have arithmetic. -/
inductive NumericType : Ty → Prop where
  | integer : NumericType .integer
  | decimal : NumericType .decimal

/-- Where the first type is wanted a value of the second is good. -/
inductive Assignable : Ty → Ty → Prop where
  | same (type : Ty) : Assignable type type
  | any (source : Ty) : Assignable .any source
  | comparable {source : Ty} (h : ComparableType source) : Assignable .comparable source

/-- A built-in type is known by its name. -/
structure Names (name : String) (type : Ty) : Prop where
  name_eq : type.name = name
  builtin : ∀ host, type ≠ .host host

/-- What a method is declared to return; without a word on it, nil. -/
inductive NamesResult : Option String → Ty → Prop where
  | absent : NamesResult none .nil
  | present {name : String} {type : Ty} (h : Names name type) : NamesResult (some name) type

/-- What an operator makes of operands of two types. -/
inductive Operation : BinaryOp → Ty → Ty → Ty → Prop where
  | logical {op : BinaryOp} (hop : op ∈ [.and, .or]) : Operation op .boolean .boolean .boolean
  | comparison {op : BinaryOp} {left right : Ty}
      (hop : op ∈ [.equal, .notEqual, .less, .lessEqual, .greater, .greaterEqual])
      (hleft : Assignable .comparable left) (hright : Assignable .comparable right) :
      Operation op left right .boolean
  | stringLeft {right : Ty} : Operation .add .string right .string
  | stringRight {left : Ty} : Operation .add left .string .string
  | arithmetic {op : BinaryOp} {type : Ty} (hop : op ∈ [.add, .sub, .mul, .div])
      (htype : NumericType type) : Operation op type type type

/-! ### Expressions -/

mutual

/-- In a context an expression has a type, and this is the expression with its
types and symbols. -/
inductive Elaborates (Γ : Context) : Expr Offset → Ty → Expr Note → Prop where
  | nil {m : Offset} : Elaborates Γ (.nil m) .nil (.nil ⟨m, some .nil, none⟩)
  | boolean {m : Offset} {value : Bool} :
      Elaborates Γ (.boolean m value) .boolean (.boolean ⟨m, some .boolean, none⟩ value)
  | integer {m : Offset} {value : Int} (hlow : -2 ^ 31 ≤ value) (hhigh : value ≤ 2 ^ 31 - 1) :
      Elaborates Γ (.integer m value) .integer (.integer ⟨m, some .integer, none⟩ value)
  | decimal {m : Offset} {value : Decimal}
      (hrange : |value.toRat| ≤ 1.7976931348623157 * 10 ^ 308) :
      Elaborates Γ (.decimal m value) .decimal (.decimal ⟨m, some .decimal, none⟩ value)
  | character {m : Offset} {text : String} :
      Elaborates Γ (.character m text) .character (.character ⟨m, some .character, none⟩ text)
  | string {m : Offset} {text : String} :
      Elaborates Γ (.string m text) .string (.string ⟨m, some .string, none⟩ text)
  | group {m n : Offset} {op : BinaryOp} {left right : Expr Offset} {type : Ty}
      {inner : Expr Note} (hinner : Elaborates Γ (.binary n op left right) type inner) :
      Elaborates Γ (.group m (.binary n op left right)) type (.group ⟨m, some type, none⟩ inner)
  | binary {m : Offset} {op : BinaryOp} {left right : Expr Offset} {leftType rightType type : Ty}
      {left' right' : Expr Note} (hleft : Elaborates Γ left leftType left')
      (hright : Elaborates Γ right rightType right')
      (hop : Operation op leftType rightType type) :
      Elaborates Γ (.binary m op left right) type (.binary ⟨m, some type, none⟩ op left' right')
  | var {m : Offset} {name : String} {symbol : VariableSymbol}
      (hsymbol : nearestVariable? name Γ = some symbol) :
      Elaborates Γ (.var m name) symbol.type
        (.var ⟨m, some symbol.type, some (.variable symbol)⟩ name)
  | field {m : Offset} {receiver : Expr Offset} {name : String} {receiverType : Ty}
      {receiver' : Expr Note} {symbol : VariableSymbol}
      (hreceiver : Elaborates Γ receiver receiverType receiver')
      (hsymbol : TypeTable.builtin.field? receiverType name = some symbol) :
      Elaborates Γ (.field m receiver name) symbol.type
        (.field ⟨m, some symbol.type, some (.variable symbol)⟩ receiver' name)
  | call {m : Offset} {name : String} {arguments : List (Expr Offset)}
      {arguments' : List (Expr Note)} {symbol : FunctionSymbol}
      (hsymbol : nearestFunction? (name, arguments.length) Γ = some symbol)
      (harguments : ElaboratesArguments Γ symbol.parameters arguments arguments') :
      Elaborates Γ (.call m name arguments) symbol.result
        (.call ⟨m, some symbol.result, some (.function symbol)⟩ name arguments')
  | methodCall {m : Offset} {receiver : Expr Offset} {name : String}
      {arguments : List (Expr Offset)} {receiverType : Ty} {receiver' : Expr Note}
      {arguments' : List (Expr Note)} {symbol : FunctionSymbol}
      (hreceiver : Elaborates Γ receiver receiverType receiver')
      (hsymbol : TypeTable.builtin.method? receiverType (name, arguments.length) = some symbol)
      (harguments : ElaboratesArguments Γ symbol.parameters arguments arguments') :
      Elaborates Γ (.methodCall m receiver name arguments) symbol.result
        (.methodCall ⟨m, some symbol.result, some (.function symbol)⟩ receiver' name arguments')

/-- Each argument is good for its parameter, and there are as many of them. -/
inductive ElaboratesArguments (Γ : Context) :
    List Ty → List (Expr Offset) → List (Expr Note) → Prop where
  | nil : ElaboratesArguments Γ [] [] []
  | cons {parameter type : Ty} {parameters : List Ty} {argument : Expr Offset}
      {argument' : Expr Note} {rest : List (Expr Offset)} {rest' : List (Expr Note)}
      (hargument : Elaborates Γ argument type argument') (hgood : Assignable parameter type)
      (hrest : ElaboratesArguments Γ parameters rest rest') :
      ElaboratesArguments Γ (parameter :: parameters) (argument :: rest) (argument' :: rest')

end

/-- The expression has a type that is good where `expected` is wanted. -/
def ElaboratesAs (Γ : Context) (expected : Ty) (e : Expr Offset) (e' : Expr Note) : Prop :=
  ∃ type, Elaborates Γ e type e' ∧ Assignable expected type

/-- The declaration gives its variable this type: the one that it names, for which
its value must be good, or else the type of its value. -/
inductive ElaboratesDeclaration (Γ : Context) :
    Declaration Offset → Ty → Declaration Note → Prop where
  | declared {name typeName : String} {type : Ty} (htype : Names typeName type) :
      ElaboratesDeclaration Γ ⟨name, some typeName, none⟩ type ⟨name, some typeName, none⟩
  | inferred {name : String} {value : Expr Offset} {value' : Expr Note} {type : Ty}
      (hvalue : Elaborates Γ value type value') :
      ElaboratesDeclaration Γ ⟨name, none, some value⟩ type ⟨name, none, some value'⟩
  | both {name typeName : String} {value : Expr Offset} {value' : Expr Note} {type : Ty}
      (htype : Names typeName type) (hvalue : ElaboratesAs Γ type value value') :
      ElaboratesDeclaration Γ ⟨name, some typeName, some value⟩ type
        ⟨name, some typeName, some value'⟩

/-! ### Statements -/

mutual

/-- In a method with this return type the statement turns a context into another.
A node that is no statement, as no text has one, says nothing. -/
inductive ElaboratesStmt (returnType : Ty) :
    Context → Stmt Offset → Stmt Note → Context → Prop where
  | expression {Γ : Context} {m : Offset} {value : Expr Offset} {value' : Expr Note} {type : Ty}
      (hkind : value.kind = .call) (hvalue : Elaborates Γ value type value') :
      ElaboratesStmt returnType Γ (.expression m value) (.expression (.plain m) value') Γ
  | declare {frame : Frame VariableSymbol FunctionSymbol} {Γ : Context} {m : Offset}
      {d : Declaration Offset} {d' : Declaration Note} {type : Ty}
      (hnew : frame.variableTable.get? d.name = none)
      (hd : ElaboratesDeclaration (frame :: Γ) d type d') :
      ElaboratesStmt returnType (frame :: Γ) (.declare m d)
        (.declare ⟨m, none, some (.variable ⟨d.name, type, some m⟩)⟩ d')
        (frame.setVariable d.name ⟨d.name, type, some m⟩ :: Γ)
  | assign {Γ : Context} {m : Offset} {target value : Expr Offset} {target' value' : Expr Note}
      {type : Ty} (hkind : target.kind = .access) (htarget : Elaborates Γ target type target')
      (hvalue : ElaboratesAs Γ type value value') :
      ElaboratesStmt returnType Γ (.assign m target value) (.assign (.plain m) target' value') Γ
  | cond {Γ Γthen Γelse : Context} {m : Offset} {condition : Expr Offset}
      {thenBody elseBody : List (Stmt Offset)} {condition' : Expr Note}
      {thenBody' elseBody' : List (Stmt Note)}
      (hcondition : ElaboratesAs Γ .boolean condition condition') (hnonempty : thenBody ≠ [])
      (hthen : ElaboratesBlock returnType (.empty :: Γ) thenBody thenBody' Γthen)
      (helse : ElaboratesBlock returnType (.empty :: Γ) elseBody elseBody' Γelse) :
      ElaboratesStmt returnType Γ (.cond m condition thenBody elseBody)
        (.cond (.plain m) condition' thenBody' elseBody') Γ
  | forIn {Γ Γbody : Context} {m : Offset} {name : String} {value : Expr Offset}
      {body : List (Stmt Offset)} {value' : Expr Note} {body' : List (Stmt Note)}
      (hvalue : ElaboratesAs Γ .integerIterable value value') (hnonempty : body ≠ [])
      (hbody : ElaboratesBlock returnType
        (Frame.empty.setVariable name ⟨name, .integer, none⟩ :: Γ) body body' Γbody) :
      ElaboratesStmt returnType Γ (.forIn m name value body)
        (.forIn (.plain m) name value' body') Γ
  | whileDo {Γ Γbody : Context} {m : Offset} {condition : Expr Offset} {body : List (Stmt Offset)}
      {condition' : Expr Note} {body' : List (Stmt Note)}
      (hcondition : ElaboratesAs Γ .boolean condition condition')
      (hbody : ElaboratesBlock returnType (.empty :: Γ) body body' Γbody) :
      ElaboratesStmt returnType Γ (.whileDo m condition body)
        (.whileDo (.plain m) condition' body') Γ
  | result {Γ : Context} {m : Offset} {value : Expr Offset} {value' : Expr Note}
      (hvalue : ElaboratesAs Γ returnType value value') :
      ElaboratesStmt returnType Γ (.result m value) (.result (.plain m) value') Γ
  | foreign {Γ : Context} {m : Offset} {kind : NodeKind} {written : String} :
      ElaboratesStmt returnType Γ (.foreign m kind written) (.foreign (.plain m) kind written) Γ

/-- The statements turn a context into another, one after the other. -/
inductive ElaboratesBlock (returnType : Ty) :
    Context → List (Stmt Offset) → List (Stmt Note) → Context → Prop where
  | nil {Γ : Context} : ElaboratesBlock returnType Γ [] [] Γ
  | cons {Γ Γ' Γ'' : Context} {s : Stmt Offset} {s' : Stmt Note} {rest : List (Stmt Offset)}
      {rest' : List (Stmt Note)} (hs : ElaboratesStmt returnType Γ s s' Γ')
      (hrest : ElaboratesBlock returnType Γ' rest rest' Γ'') :
      ElaboratesBlock returnType Γ (s :: rest) (s' :: rest') Γ''

end

/-! ### Fields, methods and programs -/

/-- The fields turn a program's frame into another, one after the other. -/
inductive ElaboratesFields : Frame VariableSymbol FunctionSymbol → List (Field Offset) →
    List (Field Note) → Frame VariableSymbol FunctionSymbol → Prop where
  | nil {frame : Frame VariableSymbol FunctionSymbol} : ElaboratesFields frame [] [] frame
  | cons {frame frame' : Frame VariableSymbol FunctionSymbol} {m : Offset}
      {d : Declaration Offset} {d' : Declaration Note} {type : Ty} {rest : List (Field Offset)}
      {rest' : List (Field Note)} (hnew : frame.variableTable.get? d.name = none)
      (hd : ElaboratesDeclaration [frame] d type d')
      (hrest : ElaboratesFields (frame.setVariable d.name ⟨d.name, type, some m⟩) rest rest'
        frame') :
      ElaboratesFields frame (⟨m, d⟩ :: rest)
        (⟨⟨m, none, some (.variable ⟨d.name, type, some m⟩)⟩, d'⟩ :: rest') frame'

/-- What the header of a method says that calls of it find. -/
structure Heads (method : Method Offset) (symbol : FunctionSymbol) : Prop where
  name : symbol.name = method.name
  parameters : List.Forall₂ Names method.parameterTypes symbol.parameters
  result : NamesResult method.returnType symbol.result
  offset : symbol.offset = some method.mark

/-- The headers turn a program's frame into another, in which each method is bound
by a name and arity that no other function has. -/
inductive ElaboratesHeaders : Frame VariableSymbol FunctionSymbol → List (Method Offset) →
    List FunctionSymbol → Frame VariableSymbol FunctionSymbol → Prop where
  | nil {frame : Frame VariableSymbol FunctionSymbol} : ElaboratesHeaders frame [] [] frame
  | cons {frame frame' : Frame VariableSymbol FunctionSymbol} {method : Method Offset}
      {symbol : FunctionSymbol} {rest : List (Method Offset)} {symbols : List FunctionSymbol}
      (hmethod : Heads method symbol) (hnew : frame.functionTable.get? symbol.key = none)
      (hrest : ElaboratesHeaders (frame.setFunction symbol.key symbol) rest symbols frame') :
      ElaboratesHeaders frame (method :: rest) (symbol :: symbols) frame'

/-- The body of a method that is bound to `symbol` is judged below the program's
frame, in one frame with the parameters. -/
inductive ElaboratesMethod (program : Frame VariableSymbol FunctionSymbol) :
    Method Offset → FunctionSymbol → Method Note → Prop where
  | mk {method : Method Offset} {symbol : FunctionSymbol} {body : List (Stmt Note)} {Γ : Context}
      (hdistinct : method.parameters.Nodup)
      (hbody : ElaboratesBlock symbol.result
        [parameterFrame (method.parameters.zip symbol.parameters), program] method.body body Γ) :
      ElaboratesMethod program method symbol
        { method with mark := ⟨method.mark, none, some (.function symbol)⟩, body := body }

/-- The method is the one to start with. -/
structure Starts (method : Method Offset) : Prop where
  name : method.name = "main"
  parameters : method.parameters = []

/-- One method, and no other, is to start with, and it returns an integer. -/
def StartsOnce (methods : List (Method Offset × FunctionSymbol)) : Prop :=
  ∃ before pair after, methods = before ++ pair :: after ∧ Starts pair.1
    ∧ pair.2.result = .integer ∧ ∀ other ∈ before ++ after, ¬ Starts other.1

/-- The program is good below what was there before. -/
inductive ElaboratesProgram (before : Frame VariableSymbol FunctionSymbol) :
    Program Offset → Program Note → Prop where
  | mk {between program : Frame VariableSymbol FunctionSymbol} {fields : List (Field Offset)}
      {fields' : List (Field Note)} {methods : List (Method Offset)}
      {symbols : List FunctionSymbol} {methods' : List (Method Note)}
      (hfields : ElaboratesFields before fields fields' between)
      (hheaders : ElaboratesHeaders between methods symbols program)
      (hbodies : List.Forall₂ (fun pair => ElaboratesMethod program pair.1 pair.2)
        (methods.zip symbols) methods')
      (hstart : StartsOnce (methods.zip symbols)) :
      ElaboratesProgram before ⟨fields, methods⟩ ⟨fields', methods'⟩

/-- What is there before any program: a function that prints a value of any
type. -/
def standardFrame : Frame VariableSymbol FunctionSymbol :=
  Frame.empty.setFunction ("print", 1) ⟨"print", [.any], .nil, none⟩

/-! ### What elaboration leaves alone -/

mutual

/-- Without its types and symbols an elaborated expression is the expression. -/
theorem Elaborates.map {Γ : Context} {e : Expr Offset} {type : Ty} {e' : Expr Note} :
    Elaborates Γ e type e' → e'.map Note.offset = e
  | .nil | .boolean | .integer _ _ | .decimal _ | .character | .string | .var _ => rfl
  | .group hinner => by rw [Expr.map, hinner.map]
  | .binary hleft hright _ => by rw [Expr.map, hleft.map, hright.map]
  | .field hreceiver _ => by rw [Expr.map, hreceiver.map]
  | .call _ harguments => by rw [Expr.map, harguments.map]
  | .methodCall hreceiver _ harguments => by rw [Expr.map, hreceiver.map, harguments.map]

/-- Elaborated arguments are the arguments, with types and symbols in their marks. -/
theorem ElaboratesArguments.map {Γ : Context} {parameters : List Ty}
    {arguments : List (Expr Offset)} {arguments' : List (Expr Note)} :
    ElaboratesArguments Γ parameters arguments arguments' →
      Expr.mapAll Note.offset arguments' = arguments
  | .nil => rfl
  | .cons hargument _ hrest => by rw [Expr.mapAll, hargument.map, hrest.map]

end

/-- The same of an expression with an expected type. -/
theorem ElaboratesAs.map {Γ : Context} {expected : Ty} {e : Expr Offset} {e' : Expr Note}
    (h : ElaboratesAs Γ expected e e') : e'.map Note.offset = e := by
  obtain ⟨_, helaborates, _⟩ := h
  exact helaborates.map

/-- The same of a declaration. -/
theorem ElaboratesDeclaration.map {Γ : Context} {d : Declaration Offset} {type : Ty}
    {d' : Declaration Note} (h : ElaboratesDeclaration Γ d type d') :
    d'.map Note.offset = d := by
  cases h with
  | declared => rfl
  | inferred hvalue => rw [Declaration.map, Option.map_some, hvalue.map]
  | both _ hvalue => rw [Declaration.map, Option.map_some, hvalue.map]

mutual

/-- Without its types and symbols an elaborated statement is the statement. -/
theorem ElaboratesStmt.map {returnType : Ty} {Γ Γ' : Context} {s : Stmt Offset} {s' : Stmt Note} :
    ElaboratesStmt returnType Γ s s' Γ' → s'.map Note.offset = s
  | .expression _ hvalue => by rw [Stmt.map, hvalue.map, Note.plain]
  | .declare _ hd => by rw [Stmt.map, hd.map]
  | .assign _ htarget hvalue => by rw [Stmt.map, htarget.map, hvalue.map, Note.plain]
  | .cond hcondition _ hthen helse => by
      rw [Stmt.map, hcondition.map, hthen.map, helse.map, Note.plain]
  | .forIn hvalue _ hbody => by rw [Stmt.map, hvalue.map, hbody.map, Note.plain]
  | .whileDo hcondition hbody => by rw [Stmt.map, hcondition.map, hbody.map, Note.plain]
  | .result hvalue => by rw [Stmt.map, hvalue.map, Note.plain]
  | .foreign => rfl

/-- The same of a body. -/
theorem ElaboratesBlock.map {returnType : Ty} {Γ Γ' : Context} {body : List (Stmt Offset)}
    {body' : List (Stmt Note)} :
    ElaboratesBlock returnType Γ body body' Γ' → Stmt.mapAll Note.offset body' = body
  | .nil => rfl
  | .cons hs hrest => by rw [Stmt.mapAll, hs.map, hrest.map]

end

/-- The same of the fields of a program. -/
theorem ElaboratesFields.map {frame frame' : Frame VariableSymbol FunctionSymbol}
    {fields : List (Field Offset)} {fields' : List (Field Note)}
    (h : ElaboratesFields frame fields fields' frame') :
    fields'.map (·.map Note.offset) = fields := by
  induction h with
  | nil => rfl
  | cons _ hd _ ih => rw [List.map_cons, ih, Field.map, hd.map]

/-- The same of a method. -/
theorem ElaboratesMethod.map {program : Frame VariableSymbol FunctionSymbol}
    {method : Method Offset} {symbol : FunctionSymbol} {method' : Method Note}
    (h : ElaboratesMethod program method symbol method') :
    method'.map Note.offset = method := by
  cases h with
  | mk _ hbody => rw [Method.map, hbody.map]

/-- The same of all methods of a program. -/
theorem map_of_elaboratesMethods {program : Frame VariableSymbol FunctionSymbol}
    {pairs : List (Method Offset × FunctionSymbol)} {methods' : List (Method Note)}
    (h : List.Forall₂ (fun pair => ElaboratesMethod program pair.1 pair.2) pairs methods') :
    methods'.map (·.map Note.offset) = pairs.map Prod.fst := by
  induction h with
  | nil => rfl
  | cons hmethod _ ih => rw [List.map_cons, List.map_cons, ih, hmethod.map]

/-- Each method has one header. -/
theorem ElaboratesHeaders.length {frame frame' : Frame VariableSymbol FunctionSymbol}
    {methods : List (Method Offset)} {symbols : List FunctionSymbol}
    (h : ElaboratesHeaders frame methods symbols frame') : symbols.length = methods.length := by
  induction h with
  | nil => rfl
  | cons _ _ _ ih => rw [List.length_cons, List.length_cons, ih]

/-- Without its types and symbols an elaborated program is the program. -/
theorem ElaboratesProgram.map {before : Frame VariableSymbol FunctionSymbol}
    {program : Program Offset} {checked : Program Note}
    (h : ElaboratesProgram before program checked) : checked.map Note.offset = program := by
  cases h with
  | mk hfields hheaders hbodies _ =>
      rw [Program.map, hfields.map, map_of_elaboratesMethods hbodies,
        List.map_fst_zip (Nat.le_of_eq hheaders.length.symm)]

end PlcLang.Proofs
