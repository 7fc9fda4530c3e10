import PlcLang.Syntax

/-!
# `PlcLang.Syntax.Agreement`: when two trees say the same

Two trees agree if they have the same nodes in the same places. Marks are
passed over, and decimals are compared by value, so `1.0` agrees with
`1.00`.
-/

set_option autoImplicit false

namespace PlcLang

variable {α β : Type}

namespace Expr

mutual

/-- Whether two expressions agree. Foreign nodes agree with nothing, not even with
themselves, so a tree with one in it agrees with no tree. -/
def agrees : Expr α → Expr β → Bool
  | nil _, nil _ => true
  | boolean _ a, boolean _ b => a == b
  | integer _ a, integer _ b => a == b
  | decimal _ a, decimal _ b => a.sameValue b
  | character _ a, character _ b => a == b
  | string _ a, string _ b => a == b
  | group _ a, group _ b => a.agrees b
  | binary _ op left right, binary _ op' left' right' =>
    op.symbol == op'.symbol && left.agrees left' && right.agrees right'
  | var _ a, var _ b => a == b
  | field _ receiver a, field _ receiver' b => receiver.agrees receiver' && a == b
  | call _ a arguments, call _ b arguments' => a == b && agreeAll arguments arguments'
  | methodCall _ receiver a arguments, methodCall _ receiver' b arguments' =>
    receiver.agrees receiver' && a == b && agreeAll arguments arguments'
  | _, _ => false

/-- Whether two lists of expressions agree one by one. Lists of different lengths do
not. -/
def agreeAll : List (Expr α) → List (Expr β) → Bool
  | [], [] => true
  | a :: as, b :: bs => a.agrees b && agreeAll as bs
  | _, _ => false

end

end Expr

/-- Whether two declarations agree: in their names, in the types as they are
written, and in their values. -/
def Declaration.agrees (a : Declaration α) (b : Declaration β) : Bool :=
  a.name == b.name && a.typeName == b.typeName &&
    match a.value, b.value with
    | some a, some b => a.agrees b
    | none, none => true
    | _, _ => false

namespace Stmt

mutual

/-- Whether two statements agree. Foreign nodes agree with nothing. -/
def agrees : Stmt α → Stmt β → Bool
  | expression _ a, expression _ b => a.agrees b
  | declare _ a, declare _ b => a.agrees b
  | assign _ target value, assign _ target' value' =>
    target.agrees target' && value.agrees value'
  | cond _ condition thenBody elseBody, cond _ condition' thenBody' elseBody' =>
    condition.agrees condition' && agreeAll thenBody thenBody' && agreeAll elseBody elseBody'
  | forIn _ name value body, forIn _ name' value' body' =>
    name == name' && value.agrees value' && agreeAll body body'
  | whileDo _ condition body, whileDo _ condition' body' =>
    condition.agrees condition' && agreeAll body body'
  | result _ a, result _ b => a.agrees b
  | _, _ => false

/-- Whether two lists of statements agree one by one. -/
def agreeAll : List (Stmt α) → List (Stmt β) → Bool
  | [], [] => true
  | a :: as, b :: bs => a.agrees b && agreeAll as bs
  | _, _ => false

end

end Stmt

/-- Whether two methods agree, in their headers as they are written and in their
bodies. -/
def Method.agrees (a : Method α) (b : Method β) : Bool :=
  a.name == b.name && a.parameters == b.parameters && a.parameterTypes == b.parameterTypes
    && a.returnType == b.returnType && Stmt.agreeAll a.body b.body

/-- Whether two lists agree one by one under `agree`. The lengths have to be
compared first, since the pairs end with the shorter one. -/
def agreeLists {γ δ : Type} (agree : γ → δ → Bool) (as : List γ) (bs : List δ) : Bool :=
  as.length == bs.length && (as.zip bs).all fun (a, b) => agree a b

/-- Whether two programs agree: in their fields and in their methods, in order. -/
def Program.agrees (a : Program α) (b : Program β) : Bool :=
  agreeLists (fun a b => a.declaration.agrees b.declaration) a.fields b.fields
    && agreeLists Method.agrees a.methods b.methods

end PlcLang
