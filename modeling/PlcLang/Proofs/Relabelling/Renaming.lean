import Mathlib.Data.Fintype.EquivFin
import Mathlib.SetTheory.Cardinal.Arithmetic
import PlcLang.Proofs.Relabelling.Sessions

/-!
# `PlcLang.Proofs.Relabelling.Renaming`: what a program means without its names

A renaming of a program gives its variables and its methods other names, and need say
something sensible of the names that the program has and of no others
(`Naming.Consistent`). Variables and methods are renamed apart: a variable and a method
may come to the same name, as they may have the same name from the start.

* `Program.relabel_congr`: only the names that occur in a program matter to it.
* `Naming.Consistent.exists_faithful`: so a consistent renaming is as good as one that
  keeps all names apart, also those the program does not have.
* `renaming_means_nothing`: the renamed program is checked as the program is, and runs as
  it does, but for the names in what is noted and said.
-/

set_option autoImplicit false

namespace PlcLang

open Proofs

/-! ### The names in a program -/

/-- A name together with what it is a name of. -/
inductive Name where
  | ofVariable (name : String)
  | ofMethod (name : String)
deriving DecidableEq, Repr

/-- The new name. -/
def Naming.rename (names : Naming) : Name → Name
  | .ofVariable name => .ofVariable (names.ofVariable name)
  | .ofMethod name => .ofMethod (names.ofMethod name)

section

variable {α : Type}

mutual

/-- The names in an expression, of variables and of functions. Members are no
labels. -/
def Expr.names : Expr α → List Name
  | .nil _ | .boolean .. | .integer .. | .decimal .. | .character .. | .string .. | .foreign .. =>
    []
  | .group _ inner => inner.names
  | .binary _ _ left right => left.names ++ right.names
  | .var _ name => [.ofVariable name]
  | .field _ receiver _ => receiver.names
  | .call _ name arguments => .ofMethod name :: Expr.namesAll arguments
  | .methodCall _ receiver _ arguments => receiver.names ++ Expr.namesAll arguments

/-- The names in a list of expressions. -/
def Expr.namesAll : List (Expr α) → List Name
  | [] => []
  | e :: rest => e.names ++ Expr.namesAll rest

end

/-- The names in a declaration, with the one it declares. -/
def Declaration.names (d : Declaration α) : List Name :=
  .ofVariable d.name :: d.value.elim [] Expr.names

mutual

/-- The names in a statement, with those that it declares. -/
def Stmt.names : Stmt α → List Name
  | .expression _ value | .result _ value => value.names
  | .declare _ d => d.names
  | .assign _ target value => target.names ++ value.names
  | .cond _ condition thenBody elseBody =>
    condition.names ++ (Stmt.namesAll thenBody ++ Stmt.namesAll elseBody)
  | .forIn _ name value body => .ofVariable name :: (value.names ++ Stmt.namesAll body)
  | .whileDo _ condition body => condition.names ++ Stmt.namesAll body
  | .foreign .. => []

/-- The names in a list of statements. -/
def Stmt.namesAll : List (Stmt α) → List Name
  | [] => []
  | s :: rest => s.names ++ Stmt.namesAll rest

end

/-- The names in a method: its own, those of its parameters, and those in its body. -/
def Method.names (method : Method α) : List Name :=
  .ofMethod method.name :: (method.parameters.map .ofVariable ++ Stmt.namesAll method.body)

/-- The names in a program. -/
def Program.names (program : Program α) : List Name :=
  program.fields.flatMap (·.declaration.names) ++ program.methods.flatMap Method.names

end

/-! ### Only these names matter -/

/-- The namings give the names of a list the same new names. -/
def Naming.AgreeOn (names other : Naming) (list : List Name) : Prop :=
  ∀ name ∈ list, names.rename name = other.rename name

section

variable {names other : Naming}

/-- They agree on the first name. -/
theorem Naming.AgreeOn.head {name : Name} {list : List Name}
    (h : names.AgreeOn other (name :: list)) : names.rename name = other.rename name :=
  h name List.mem_cons_self

/-- They agree on the others. -/
theorem Naming.AgreeOn.tail {name : Name} {list : List Name}
    (h : names.AgreeOn other (name :: list)) : names.AgreeOn other list :=
  fun x hx => h x (List.mem_cons_of_mem name hx)

/-- They agree on the front part of a list. -/
theorem Naming.AgreeOn.left {list more : List Name}
    (h : names.AgreeOn other (list ++ more)) : names.AgreeOn other list :=
  fun x hx => h x (List.mem_append_left more hx)

/-- They agree on the part behind it. -/
theorem Naming.AgreeOn.right {list more : List Name}
    (h : names.AgreeOn other (list ++ more)) : names.AgreeOn other more :=
  fun x hx => h x (List.mem_append_right list hx)

/-- The parts of a list that is put together agree where the whole does. -/
theorem Naming.AgreeOn.of_flatMap {ι : Type} {items : List ι} {part : ι → List Name}
    (h : names.AgreeOn other (items.flatMap part)) {i : ι} (hi : i ∈ items) :
    names.AgreeOn other (part i) :=
  fun x hx => h x (List.mem_flatMap.mpr ⟨i, hi, hx⟩)

/-- They agree on a variable that comes first. -/
theorem Naming.AgreeOn.variable_eq {name : String} {list : List Name}
    (h : names.AgreeOn other (.ofVariable name :: list)) :
    names.ofVariable name = other.ofVariable name :=
  Name.ofVariable.inj h.head

/-- They agree on a method that comes first. -/
theorem Naming.AgreeOn.method_eq {name : String} {list : List Name}
    (h : names.AgreeOn other (.ofMethod name :: list)) :
    names.ofMethod name = other.ofMethod name :=
  Name.ofMethod.inj h.head

variable {α β : Type} (mark : α → β)

mutual

/-- Only the names in an expression matter to it. By induction on the expression. -/
theorem Expr.relabel_congr : ∀ {e : Expr α}, names.AgreeOn other e.names →
    e.relabel mark names = e.relabel mark other
  | .nil _, _ | .boolean .., _ | .integer .., _ | .decimal .., _ | .character .., _
  | .string .., _ | .foreign .., _ => rfl
  | .group m inner, h => by
      rw [Expr.names] at h
      rw [Expr.relabel, Expr.relabel, Expr.relabel_congr h]
  | .binary m op left right, h => by
      rw [Expr.names] at h
      rw [Expr.relabel, Expr.relabel, Expr.relabel_congr h.left, Expr.relabel_congr h.right]
  | .var m name, h => by
      rw [Expr.names] at h
      rw [Expr.relabel, Expr.relabel, h.variable_eq]
  | .field m receiver name, h => by
      rw [Expr.names] at h
      rw [Expr.relabel, Expr.relabel, Expr.relabel_congr h]
  | .call m name arguments, h => by
      rw [Expr.names] at h
      rw [Expr.relabel, Expr.relabel, h.method_eq, Expr.relabelAll_congr h.tail]
  | .methodCall m receiver name arguments, h => by
      rw [Expr.names] at h
      rw [Expr.relabel, Expr.relabel, Expr.relabel_congr h.left, Expr.relabelAll_congr h.right]

/-- Only the names in expressions matter to them. -/
theorem Expr.relabelAll_congr : ∀ {list : List (Expr α)},
    names.AgreeOn other (Expr.namesAll list) →
      Expr.relabelAll mark names list = Expr.relabelAll mark other list
  | [], _ => rfl
  | e :: rest, h => by
      rw [Expr.namesAll] at h
      rw [Expr.relabelAll, Expr.relabelAll, Expr.relabel_congr h.left,
        Expr.relabelAll_congr h.right]

end

/-- Only the names in a declaration matter to it. -/
theorem Declaration.relabel_congr {d : Declaration α} (h : names.AgreeOn other d.names) :
    d.relabel mark names = d.relabel mark other := by
  obtain ⟨name, typeName, value⟩ := d
  have hname : names.ofVariable name = other.ofVariable name := h.variable_eq
  cases value with
  | none =>
      show Declaration.mk (names.ofVariable name) _ none = Declaration.mk _ _ none
      rw [hname]
  | some e =>
      show Declaration.mk (names.ofVariable name) _ (some _) = Declaration.mk _ _ (some _)
      rw [hname, Expr.relabel_congr mark h.tail]

mutual

/-- Only the names in a statement matter to it. -/
theorem Stmt.relabel_congr : ∀ {s : Stmt α}, names.AgreeOn other s.names →
    s.relabel mark names = s.relabel mark other
  | .expression m value, h => by
      rw [Stmt.names] at h
      rw [Stmt.relabel, Stmt.relabel, Expr.relabel_congr mark h]
  | .result m value, h => by
      rw [Stmt.names] at h
      rw [Stmt.relabel, Stmt.relabel, Expr.relabel_congr mark h]
  | .declare m d, h => by
      rw [Stmt.names] at h
      rw [Stmt.relabel, Stmt.relabel, Declaration.relabel_congr mark h]
  | .assign m target value, h => by
      rw [Stmt.names] at h
      rw [Stmt.relabel, Stmt.relabel, Expr.relabel_congr mark h.left,
        Expr.relabel_congr mark h.right]
  | .cond m condition thenBody elseBody, h => by
      rw [Stmt.names] at h
      rw [Stmt.relabel, Stmt.relabel, Expr.relabel_congr mark h.left,
        Stmt.relabelAll_congr h.right.left, Stmt.relabelAll_congr h.right.right]
  | .forIn m name value body, h => by
      rw [Stmt.names] at h
      rw [Stmt.relabel, Stmt.relabel, h.variable_eq, Expr.relabel_congr mark h.tail.left,
        Stmt.relabelAll_congr h.tail.right]
  | .whileDo m condition body, h => by
      rw [Stmt.names] at h
      rw [Stmt.relabel, Stmt.relabel, Expr.relabel_congr mark h.left,
        Stmt.relabelAll_congr h.right]
  | .foreign .., _ => rfl

/-- Only the names in statements matter to them. -/
theorem Stmt.relabelAll_congr : ∀ {list : List (Stmt α)},
    names.AgreeOn other (Stmt.namesAll list) →
      Stmt.relabelAll mark names list = Stmt.relabelAll mark other list
  | [], _ => rfl
  | s :: rest, h => by
      rw [Stmt.namesAll] at h
      rw [Stmt.relabelAll, Stmt.relabelAll, Stmt.relabel_congr h.left,
        Stmt.relabelAll_congr h.right]

end

/-- Only the names in a method matter to it. -/
theorem Method.relabel_congr {method : Method α} (h : names.AgreeOn other method.names) :
    method.relabel mark names = method.relabel mark other := by
  have hparameters :
      method.parameters.map names.ofVariable = method.parameters.map other.ofVariable :=
    List.map_congr_left fun name hname =>
      Name.ofVariable.inj (h.tail.left (.ofVariable name) (List.mem_map_of_mem hname))
  unfold Method.relabel
  rw [h.method_eq, hparameters, Stmt.relabelAll_congr mark h.tail.right]

/-- Two namings that agree on the names in a program make the same program of it. -/
theorem Program.relabel_congr {program : Program α} (h : names.AgreeOn other program.names) :
    program.relabel mark names = program.relabel mark other := by
  have hfield (field : Field α) (hfield : field ∈ program.fields) :
      field.relabel mark names = field.relabel mark other :=
    congrArg (Field.mk (mark field.mark))
      (Declaration.relabel_congr mark (h.left.of_flatMap hfield))
  have hmethod (method : Method α) (hmethod : method ∈ program.methods) :
      method.relabel mark names = method.relabel mark other :=
    Method.relabel_congr mark (h.right.of_flatMap hmethod)
  unfold Program.relabel
  rw [List.map_congr_left hfield, List.map_congr_left hmethod]

end

/-! ### Consistent renamings -/

/-- Different variables of the program stay different, and so do different methods. A program
starts with `main` and prints with `print`: these stay, and no other method becomes one of
them. -/
structure Naming.Consistent (names : Naming) (program : Program Offset) : Prop where
  apart : ∀ name ∈ .ofMethod "main" :: .ofMethod "print" :: program.names,
    ∀ other ∈ .ofMethod "main" :: .ofMethod "print" :: program.names,
      names.rename name = names.rename other → name = other
  main : names.ofMethod "main" = "main"
  print : names.ofMethod "print" = "print"

/-- There are always names left: what keeps finitely many names apart can be continued to
something that keeps all names apart. -/
theorem exists_injective_eqOn (rename : String → String) (few : Set String)
    (hfinite : few.Finite) (hapart : few.InjOn rename) :
    ∃ all : String → String, Function.Injective all ∧ few.EqOn all rename := by
  have hfew : Cardinal.mk few < Cardinal.mk String :=
    (Cardinal.lt_aleph0_iff_set_finite.mpr hfinite).trans_le (Cardinal.aleph0_le_mk String)
  obtain ⟨all, hall⟩ := Cardinal.extend_function_of_lt
    ⟨fun name : few => rename name, hapart.injective⟩ hfew ⟨Equiv.refl String⟩
  exact ⟨all, all.injective, fun name hname => hall ⟨name, hname⟩⟩

/-- A consistent renaming does to the program what a faithful naming does. Variables
and methods are continued apart. -/
theorem Naming.Consistent.exists_faithful {names : Naming} {program : Program Offset}
    (h : names.Consistent program) :
    ∃ all : Naming, all.Faithful ∧ names.AgreeOn all program.names := by
  let known : List Name := .ofMethod "main" :: .ofMethod "print" :: program.names
  -- Only names of one kind must stay apart, so each kind is continued by itself.
  obtain ⟨ofVariable, hvariable_inj, hvariable⟩ := exists_injective_eqOn names.ofVariable
    { name | Name.ofVariable name ∈ known }
    (known.finite_toSet.preimage fun _ _ _ _ => Name.ofVariable.inj)
    fun name hname other hother heq =>
      Name.ofVariable.inj (h.apart _ hname _ hother (congrArg Name.ofVariable heq))
  obtain ⟨ofMethod, hmethod_inj, hmethod⟩ := exists_injective_eqOn names.ofMethod
    { name | Name.ofMethod name ∈ known }
    (known.finite_toSet.preimage fun _ _ _ _ => Name.ofMethod.inj)
    fun name hname other hother heq =>
      Name.ofMethod.inj (h.apart _ hname _ hother (congrArg Name.ofMethod heq))
  have hmain : ofMethod "main" = "main" := (hmethod List.mem_cons_self).trans h.main
  have hprint : ofMethod "print" = "print" :=
    (hmethod (List.mem_cons_of_mem _ List.mem_cons_self)).trans h.print
  refine ⟨⟨ofVariable, ofMethod⟩,
    ⟨fun _ _ heq => hvariable_inj heq, fun _ _ heq => hmethod_inj heq, hprint, hmain⟩, ?_⟩
  intro name hname
  have hknown : name ∈ known := List.mem_cons_of_mem _ (List.mem_cons_of_mem _ hname)
  cases name with
  | ofVariable name => exact congrArg Name.ofVariable (hvariable hknown).symm
  | ofMethod name => exact congrArg Name.ofMethod (hmethod hknown).symm

/-! ### What becomes of a renamed program -/

/-- The program under its new names. -/
def Program.rename (names : Naming) (program : Program Offset) : Program Offset :=
  program.relabel id names

/-- The errors have the same code and the same place. What they say may name
something. -/
def CheckError.SameCode (e e' : CheckError) : Prop :=
  e'.cause.code = e.cause.code ∧ e'.offset = e.offset

/-- Runs that have no result have none for the same reason: both are rejected, or both end
in a fault of one kind at one place, or both are cut off. -/
inductive RunError.SameKind : RunError → RunError → Prop where
  | typing {e e' : CheckError} (h : e.SameCode e') :
      SameKind (.program (.typing e)) (.program (.typing e'))
  | fault {f f' : Fault} (hkind : f'.cause.kind = f.cause.kind) (hoffset : f'.offset = f.offset) :
      SameKind (.stopped (.fault f)) (.stopped (.fault f'))
  | host (e : HostError) : SameKind (.stopped (.host e)) (.stopped (.host e))
  | number (e : NumberError) : SameKind (.stopped (.number e)) (.stopped (.number e))
  | tooDeep : SameKind (.stopped .tooDeep) (.stopped .tooDeep)
  | tooLong : SameKind (.stopped .tooLong) (.stopped .tooLong)

/-- The code of an error names nothing. -/
theorem CheckCause.code_rename (names : Naming) (cause : CheckCause) :
    (cause.rename names).code = cause.code := by
  cases cause <;> rfl

/-- The kind of a fault names nothing. -/
theorem FaultCause.kind_rename (names : Naming) (cause : FaultCause) :
    (cause.rename names).kind = cause.kind := by
  cases cause <;> rfl

/-- An error under new names has the code and the place of the error. -/
theorem CheckError.sameCode_relabel (names : Naming) (e : CheckError) :
    e.SameCode (e.relabel id names) :=
  ⟨CheckCause.code_rename names e.cause, Option.map_id_apply⟩

/-- Runs that fail alike under new names fail for the same reason. -/
theorem RunError.Relabelled.sameKind {names : Naming} {e e' : RunError}
    (h : RunError.Relabelled id names e e') : e.SameKind e' := by
  cases h with
  | typing h => exact .typing (h ▸ CheckError.sameCode_relabel names _)
  | stopped h =>
      cases h with
      | fault hcause hoffset =>
          refine .fault ?_ (hoffset.trans Option.map_id_apply)
          rcases hcause with hcause | hcause
          · rw [hcause]
          · rw [hcause, FaultCause.kind_rename]
      | host e => exact .host e
      | number e => exact .number e
      | tooDeep => exact .tooDeep
      | tooLong => exact .tooLong

namespace Proofs

/-- A program that is consistently renamed is accepted when the program is, with notes that
differ in the names alone, or is rejected for the same reason at the same place. A run of
it alone, checked before or not, prints the same and ends with the same value or the same
kind of fault at the same place.

Runs are compared under all limits. So one that reaches no end under any limit has a
counterpart that reaches none. -/
theorem renaming_means_nothing {names : Naming} {program : Program Offset}
    (h : names.Consistent program) :
    EndsAlike CheckError.SameCode
        (fun checked checked' => ∃ all : Naming, names.AgreeOn all program.names ∧
          checked' = checked.relabel (Note.relabel id all) all)
        (check program) (check (program.rename names))
      ∧ ∀ limits analyze,
        EndsAlike RunError.SameKind (· = ·) (Session.initial.perform limits analyze program).1
            (Session.initial.perform limits analyze (program.rename names)).1
          ∧ (Session.initial.perform limits analyze (program.rename names)).2.output
            = (Session.initial.perform limits analyze program).2.output := by
  obtain ⟨all, hall, hagree⟩ := h.exists_faithful
  have hrename : program.rename names = program.relabel id all := Program.relabel_congr id hagree
  rw [hrename]
  refine ⟨?_, fun limits analyze => ?_⟩
  · refine (check_relabel id hall program).imp (fun e e' he => ?_) fun _ _ hchecked =>
      ⟨all, hagree, hchecked⟩
    exact he ▸ e.sameCode_relabel all
  · obtain ⟨hends, houtput⟩ := Session.perform_initial_relabel id hall limits analyze program
    exact ⟨hends.imp (fun _ _ he => he.sameKind) fun _ _ hvalue => hvalue, houtput⟩

/-- So it is where a field and a method `f` and a parameter `x` become `x`, `x` and
`f`. -/
theorem renaming_means_nothing_in_swap :
    let names : Naming :=
      ⟨fun name => if name = "f" then "x" else if name = "x" then "f" else name,
        fun name => if name = "f" then "x" else name⟩
    let program : Program Offset :=
      ⟨[⟨0, ⟨"f", none, some (.integer 8 1)⟩⟩],
        [⟨11, "main", [], [], some "Integer", [.result 34 (.call 41 "f" [.var 43 "f"])]⟩,
          ⟨51, "f", ["x"], ["Integer"], some "Integer",
            [.result 82 (.binary 89 .div (.var 89 "x") (.var 93 "f"))]⟩]⟩
    names.Consistent program
      ∧ (check program).isOk = true
      ∧ ∀ limits analyze, EndsAlike RunError.SameKind (· = ·)
        (Session.initial.perform limits analyze program).1
        (Session.initial.perform limits analyze (program.rename names)).1 := by
  intro names program
  have hconsistent : names.Consistent program := ⟨by decide, rfl, rfl⟩
  exact ⟨hconsistent, by decide, fun limits analyze =>
    ((renaming_means_nothing hconsistent).2 limits analyze).1⟩

end Proofs

end PlcLang
