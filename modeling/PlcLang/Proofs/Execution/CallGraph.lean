import Mathlib.Data.Fintype.Card
import Mathlib.Data.Fintype.EquivFin
import Mathlib.Data.Fintype.Sets
import Mathlib.Logic.Relation
import PlcLang.Proofs.Ordering.Methods
import PlcLang.Proofs.Syntax.Subexpressions

/-!
# `PlcLang.Proofs.Execution.CallGraph`: which method calls which

A call without a receiver names a function and counts its arguments, and which method it means is
looked up when it is made. So the graph of calls has names and arities for nodes, not methods: from
the key of a method an edge leads to the key of each call in the method's body
(`Program.Calls`). Two methods of one key share a node, and the key of a function of the host is a
node that no edge leaves.

A graph without cycles (`Program.Acyclic`) has no endless descent either, for only the keys of
methods have edges, and there are finitely many (`acc_of_acyclic`). That there is no cycle is seen
from ranks that fall along the edges (`acyclic_of_rank`).
-/

set_option autoImplicit false

namespace PlcLang

variable {α : Type}

/-- The key that the expression calls itself, if it is a call without a receiver.
Calls of members lead to functions of the host only, so they have no part in the
graph. -/
def Expr.callee? : Expr α → Option FunctionKey
  | .call _ name arguments => some (name, arguments.length)
  | _ => none

/-- The keys that expressions call themselves, in the order in which they are
listed. -/
def callees (exprs : List (Expr α)) : List FunctionKey :=
  exprs.filterMap Expr.callee?

/-- An edge of the call graph: a method of the one key has a call of the other in
its body. -/
def Program.Calls (program : Program α) (caller callee : FunctionKey) : Prop :=
  ∃ method ∈ program.methods, method.calledBy = caller ∧ callee ∈ callees method.exprs

/-- The call graph has no cycle: no way along its edges leads from a key back to it. -/
def Program.Acyclic (program : Program α) : Prop :=
  ∀ key, ¬ Relation.TransGen program.Calls key key

namespace Proofs

/-- Callees of a part are callees of the whole. -/
theorem callees_subset {exprs others : List (Expr α)} (h : exprs ⊆ others) :
    callees exprs ⊆ callees others :=
  fun _ hkey =>
    let ⟨e, he, hcallee⟩ := List.mem_filterMap.mp hkey
    List.mem_filterMap.mpr ⟨e, h he, hcallee⟩

variable {program : Program α}

/-- There is no cycle where something falls along every edge. This is how a given
program is seen to have none. -/
theorem acyclic_of_rank (rank : FunctionKey → Nat)
    (h : ∀ method ∈ program.methods, ∀ callee ∈ callees method.exprs,
      rank callee < rank method.calledBy) : program.Acyclic := by
  have hfalls : ∀ caller callee, Relation.TransGen program.Calls caller callee →
      rank callee < rank caller := by
    intro caller callee hpath
    induction hpath with
    | single hedge =>
        obtain ⟨method, hmethod, rfl, hcallee⟩ := hedge
        exact h method hmethod _ hcallee
    | tail _ hedge ih =>
        obtain ⟨method, hmethod, rfl, hcallee⟩ := hedge
        exact Nat.lt_trans (h method hmethod _ hcallee) ih
  exact fun key hcycle => Nat.lt_irrefl _ (hfalls key key hcycle)

/-- Without a cycle there is no endless descent along calls, since a program has
finitely many methods. -/
theorem acc_of_acyclic (h : program.Acyclic) (key : FunctionKey) :
    Acc (fun callee caller => program.Calls caller callee) key := by
  let descends (callee caller : { key // key ∈ program.methods.map Method.calledBy }) : Prop :=
    Relation.TransGen program.Calls caller.1 callee.1
  have : IsTrans _ descends := ⟨fun _ _ _ hfirst hsecond => hsecond.trans hfirst⟩
  have : Std.Irrefl descends := ⟨fun caller => h caller.1⟩
  have hfinite : WellFounded descends := Finite.wellFounded_of_trans_of_irrefl descends
  -- A key of no method calls nothing, so a descent that goes on stays among the keys of methods.
  have hmethods (caller : { key // key ∈ program.methods.map Method.calledBy }) :
      Acc (fun callee caller => program.Calls caller callee) caller.1 := by
    induction caller using hfinite.induction with
    | _ caller ih =>
        refine ⟨_, fun callee hcall => ?_⟩
        by_cases hmethod : callee ∈ program.methods.map Method.calledBy
        · exact ih ⟨callee, hmethod⟩ (.single hcall)
        · refine ⟨_, fun _ hnext => absurd ?_ hmethod⟩
          obtain ⟨method, hmem, hkey, -⟩ := hnext
          exact List.mem_map.mpr ⟨method, hmem, hkey⟩
  refine ⟨_, fun callee hcall => ?_⟩
  obtain ⟨method, hmem, rfl, hcallee⟩ := hcall
  exact (hmethods ⟨_, List.mem_map.mpr ⟨method, hmem, rfl⟩⟩).inv ⟨method, hmem, rfl, hcallee⟩

end Proofs

end PlcLang
