import PlcLang.Proofs.Grammar.Agreement
import PlcLang.Proofs.Grammar.Ownership
import PlcLang.Proofs.Lexical.MaximalCut

/-!
# `PlcLang.Proofs.Grammar.SourceOrder`: trees follow their texts

Every node of a tree that was read from a text owns a run of the text's tokens and is marked
with the offset of the first of them, and the nodes below it own runs inside of that one, in
their order (`nodes_own_runs`). The tokens of a text come in the order of their offsets, so the
offsets of the nodes do not decrease either, on a walk that visits each node before those
below it.
-/

set_option autoImplicit false

namespace PlcLang.Proofs

/-- No token stands before an earlier one: the offsets never decrease. -/
def Ascending (tokens : List Token) : Prop :=
  tokens.Pairwise fun earlier later => earlier.offset ≤ later.offset

/-- The tokens of a text come in the order of their offsets, as each begins behind
the last one. -/
theorem ascending_of_tokenize {text : String} {tokens : List Token}
    (h : tokenize text = .ok tokens) : Ascending tokens := by
  have hcut := ((tokenize_eq_ok_iff_maximalCut text).1 tokens).mp h
  refine hcut.ordered.imp fun {earlier later} hstop => ?_
  exact Nat.le_trans (Nat.le_add_right _ _) hstop

/-- The marks are offsets of the tokens, in their order. Several marks may be the
same: a chain of operators has the mark of its first operand. -/
structure FollowsTokens (tokens : List Token) (marks : List Offset) : Prop where
  sorted : marks.Pairwise (· ≤ ·)
  offsets : ∀ mark ∈ marks, ∃ token ∈ tokens, token.offset = mark

variable {first second tokens : List Token} {marks others : List Offset}

/-- No marks follow any tokens. -/
theorem followsTokens_nil (tokens : List Token) : FollowsTokens tokens [] :=
  ⟨.nil, fun _ h => absurd h List.not_mem_nil⟩

/-- The marks of some of the tokens are marks of all of them. -/
theorem FollowsTokens.mono (h : FollowsTokens tokens marks) {more : List Token}
    (hmore : tokens ⊆ more) : FollowsTokens more marks := by
  refine ⟨h.sorted, fun mark hmark => ?_⟩
  obtain ⟨token, htoken, hoffset⟩ := h.offsets mark hmark
  exact ⟨token, hmore htoken, hoffset⟩

/-- The marks of later tokens come behind those of earlier ones, when the tokens
come in order. -/
theorem FollowsTokens.append (h : FollowsTokens first marks)
    (hothers : FollowsTokens second others) (hascending : Ascending (first ++ second)) :
    FollowsTokens (first ++ second) (marks ++ others) := by
  constructor
  · refine List.pairwise_append.mpr ⟨h.sorted, hothers.sorted, fun mark hmark other hother => ?_⟩
    obtain ⟨earlier, hearlier, rfl⟩ := h.offsets mark hmark
    obtain ⟨later, hlater, rfl⟩ := hothers.offsets other hother
    exact (List.pairwise_append.mp hascending).2.2 earlier hearlier later hlater
  · refine List.forall_mem_append.mpr ⟨?_, ?_⟩
    · exact (h.mono (List.subset_append_left first second)).offsets
    · exact (hothers.mono (List.subset_append_right first second)).offsets

/-- The mark of the first token comes before all others. This is how a node adds its
own mark to those of the nodes below it. -/
theorem FollowsTokens.cons {mark : Offset} (h : FollowsTokens tokens marks)
    (hstart : StartsAt tokens mark) (hascending : Ascending tokens) :
    FollowsTokens tokens (mark :: marks) := by
  obtain ⟨token, rest, rfl, rfl⟩ := hstart
  constructor
  · refine List.pairwise_cons.mpr ⟨fun other hother => ?_, h.sorted⟩
    obtain ⟨later, hlater, rfl⟩ := h.offsets other hother
    rcases List.mem_cons.mp hlater with rfl | hlater
    · exact Nat.le_refl _
    · exact (List.pairwise_cons.mp hascending).1 later hlater
  · exact List.forall_mem_cons.mpr ⟨⟨token, List.mem_cons_self, rfl⟩, h.offsets⟩

mutual

/-- The marks of a node that owns tokens follow them: its own is that of the first
token, and those below it lie in the runs of its children. -/
theorem Owns.followsTokens {tokens : List Token} {node : Node Offset} :
    Owns tokens node → Ascending tokens → FollowsTokens tokens node.marks
  | .mk hstart _ hchildren, hascending => by
      rw [Node.marks_eq]
      exact (hchildren.followsTokens hascending).cons hstart hascending

/-- The marks of nodes that own runs one behind the other follow all of these
tokens. -/
theorem OwnsAll.followsTokens {tokens : List Token} {nodes : List (Node Offset)} :
    OwnsAll tokens nodes → Ascending tokens → FollowsTokens tokens (nodes.flatMap Node.marks)
  | .nil, _ => followsTokens_nil _
  | @OwnsAll.cons gap run rest _ _ hnode hrest, hascending => by
      have hbehind := (List.pairwise_append.mp hascending).2.1
      have hparts := List.pairwise_append.mp hbehind
      rw [List.flatMap_cons]
      have hnodes := (hnode.followsTokens hparts.1).append (hrest.followsTokens hparts.2.1) hbehind
      exact hnodes.mono (List.subset_append_right gap (run ++ rest))

end

/-- The fields, methods, statements and expressions of a tree that was read own runs of the
tokens, each marked with the offset of the first token of its run and with its children inside
and in order; and on a walk from parents to children no offset is smaller than one before. -/
theorem nodes_own_runs {text : String} {tokens : List Token} {program : Program Offset}
    (hlex : tokenize text = .ok tokens) (hparse : parse tokens = .ok program) :
    OwnsAll tokens program.nodes
      ∧ (∀ node : Node Offset, node.Among program.nodes →
        ∃ before run behind, tokens = before ++ (run ++ behind) ∧ Owns run node)
      ∧ program.marks.Pairwise (· ≤ ·) := by
  obtain ⟨rest, hprogram⟩ := parse_eq_ok_iff.mp hparse
  have howns := ownsAll_of_program (tokenClass_of_tokenize hlex) hprogram
  refine ⟨howns, fun node hamong => howns.exists_run hamong, ?_⟩
  rw [Program.marks_eq]
  exact (howns.followsTokens (ascending_of_tokenize hlex)).sorted

/-- The sum and the call chain begin where their first operands do, and the assignment with
its target. -/
theorem nodes_own_runs_of_chains :
    ∃ tokens program, tokenize "LET a = 1 + b.c; DEF m() DO f(a).g = 2; END" = .ok tokens
      ∧ parse tokens = .ok program ∧ OwnsAll tokens program.nodes
      ∧ program.marks = [0, 8, 8, 12, 12, 17, 28, 28, 28, 30, 37] := by
  have hlex : tokenize "LET a = 1 + b.c; DEF m() DO f(a).g = 2; END" = .ok
      [⟨.identifier, "LET", 0⟩, ⟨.identifier, "a", 4⟩, ⟨.operator, "=", 6⟩, ⟨.integer, "1", 8⟩,
        ⟨.operator, "+", 10⟩, ⟨.identifier, "b", 12⟩, ⟨.operator, ".", 13⟩, ⟨.identifier, "c", 14⟩,
        ⟨.operator, ";", 15⟩, ⟨.identifier, "DEF", 17⟩, ⟨.identifier, "m", 21⟩,
        ⟨.operator, "(", 22⟩, ⟨.operator, ")", 23⟩, ⟨.identifier, "DO", 25⟩,
        ⟨.identifier, "f", 28⟩, ⟨.operator, "(", 29⟩, ⟨.identifier, "a", 30⟩,
        ⟨.operator, ")", 31⟩, ⟨.operator, ".", 32⟩, ⟨.identifier, "g", 33⟩,
        ⟨.operator, "=", 35⟩, ⟨.integer, "2", 37⟩, ⟨.operator, ";", 38⟩,
        ⟨.identifier, "END", 40⟩] := by
    rfl
  have hparse : parse
      [⟨.identifier, "LET", 0⟩, ⟨.identifier, "a", 4⟩, ⟨.operator, "=", 6⟩, ⟨.integer, "1", 8⟩,
        ⟨.operator, "+", 10⟩, ⟨.identifier, "b", 12⟩, ⟨.operator, ".", 13⟩, ⟨.identifier, "c", 14⟩,
        ⟨.operator, ";", 15⟩, ⟨.identifier, "DEF", 17⟩, ⟨.identifier, "m", 21⟩,
        ⟨.operator, "(", 22⟩, ⟨.operator, ")", 23⟩, ⟨.identifier, "DO", 25⟩,
        ⟨.identifier, "f", 28⟩, ⟨.operator, "(", 29⟩, ⟨.identifier, "a", 30⟩,
        ⟨.operator, ")", 31⟩, ⟨.operator, ".", 32⟩, ⟨.identifier, "g", 33⟩,
        ⟨.operator, "=", 35⟩, ⟨.integer, "2", 37⟩, ⟨.operator, ";", 38⟩,
        ⟨.identifier, "END", 40⟩]
      = .ok ⟨[⟨0, "a", none, some (.binary 8 .add (.integer 8 1) (.field 12 (.var 12 "b") "c"))⟩],
          [⟨17, "m", [], [], none, [.assign 28
            (.field 28 (.call 28 "f" [.var 30 "a"]) "g") (.integer 37 2)]⟩]⟩ := by
    rfl
  exact ⟨_, _, hlex, hparse, (nodes_own_runs hlex hparse).1, rfl⟩

end PlcLang.Proofs
