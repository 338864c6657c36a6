import Mathlib

/-!
# Directed Graphs

A directed graph is given by the successors of each node. A node that has only paths that end is
on no cycle, and it is one of these nodes if its successors are; this is what a search tells of
the nodes it has finished. In a finite set of nodes without a cycle some node has no successor
in the set; this is what a sweep that peels off such nodes finds next.

## Main definitions

* `Edge`, `OnCycle`, `Acyclic`: Edges and cycles.
* `Ends`: Every path from a node ends.

## Theorems

* `Ends.not_onCycle`: A node whose paths end is on no cycle.
* `exists_sink`: A set of nodes without a cycle has a node without successors in it.
* `exists_onCycle`: A set in which every node has a successor has a cycle.
-/

namespace Digraph

variable {α : Type} (next : α → List α)

/-- An edge from a node to a successor. -/
def Edge (a b : α) : Prop := b ∈ next a

/-- A path of at least one edge leads from the node to itself. -/
def OnCycle (a : α) : Prop := Relation.TransGen (Edge next) a a

/-- No node is on a cycle. -/
def Acyclic : Prop := ∀ a, ¬ OnCycle next a

/-- Every path from the node ends. -/
def Ends (a : α) : Prop := Acc (fun b a => Edge next a b) a

variable {next}

/-- Every path from a node ends if every path from its successors does. -/
theorem Ends.of_next {a : α} (h : ∀ b ∈ next a, Ends next b) : Ends next a := Acc.intro a h

/-- A node whose paths end is on no cycle. -/
theorem Ends.not_onCycle {a : α} (h : Ends next a) : ¬ OnCycle next a := by
  induction h with
  | intro a _ ih =>
      intro hcycle
      -- the cycle is also one through its second node
      rcases Relation.TransGen.head'_iff.mp hcycle with ⟨b, hab, hba⟩
      exact ih b hab (Relation.TransGen.tail' hba hab)

/-- In a set of nodes without a cycle some node has no successor. -/
theorem exists_sink (hacyclic : Acyclic next) {S : Finset α} (hS : S.Nonempty) :
    ∃ a ∈ S, ∀ b ∈ next a, b ∉ S := by
  -- what a node leads to is an order on a finite set
  let leads : S → S → Prop := fun b a => Relation.TransGen (Edge next) a.1 b.1
  have htrans : IsTrans S leads := ⟨fun _ _ _ hba hcb => hcb.trans hba⟩
  have hirrefl : Std.Irrefl leads := ⟨fun a h => hacyclic a.1 h⟩
  have hwf : WellFounded leads := Finite.wellFounded_of_trans_of_irrefl leads
  rcases hS with ⟨s, hs⟩
  rcases hwf.has_min Set.univ ⟨⟨s, hs⟩, trivial⟩ with ⟨a, -, hmin⟩
  exact ⟨a.1, a.2, fun b hb hbS =>
    hmin ⟨b, hbS⟩ trivial (Relation.TransGen.single hb)⟩

/-- A set in which every node has a successor has a cycle. -/
theorem exists_onCycle {S : Finset α} (hS : S.Nonempty) (hnext : ∀ a ∈ S, ∃ b ∈ next a, b ∈ S) :
    ∃ a, OnCycle next a := by
  by_contra hnone
  rcases exists_sink (fun a h => hnone ⟨a, h⟩) hS with ⟨a, ha, hsink⟩
  rcases hnext a ha with ⟨b, hb, hbS⟩
  exact hsink b hb hbS

end Digraph
