import Mathlib

/-!
# Worklists

A graph is searched from a stack of nodes: the top is taken off, and a node that was not
visited before is visited and its successors are pushed. The stack may hold a node many
times, so what bounds the search is that the successors of a node are pushed only once.

## Main definitions

* `visit`: The nodes in the order of their visits, if a number of pops is enough.

## Theorems

* `exists_visit`: How many pops are enough.
* `mem_visit`: The nodes that are visited are the reachable ones.
-/

namespace Worklist

variable {α : Type} [DecidableEq α]

/-- The nodes that a search visits. The head of the list is the top of the stack, and of the
    successors of a node the last is on top. -/
def visit (next : α → List α) : Nat → List α → Finset α → Option (List α)
  | _, [], _ => some []
  | 0, _ :: _, _ => none
  | pops + 1, node :: pending, visited =>
    if node ∈ visited then visit next pops pending visited
    else (visit next pops ((next node).reverse ++ pending) (insert node visited)).map (node :: ·)

variable {next : α → List α}

/-- As many pops are enough as there are nodes on the stack and successors of nodes that are
    not visited. -/
theorem exists_visit (all : Finset α) (hnext : ∀ node ∈ all, ∀ succ ∈ next node, succ ∈ all)
    {pops : Nat} : ∀ {pending : List α} {visited : Finset α}, (∀ node ∈ pending, node ∈ all) →
      pending.length + ∑ node ∈ all \ visited, (next node).length ≤ pops →
      ∃ order, visit next pops pending visited = some order := by
  induction pops with
  | zero =>
      intro pending visited _ hle
      cases pending with
      | nil => exact ⟨[], rfl⟩
      | cons node pending =>
          rw [List.length_cons] at hle
          omega
  | succ pops ih =>
      intro pending visited hpending hle
      cases pending with
      | nil => exact ⟨[], rfl⟩
      | cons node pending =>
          rw [List.length_cons] at hle
          have hnode : node ∈ all := hpending node List.mem_cons_self
          have hrest : ∀ other ∈ pending, other ∈ all := fun other hother =>
            hpending other (List.mem_cons_of_mem node hother)
          rw [visit]
          by_cases hin : node ∈ visited
          · rw [if_pos hin]
            exact ih hrest (by omega)
          · rw [if_neg hin]
            -- what the successors add to the stack the node takes off the sum
            have hsum := Finset.add_sum_erase (all \ visited) (fun n => (next n).length)
              (Finset.mem_sdiff.mpr ⟨hnode, hin⟩)
            have herase : (all \ visited).erase node = all \ insert node visited := by
              rw [Finset.sdiff_insert]
            rw [herase] at hsum
            have hlength : ((next node).reverse ++ pending).length =
                (next node).length + pending.length := by
              rw [List.length_append, List.length_reverse]
            have hmem : ∀ other ∈ (next node).reverse ++ pending, other ∈ all := by
              intro other hother
              rcases List.mem_append.mp hother with hsucc | hother
              · exact hnext node hnode other (List.mem_reverse.mp hsucc)
              · exact hrest other hother
            have hfewer : ((next node).reverse ++ pending).length +
                ∑ n ∈ all \ insert node visited, (next n).length ≤ pops := by omega
            rcases ih hmem hfewer with ⟨order, horder⟩
            exact ⟨node :: order, by rw [horder, Option.map_some]⟩

/-- What a search leaves behind: it only ever visits what is reachable from the stack, and
    with the nodes visited before, it has the stack and every successor of its nodes. -/
structure VisitSpec (next : α → List α) (pending : List α) (visited : Finset α)
    (order : List α) : Prop where
  sound : ∀ node ∈ order, ∃ start ∈ pending,
    Relation.ReflTransGen (fun a b => b ∈ next a) start node
  stack : ∀ node ∈ pending, node ∈ visited ∨ node ∈ order
  closed : ∀ node ∈ order, ∀ succ ∈ next node, succ ∈ visited ∨ succ ∈ order

/-- What a search leaves behind. -/
theorem visit_spec {pops : Nat} : ∀ {pending : List α} {visited : Finset α} {order : List α},
    visit next pops pending visited = some order → VisitSpec next pending visited order := by
  induction pops with
  | zero =>
      intro pending visited order h
      cases pending with
      | nil =>
          rcases h
          exact ⟨fun _ h => (nomatch h), fun _ h => (nomatch h), fun _ h => (nomatch h)⟩
      | cons node pending => cases h
  | succ pops ih =>
      intro pending visited order h
      cases pending with
      | nil =>
          rcases h
          exact ⟨fun _ h => (nomatch h), fun _ h => (nomatch h), fun _ h => (nomatch h)⟩
      | cons node pending =>
          rw [visit] at h
          by_cases hin : node ∈ visited
          · rw [if_pos hin] at h
            rcases ih h with ⟨hsound, hstack, hclosed⟩
            refine ⟨fun other hother => ?_, ?_, hclosed⟩
            · rcases hsound other hother with ⟨start, hstart, hpath⟩
              exact ⟨start, List.mem_cons_of_mem node hstart, hpath⟩
            · exact List.forall_mem_cons.mpr ⟨.inl hin, hstack⟩
          · rw [if_neg hin, Option.map_eq_some_iff] at h
            rcases h with ⟨rest, hrest, rfl⟩
            rcases ih hrest with ⟨hsound, hstack, hclosed⟩
            -- the node counts as visited for the rest, and is the first of the order
            have hshift : ∀ other, other ∈ insert node visited ∨ other ∈ rest →
                other ∈ visited ∨ other ∈ node :: rest := by
              rintro other (hother | hother)
              · rcases Finset.mem_insert.mp hother with rfl | hother
                · exact .inr List.mem_cons_self
                · exact .inl hother
              · exact .inr (List.mem_cons_of_mem node hother)
            refine ⟨List.forall_mem_cons.mpr ⟨⟨node, List.mem_cons_self, .refl⟩, ?_⟩,
              List.forall_mem_cons.mpr ⟨.inr List.mem_cons_self, ?_⟩,
              List.forall_mem_cons.mpr ⟨?_, ?_⟩⟩
            · intro other hother
              rcases hsound other hother with ⟨start, hstart, hpath⟩
              rcases List.mem_append.mp hstart with hsucc | hstart
              · exact ⟨node, List.mem_cons_self, .head (List.mem_reverse.mp hsucc) hpath⟩
              · exact ⟨start, List.mem_cons_of_mem node hstart, hpath⟩
            · exact fun other hother => hshift other
                (hstack other (List.mem_append_right _ hother))
            · exact fun succ hsucc => hshift succ
                (hstack succ (List.mem_append_left _ (List.mem_reverse.mpr hsucc)))
            · exact fun other hother succ hsucc => hshift succ (hclosed other hother succ hsucc)

/-- The nodes that a fresh search visits are those that are reachable from its stack. -/
theorem mem_visit {pops : Nat} {pending order : List α}
    (h : visit next pops pending ∅ = some order) (node : α) :
    node ∈ order ↔
      ∃ start ∈ pending, Relation.ReflTransGen (fun a b => b ∈ next a) start node := by
  rcases visit_spec h with ⟨hsound, hstack, hclosed⟩
  have hnew : ∀ other, other ∈ (∅ : Finset α) ∨ other ∈ order → other ∈ order := by
    rintro other (hother | hother)
    · exact absurd hother (Finset.notMem_empty other)
    · exact hother
  constructor
  · exact hsound node
  · rintro ⟨start, hstart, hpath⟩
    induction hpath with
    | refl => exact hnew start (hstack start hstart)
    | tail _ hsucc ih => exact hnew _ (hclosed _ ih _ hsucc)

end Worklist
