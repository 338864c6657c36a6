import PreloopControl.Lib.Digraph
import PreloopControl.Workflow.NeedsGraph

/-!
# Walks over the Graph of Needs

What the three walks find is told by the graph alone. The search for a cycle finishes a node when
all paths from it end, and the nodes on its stack are a path; a need that is on the stack closes
a cycle. The layers take off the nodes whose needs are done; what is left when there is none has
a cycle. The closure takes every node it reaches once.

The walks are loops with fuel. Each has an invariant that says what its state stands for in the
graph, and a measure of the work that remains, of which every round takes one unit; so the fuel
that the walks are given is enough.

## Main definitions

* `Linked`, `Searching`: The stack of the search, and its state.
* `Layered`: The layers so far.
* `Closing`: The closure so far.

## Theorems

* `walkStack_spec`: One root of the search.
* `layerLoop_spec`: The layers.
* `closureLoop_spec`: The closure.
* `dag_analysis`: All three.
-/

namespace Preloop

namespace Workflow

open Digraph

variable {edges : NeedsGraph}

/-! ## The graph -/

/-- One job needs another. -/
abbrev Needs (edges : NeedsGraph) : Text → Text → Prop := Edge (needsOf edges)

/-- The lists under some keys are not longer than all lists. -/
theorem sum_lookup_le {K V : Type} [LinearOrder K] (m : SortedMap K (List V)) (S : Finset K) :
    ∑ k ∈ S, ((m.lookup k).getD []).length ≤ (m.entries.map fun e => e.2.length).sum := by
  unfold SortedMap.lookup
  induction m.entries with
  | nil => simp
  | cons e es ih =>
      have hstep : ∀ k ∈ S, ((((e :: es).find? fun e => e.1 = k).map (·.2)).getD []).length ≤
          (if k = e.1 then e.2.length else 0) +
            (((es.find? fun e => e.1 = k).map (·.2)).getD []).length := by
        intro k _
        by_cases hk : e.1 = k
        · rw [List.find?_cons_of_pos (by simpa using hk), if_pos hk.symm]
          exact Nat.le_add_right _ _
        · rw [List.find?_cons_of_neg (by simpa using hk)]
          exact Nat.le_add_left _ _
      have hone : ∑ k ∈ S, (if k = e.1 then e.2.length else 0) ≤ e.2.length := by
        rw [Finset.sum_ite_eq']
        split <;> omega
      have hall := Finset.sum_le_sum hstep
      rw [Finset.sum_add_distrib] at hall
      rw [List.map_cons, List.sum_cons]
      omega

/-- The needs of some nodes are not more than all needs. -/
theorem sum_needs_le (edges : NeedsGraph) (S : Finset Text) :
    ∑ node ∈ S, (needsOf edges node).length ≤ needsCount edges := sum_lookup_le edges S

/-- A node that is no job has no needs. -/
theorem needsOf_of_not_mem {node : Text} (h : node ∉ edges.entries.map (·.1)) :
    needsOf edges node = [] := by
  unfold needsOf
  cases hlookup : edges.lookup node with
  | none => rfl
  | some needs =>
      exact absurd (List.mem_map_of_mem (f := (·.1)) (SortedMap.mem_of_lookup hlookup)) h

/-! ## What is needed -/

/-- The closure so far: what it holds or is going to look at is needed, and holds its needs. -/
structure Closing (edges : NeedsGraph) (roots : List Text) (stack : List Text)
    (closed : Finset Text) : Prop where
  needed : ∀ node, node ∈ closed ∨ node ∈ stack →
    ∃ root ∈ roots, Relation.ReflTransGen (Needs edges) root node
  root : ∀ root ∈ roots, root ∈ closed ∨ root ∈ stack
  next : ∀ node ∈ closed, ∀ dep ∈ needsOf edges node, dep ∈ closed ∨ dep ∈ stack

/-- A node that was looked at before is taken off. -/
theorem Closing.skip {roots stack : List Text} {node : Text} {closed : Finset Text}
    (h : Closing edges roots (node :: stack) closed) (hnode : node ∈ closed) :
    Closing edges roots stack closed where
  needed other hother := h.needed other (hother.imp_right (List.mem_cons_of_mem node))
  root other hother := by
    rcases h.root other hother with hin | hin
    · exact Or.inl hin
    · rcases List.mem_cons.mp hin with rfl | hin
      · exact Or.inl hnode
      · exact Or.inr hin
  next other hother dep hdep := by
    rcases h.next other hother dep hdep with hin | hin
    · exact Or.inl hin
    · rcases List.mem_cons.mp hin with rfl | hin
      · exact Or.inl hnode
      · exact Or.inr hin

/-- A node is looked at. -/
theorem Closing.take {roots stack : List Text} {node : Text} {closed : Finset Text}
    (h : Closing edges roots (node :: stack) closed) :
    Closing edges roots (((needsOf edges node).filter (· ∉ insert node closed)).reverse ++ stack)
      (insert node closed) := by
  have hmoved : ∀ other, other ∈ closed ∨ other ∈ node :: stack →
      other ∈ insert node closed ∨
        other ∈ ((needsOf edges node).filter (· ∉ insert node closed)).reverse ++ stack := by
    rintro other (hin | hin)
    · exact Or.inl (Finset.mem_insert_of_mem hin)
    · rcases List.mem_cons.mp hin with rfl | hin
      · exact Or.inl (Finset.mem_insert_self _ _)
      · exact Or.inr (List.mem_append_right _ hin)
  refine ⟨?_, fun root hroot => hmoved root (h.root root hroot), ?_⟩
  · rintro other (hin | hin)
    · rcases Finset.mem_insert.mp hin with rfl | hin
      · exact h.needed other (Or.inr List.mem_cons_self)
      · exact h.needed other (Or.inl hin)
    · rcases List.mem_append.mp hin with hin | hin
      · -- a need of the node is needed as the node is
        have hdep := List.mem_of_mem_filter (List.mem_reverse.mp hin)
        rcases h.needed node (Or.inr List.mem_cons_self) with ⟨root, hroot, hreach⟩
        exact ⟨root, hroot, hreach.tail hdep⟩
      · exact h.needed other (Or.inr (List.mem_cons_of_mem node hin))
  · intro other hother dep hdep
    rcases Finset.mem_insert.mp hother with rfl | hother
    -- a need that is not closed yet is put on the stack
    · by_cases hin : dep ∈ insert other closed
      · exact Or.inl hin
      · refine Or.inr (List.mem_append_left _ (List.mem_reverse.mpr ?_))
        exact List.mem_filter.mpr ⟨hdep, decide_eq_true hin⟩
    · exact hmoved dep (h.next other hother dep hdep)

/-- The loop ends with what the roots need. -/
theorem closureLoop_spec {roots : List Text} (n : Nat) : ∀ (stack : List Text)
    (closed : Finset Text), Closing edges roots stack closed →
      stack.length + ∑ node ∈ (edges.entries.map (·.1)).toFinset \ closed,
        (needsOf edges node).length ≤ n →
      ∃ result, closureLoop edges n stack closed = some result ∧ Closing edges roots [] result := by
  induction n with
  | zero =>
      intro stack closed h hle
      cases stack with
      | nil => exact ⟨closed, rfl, h⟩
      | cons node stack =>
          rw [List.length_cons] at hle
          omega
  | succ n ih =>
      intro stack closed h hle
      cases stack with
      | nil => exact ⟨closed, rfl, h⟩
      | cons node stack =>
          rw [List.length_cons] at hle
          unfold closureLoop
          by_cases hin : node ∈ closed
          · rw [if_pos hin]
            -- a node that is closed already is dropped from the stack
            exact ih stack closed (h.skip hin) (by omega)
          · rw [if_neg hin]
            refine ih _ _ h.take ?_
            have hfew := List.length_filter_le (· ∉ insert node closed) (needsOf edges node)
            rw [List.length_append, List.length_reverse, Finset.sdiff_insert]
            by_cases hkey : node ∈ (edges.entries.map (·.1)).toFinset
            · -- what the needs add to the stack the node takes off the sum
              have hsum := Finset.add_sum_erase _ (fun n => (needsOf edges n).length)
                (Finset.mem_sdiff.mpr ⟨hkey, hin⟩)
              omega
            · have hnone : needsOf edges node = [] :=
                needsOf_of_not_mem fun hmem => hkey (List.mem_toFinset.mpr hmem)
              rw [hnone, List.filter_nil, List.length_nil,
                Finset.erase_eq_of_notMem fun hmem => hkey (Finset.mem_sdiff.mp hmem).1]
              omega

/-- The jobs that some jobs need. -/
theorem dependencyClosure_spec (edges : NeedsGraph) (roots : List Text) :
    ∃ closed, dependencyClosure edges roots = some closed ∧ ∀ node, node ∈ closed ↔
      ∃ root ∈ roots, Relation.ReflTransGen (Needs edges) root node := by
  have hstart : Closing edges roots roots.reverse ∅ := by
    refine ⟨?_, fun root hroot => Or.inr (List.mem_reverse.mpr hroot), ?_⟩
    · rintro node (hin | hin)
      · exact absurd hin (Finset.notMem_empty node)
      · exact ⟨node, List.mem_reverse.mp hin, Relation.ReflTransGen.refl⟩
    · intro node hin
      exact absurd hin (Finset.notMem_empty node)
  have hrounds := sum_needs_le edges ((edges.entries.map (·.1)).toFinset \ ∅)
  rcases closureLoop_spec (roots.length + needsCount edges) roots.reverse ∅ hstart
    (by rw [List.length_reverse]; omega) with ⟨closed, hclosed, h⟩
  refine ⟨closed, hclosed, fun node => ⟨fun hin => h.needed node (Or.inl hin), ?_⟩⟩
  rintro ⟨root, hroot, hreach⟩
  induction hreach with
  | refl =>
      rcases h.root root hroot with hin | hin
      · exact hin
      · cases hin
  | tail _ hstep ih =>
      rcases h.next _ ih _ hstep with hin | hin
      · exact hin
      · cases hin

/-! ## Nodes -/

theorem lookup_orInsertAll {V : Type} (value : V) (keys : List Text) (key : Text) :
    ∀ m : SortedMap Text V, (orInsertAll value keys m).lookup key =
      (m.lookup key).or (if key ∈ keys then some value else none) := by
  unfold orInsertAll
  induction keys with
  | nil =>
      intro m
      simp
  | cons first keys ih =>
      intro m
      rw [List.foldl_cons, ih]
      by_cases hkey : key = first
      · subst hkey
        cases hlookup : m.lookup key <;> simp [hlookup]
      · by_cases hin : (m.lookup first).isSome = true
        · rw [if_pos hin]
          simp [hkey]
        · rw [if_neg hin, SortedMap.lookup_insert, if_neg (Ne.symm hkey)]
          simp [hkey]

/-- The nodes: the jobs, and what they need. -/
def IsNode (edges : NeedsGraph) (node : Text) : Prop :=
  node ∈ edges.entries.map (·.1) ∨ node ∈ edges.entries.flatMap (·.2)

theorem mem_keys_iff {V : Type} {m : SortedMap Text V} {key : Text} :
    key ∈ m.entries.map (·.1) ↔ ∃ value, m.lookup key = some value := by
  constructor
  · intro h
    rcases List.mem_map.mp h with ⟨⟨key', value⟩, hmem, rfl⟩
    exact ⟨value, SortedMap.lookup_of_mem hmem⟩
  · rintro ⟨value, hvalue⟩
    exact List.mem_map_of_mem (f := (·.1)) (SortedMap.mem_of_lookup hvalue)

/-- What a job needs is a node. -/
theorem isNode_of_need {node dep : Text} (h : dep ∈ needsOf edges node) : IsNode edges dep := by
  unfold needsOf at h
  cases hlookup : edges.lookup node with
  | none =>
      rw [hlookup] at h
      cases h
  | some needs =>
      rw [hlookup] at h
      exact Or.inr (List.mem_flatMap.mpr ⟨(node, needs), SortedMap.mem_of_lookup hlookup, h⟩)

/-- A map over the jobs, with a value for what is needed and no job, is one over the nodes. -/
theorem lookup_nodes {V : Type} (f : List Text → V) {value : V} (hvalue : f [] = value)
    (node : Text) : (IsNode edges node → (orInsertAll value (edges.entries.flatMap (·.2))
      (edges.mapValues f)).lookup node = some (f (needsOf edges node))) ∧
    (¬ IsNode edges node → (orInsertAll value (edges.entries.flatMap (·.2))
      (edges.mapValues f)).lookup node = none) := by
  rw [lookup_orInsertAll, SortedMap.lookup_mapValues]
  unfold IsNode needsOf
  rw [mem_keys_iff]
  cases hlookup : edges.lookup node with
  | none =>
      by_cases hdep : node ∈ edges.entries.flatMap (·.2)
      · simp [hdep, hvalue]
      · simp [hdep]
  | some needs => simp

/-! ## Layers -/

/-- Every need of a node of a layer is in a layer before it. -/
def Earlier (edges : NeedsGraph) (layers : List (List Text)) : Prop :=
  ∀ before layer after, layers = before ++ layer :: after →
    ∀ node ∈ layer, ∀ dep ∈ needsOf edges node, dep ∈ before.flatten

theorem Earlier.snoc {layers : List (List Text)} (h : Earlier edges layers) {layer : List Text}
    (hlayer : ∀ node ∈ layer, ∀ dep ∈ needsOf edges node, dep ∈ layers.flatten) :
    Earlier edges (layers ++ [layer]) := by
  intro before last after hsplit
  rcases List.eq_nil_or_concat after with rfl | ⟨after, last', rfl⟩
  · rcases List.append_inj' hsplit rfl with ⟨rfl, hlast⟩
    cases hlast
    exact hlayer
  · rw [List.concat_eq_append, ← List.cons_append, ← List.append_assoc] at hsplit
    rcases List.append_inj' hsplit rfl with ⟨hlayers, -⟩
    exact h before last after hlayers

/-- The layers so far. -/
structure Layered (edges : NeedsGraph) (done : Finset Text) (layers : List (List Text)) :
    Prop where
  mem : ∀ node, node ∈ done ↔ node ∈ layers.flatten
  nodup : layers.flatten.Nodup
  nodes : ∀ node ∈ done, IsNode edges node
  earlier : Earlier edges layers

/-- The needs of every node, as sets. -/
theorem mem_remainingNeeds {e : Text × Finset Text} :
    e ∈ (remainingNeeds edges).entries ↔ IsNode edges e.1 ∧ e.2 = (needsOf edges e.1).toFinset := by
  have hlookup : (IsNode edges e.1 → (remainingNeeds edges).lookup e.1 =
      some (needsOf edges e.1).toFinset) ∧ (¬ IsNode edges e.1 →
      (remainingNeeds edges).lookup e.1 = none) :=
    lookup_nodes List.toFinset List.toFinset_nil e.1
  constructor
  · intro hmem
    have hfound := SortedMap.lookup_of_mem hmem
    by_cases hnode : IsNode edges e.1
    · exact ⟨hnode, Option.some.inj (hfound.symm.trans (hlookup.1 hnode))⟩
    · cases hfound.symm.trans (hlookup.2 hnode)
  · rintro ⟨hnode, hneeds⟩
    have hmem := SortedMap.mem_of_lookup (hlookup.1 hnode)
    rwa [← hneeds] at hmem

/-- The nodes that can be done next. -/
theorem mem_readyLayer {done : Finset Text} {node : Text} :
    node ∈ readyLayer (remainingNeeds edges) done ↔
      IsNode edges node ∧ node ∉ done ∧ ∀ dep ∈ needsOf edges node, dep ∈ done := by
  unfold readyLayer
  rw [List.mem_map]
  constructor
  · rintro ⟨e, he, rfl⟩
    rcases List.mem_filter.mp he with ⟨hmem, hready⟩
    rcases mem_remainingNeeds.mp hmem with ⟨hnode, hneeds⟩
    rcases of_decide_eq_true hready with ⟨hnot, hsub⟩
    rw [hneeds] at hsub
    exact ⟨hnode, hnot, fun dep hdep => hsub (List.mem_toFinset.mpr hdep)⟩
  · rintro ⟨hnode, hnot, hneeds⟩
    refine ⟨(node, (needsOf edges node).toFinset), List.mem_filter.mpr
      ⟨mem_remainingNeeds.mpr ⟨hnode, rfl⟩, decide_eq_true ⟨hnot, fun dep hdep => ?_⟩⟩, rfl⟩
    exact hneeds dep (List.mem_toFinset.mp hdep)

theorem nodup_keys {V : Type} (m : SortedMap Text V) : (m.entries.map (·.1)).Nodup :=
  List.pairwise_map.mpr (m.sorted.imp fun h => ne_of_lt h)

theorem nodup_readyLayer {remaining : SortedMap Text (Finset Text)} {done : Finset Text} :
    (readyLayer remaining done).Nodup :=
  (nodup_keys remaining).sublist (List.filter_sublist.map _)

/-- The nodes, as a set. -/
def nodeSet (edges : NeedsGraph) : Finset Text :=
  ((remainingNeeds edges).entries.map (·.1)).toFinset

theorem mem_nodeSet {node : Text} : node ∈ nodeSet edges ↔ IsNode edges node := by
  unfold nodeSet
  rw [List.mem_toFinset, List.mem_map]
  constructor
  · rintro ⟨e, he, rfl⟩
    exact (mem_remainingNeeds.mp he).1
  · intro h
    exact ⟨(node, (needsOf edges node).toFinset), mem_remainingNeeds.mpr ⟨h, rfl⟩, rfl⟩

theorem card_nodeSet : (nodeSet edges).card = (remainingNeeds edges).entries.length := by
  unfold nodeSet
  rw [List.toFinset_card_of_nodup (nodup_keys _), List.length_map]

/-- One more layer. -/
theorem Layered.snoc {done : Finset Text} {layers : List (List Text)}
    (h : Layered edges done layers) :
    Layered edges (done ∪ (readyLayer (remainingNeeds edges) done).toFinset)
      (layers ++ [readyLayer (remainingNeeds edges) done]) := by
  refine ⟨fun node => ?_, ?_, fun node hnode => ?_, h.earlier.snoc fun node hnode dep hdep => ?_⟩
  · rw [Finset.mem_union, List.mem_toFinset, h.mem, List.flatten_concat, List.mem_append]
  · rw [List.flatten_concat]
    refine List.nodup_append.mpr ⟨h.nodup, nodup_readyLayer, ?_⟩
    rintro a hdone b hready rfl
    exact (mem_readyLayer.mp hready).2.1 ((h.mem a).mpr hdone)
  · rcases Finset.mem_union.mp hnode with hin | hin
    · exact h.nodes node hin
    · exact (mem_readyLayer.mp (List.mem_toFinset.mp hin)).1
  · exact (h.mem dep).mp ((mem_readyLayer.mp hnode).2.2 dep hdep)

/-- The loop ends with all nodes in layers, or where a cycle is left. -/
theorem layerLoop_spec (n : Nat) : ∀ (done : Finset Text) (layers : List (List Text)),
    Layered edges done layers → (remainingNeeds edges).entries.length ≤ done.card + n →
      (∃ done' layers', layerLoop (remainingNeeds edges) n done layers = some (some layers') ∧
        Layered edges done' layers' ∧ ∀ node, IsNode edges node → node ∈ done') ∨
      (layerLoop (remainingNeeds edges) n done layers = some none ∧
        ∃ node, OnCycle (needsOf edges) node) := by
  induction n with
  | zero =>
      intro done layers h hle
      rw [Nat.add_zero] at hle
      have hall := Finset.eq_of_subset_of_card_le
        (fun node hnode => mem_nodeSet.mpr (h.nodes node hnode)) (card_nodeSet.trans_le hle)
      refine Or.inl ⟨done, layers, ?_, h, fun node hnode => ?_⟩
      · unfold layerLoop
        rw [if_pos hle]
      · rw [hall]
        exact mem_nodeSet.mpr hnode
  | succ n ih =>
      intro done layers h hle
      unfold layerLoop
      by_cases hdone : (remainingNeeds edges).entries.length ≤ done.card
      · rw [if_pos hdone]
        have hall := Finset.eq_of_subset_of_card_le
          (fun node hnode => mem_nodeSet.mpr (h.nodes node hnode)) (card_nodeSet.trans_le hdone)
        refine Or.inl ⟨done, layers, rfl, h, fun node hnode => ?_⟩
        rw [hall]
        exact mem_nodeSet.mpr hnode
      · rw [if_neg hdone]
        dsimp only
        by_cases hempty : readyLayer (remainingNeeds edges) done = []
        · rw [if_pos hempty]
          -- every node that is left has a need that is left
          refine Or.inr ⟨rfl, exists_onCycle (S := nodeSet edges \ done) ?_ fun node hnode => ?_⟩
          · refine Finset.nonempty_iff_ne_empty.mpr fun hnone => hdone ?_
            rw [← card_nodeSet]
            exact Finset.card_le_card (Finset.sdiff_eq_empty_iff_subset.mp hnone)
          · rcases Finset.mem_sdiff.mp hnode with ⟨hin, hnot⟩
            by_contra hall
            have hready : node ∈ readyLayer (remainingNeeds edges) done := by
              refine mem_readyLayer.mpr ⟨mem_nodeSet.mp hin, hnot, fun dep hdep => ?_⟩
              by_contra hleft
              exact hall ⟨dep, hdep, Finset.mem_sdiff.mpr
                ⟨mem_nodeSet.mpr (isNode_of_need hdep), hleft⟩⟩
            rw [hempty] at hready
            cases hready
        · rw [if_neg hempty]
          refine ih _ _ h.snoc ?_
          have hdisjoint : Disjoint done (readyLayer (remainingNeeds edges) done).toFinset := by
            refine Finset.disjoint_left.mpr fun node hin hready => ?_
            exact (mem_readyLayer.mp (List.mem_toFinset.mp hready)).2.1 hin
          rw [Finset.card_union_of_disjoint hdisjoint,
            List.toFinset_card_of_nodup nodup_readyLayer]
          have hpos := List.length_pos_iff.mpr hempty
          omega

/-- Nodes in layers are on no cycle. -/
theorem Earlier.ends {layers : List (List Text)} : Earlier edges layers →
    ∀ node ∈ layers.flatten, Ends (needsOf edges) node := by
  induction layers using List.reverseRecOn with
  | nil =>
      intro _ node hnode
      cases hnode
  | append_singleton layers layer ih =>
      intro h node hnode
      have hfront : Earlier edges layers := fun before last after hsplit =>
        h before last (after ++ [layer]) (by rw [hsplit, List.append_assoc, List.cons_append])
      rw [List.flatten_concat] at hnode
      rcases List.mem_append.mp hnode with hin | hin
      · exact ih hfront node hin
      · exact Ends.of_next fun dep hdep => ih hfront dep (h layers layer [] rfl node hin dep hdep)

/-- The layers hold every node once and its needs before it, and there are layers exactly if there
    is no cycle. -/
theorem topoLayers_spec (edges : NeedsGraph) :
    (∃ layers, topoLayers edges = some (some layers) ∧ Acyclic (needsOf edges) ∧
      layers.flatten.Nodup ∧ (∀ node, node ∈ layers.flatten ↔ IsNode edges node) ∧
        Earlier edges layers) ∨
    (topoLayers edges = some none ∧ ¬ Acyclic (needsOf edges)) := by
  have hstart : Layered edges ∅ [] := by
    refine ⟨fun node => ?_, List.nodup_nil, fun node h => absurd h (Finset.notMem_empty node), ?_⟩
    · exact iff_of_false (Finset.notMem_empty node) List.not_mem_nil
    · intro before layer after h
      cases before <;> cases h
  rcases layerLoop_spec (remainingNeeds edges).entries.length ∅ [] hstart
    (Nat.le_add_left _ _) with ⟨done, layers, hlayers, h, hall⟩ | ⟨hnone, node, hcycle⟩
  · refine Or.inl ⟨layers, hlayers, fun node => ?_, h.nodup, fun node => ?_, h.earlier⟩
    · by_cases hnode : IsNode edges node
      · exact (h.earlier.ends node ((h.mem node).mp (hall node hnode))).not_onCycle
      · -- a text that is no node needs nothing
        refine Ends.not_onCycle (Ends.of_next fun dep hdep => ?_)
        rw [needsOf_of_not_mem fun hmem => hnode (Or.inl hmem)] at hdep
        cases hdep
    · rw [← h.mem]
      exact ⟨h.nodes node, hall node⟩
  · exact Or.inr ⟨hnone, fun hacyclic => hacyclic node hcycle⟩

/-! ## The search for a cycle -/

theorem colorOf_insert (color : Colors) (node : Text) (c : Color) (other : Text) :
    colorOf (color.insert node c) other = if other = node then c else colorOf color other := by
  unfold colorOf
  rw [SortedMap.lookup_insert]
  by_cases hother : other = node
  · rw [if_pos hother, if_pos hother.symm]
    rfl
  · rw [if_neg hother, if_neg (Ne.symm hother)]

/-- The stack is a path: what was walked of a frame is finished, or is the frame above. -/
def Linked (edges : NeedsGraph) (color : Colors) : Option Text → List Frame → Prop
  | _, [] => True
  | above, frame :: stack =>
    (∃ walked, needsOf edges frame.node = walked ++ frame.deps ∧
      ∀ dep ∈ walked, colorOf color dep = .black ∨ above = some dep) ∧
    (∀ dep, above = some dep → dep ∈ needsOf edges frame.node) ∧
      Linked edges color (some frame.node) stack

/-- The state of the search: the gray nodes are on the stack, and the black ones are finished. -/
structure Searching (edges : NeedsGraph) (stack : List Frame) (color : Colors) : Prop where
  gray : ∀ node, colorOf color node = .gray ↔ node ∈ stack.map Frame.node
  nodup : (stack.map Frame.node).Nodup
  black : ∀ node, colorOf color node = .black → Ends (needsOf edges) node
  linked : Linked edges color none stack

theorem Linked.mono {color color' : Colors}
    (hcolor : ∀ node, colorOf color node = .black → colorOf color' node = .black) :
    ∀ {stack : List Frame} {above : Option Text}, Linked edges color above stack →
      Linked edges color' above stack
  | [], _, _ => trivial
  | _ :: _, _, ⟨⟨walked, hneeds, hwalked⟩, habove, hrest⟩ =>
    ⟨⟨walked, hneeds, fun dep hdep => (hwalked dep hdep).imp_left (hcolor dep)⟩, habove,
      hrest.mono hcolor⟩

/-- The frame above is no longer there, but what it was for is finished. -/
theorem Linked.settle {color : Colors} {node : Text} (hnode : colorOf color node = .black) :
    ∀ {stack : List Frame}, Linked edges color (some node) stack → Linked edges color none stack
  | [], _ => trivial
  | _ :: _, ⟨⟨walked, hneeds, hwalked⟩, _, hrest⟩ => by
      refine ⟨⟨walked, hneeds, fun dep hdep => ?_⟩, fun dep hdep => (by cases hdep), hrest⟩
      rcases hwalked dep hdep with hblack | habove
      · exact Or.inl hblack
      · cases habove
        exact Or.inl hnode

/-- From every node of the stack a path leads to the one above. -/
theorem Linked.reach {color : Colors} : ∀ {stack : List Frame} {above : Text},
    Linked edges color (some above) stack → ∀ node ∈ stack.map Frame.node,
      Relation.TransGen (Needs edges) node above
  | [], _, _, _, h => by cases h
  | frame :: stack, above, ⟨_, habove, hrest⟩, node, hnode => by
      have hstep : Needs edges frame.node above := habove above rfl
      rcases List.mem_cons.mp hnode with rfl | hnode
      · exact Relation.TransGen.single hstep
      · exact (hrest.reach node hnode).tail hstep

/-- A node whose needs are all walked is finished. -/
theorem Searching.finish {node : Text} {stack : List Frame} {color : Colors}
    (h : Searching edges (⟨node, []⟩ :: stack) color) :
    Searching edges stack (color.insert node .black) := by
  rcases h.linked with ⟨⟨walked, hneeds, hwalked⟩, -, hrest⟩
  rcases List.nodup_cons.mp h.nodup with ⟨hnot, hnodup⟩
  -- every need of the node is black, so every walk from it ends
  have hends : Ends (needsOf edges) node := by
    refine Ends.of_next fun dep hdep => ?_
    rw [hneeds, List.append_nil] at hdep
    rcases hwalked dep hdep with hblack | habove
    · exact h.black dep hblack
    · cases habove
  -- black nodes stay black
  have hkept : ∀ other, colorOf color other = .black →
      colorOf (color.insert node .black) other = .black := by
    intro other hother
    rw [colorOf_insert]
    by_cases heq : other = node
    · rw [if_pos heq]
    · rw [if_neg heq]
      exact hother
  refine ⟨fun other => ?_, hnodup, fun other hother => ?_, (hrest.mono hkept).settle ?_⟩
  -- the node is gray no more, and the others are as they were
  · rw [colorOf_insert]
    by_cases heq : other = node
    · rw [if_pos heq, heq]
      exact iff_of_false Color.noConfusion hnot
    · rw [if_neg heq, h.gray, List.map_cons, List.mem_cons]
      exact ⟨fun hmem => hmem.resolve_left heq, Or.inr⟩
  -- what is black was black before, or is the node
  · rw [colorOf_insert] at hother
    by_cases heq : other = node
    · rw [heq]
      exact hends
    · rw [if_neg heq] at hother
      exact h.black other hother
  · rw [colorOf_insert, if_pos rfl]

/-- A need that is finished is walked. -/
theorem Searching.pass {node dep : Text} {deps : List Text} {stack : List Frame} {color : Colors}
    (h : Searching edges (⟨node, dep :: deps⟩ :: stack) color)
    (hdep : colorOf color dep = .black) : Searching edges (⟨node, deps⟩ :: stack) color := by
  rcases h.linked with ⟨⟨walked, hneeds, hwalked⟩, habove, hrest⟩
  refine ⟨h.gray, h.nodup, h.black, ⟨walked ++ [dep], ?_, fun other hother => ?_⟩, habove, hrest⟩
  · rw [hneeds, List.append_assoc]
    rfl
  · rcases List.mem_append.mp hother with hother | hother
    · exact hwalked other hother
    · rw [List.mem_singleton.mp hother]
      exact Or.inl hdep

/-- A need that was not seen before goes on the stack. -/
theorem Searching.push {node dep : Text} {deps : List Text} {stack : List Frame} {color : Colors}
    (h : Searching edges (⟨node, dep :: deps⟩ :: stack) color)
    (hdep : colorOf color dep = .white) :
    Searching edges (frameFor edges dep :: ⟨node, deps⟩ :: stack) (color.insert dep .gray) := by
  rcases h.linked with ⟨⟨walked, hneeds, hwalked⟩, -, hrest⟩
  -- black needs stay black, and the new one was white, so it is not on the stack yet
  have hkept : ∀ other, colorOf color other = .black →
      colorOf (color.insert dep .gray) other = .black := by
    intro other hother
    rw [colorOf_insert, if_neg]
    · exact hother
    · rintro rfl
      rw [hdep] at hother
      cases hother
  have hnew : dep ∉ (⟨node, deps⟩ :: stack : List Frame).map Frame.node := fun hmem => by
    have hgray := (h.gray dep).mpr hmem
    rw [hdep] at hgray
    cases hgray
  refine ⟨fun other => ?_, List.nodup_cons.mpr ⟨hnew, h.nodup⟩, fun other hother => ?_,
    ⟨[], rfl, fun other hother => (by cases hother)⟩, fun other hother => (by cases hother),
    ⟨walked ++ [dep], ?_, fun other hother => ?_⟩, fun other hother => ?_, hrest.mono hkept⟩
  · rw [colorOf_insert, List.map_cons, List.mem_cons]
    by_cases heq : other = dep
    · rw [if_pos heq]
      exact iff_of_true rfl (Or.inl heq)
    · rw [if_neg heq, h.gray]
      exact ⟨Or.inr, fun hmem => hmem.resolve_left heq⟩
  · rw [colorOf_insert] at hother
    by_cases heq : other = dep
    · rw [if_pos heq] at hother
      cases hother
    · rw [if_neg heq] at hother
      exact h.black other hother
  · rw [hneeds, List.append_assoc]
    rfl
  · rcases List.mem_append.mp hother with hother | hother
    · rcases hwalked other hother with hblack | habove
      · exact Or.inl (hkept other hblack)
      · cases habove
    · rw [List.mem_singleton.mp hother]
      exact Or.inr rfl
  · cases hother
    rw [hneeds]
    exact List.mem_append_right walked List.mem_cons_self

/-- A need that is on the stack closes a cycle. -/
theorem Searching.cycle {node dep : Text} {deps : List Text} {stack : List Frame} {color : Colors}
    (h : Searching edges (⟨node, dep :: deps⟩ :: stack) color)
    (hdep : colorOf color dep = .gray) : OnCycle (needsOf edges) dep := by
  rcases h.linked with ⟨⟨walked, hneeds, -⟩, -, hrest⟩
  have hstep : Needs edges node dep := by
    show dep ∈ needsOf edges node
    rw [hneeds]
    exact List.mem_append_right walked List.mem_cons_self
  rcases List.mem_cons.mp ((h.gray dep).mp hdep) with rfl | hmem
  · exact Relation.TransGen.single hstep
  · exact (hrest.reach dep hmem).tail hstep

/-- The nodes that were not seen. -/
def whiteNodes (edges : NeedsGraph) (color : Colors) : Finset Text :=
  (nodeSet edges).filter fun node => colorOf color node = .white

/-- The work that is left: needs that are not walked, and nodes that are not finished. -/
def remainingWork (edges : NeedsGraph) (stack : List Frame) (color : Colors) : Nat :=
  ∑ node ∈ whiteNodes edges color, ((needsOf edges node).length + 1) +
    (stack.map fun frame => frame.deps.length + 1).sum

theorem whiteNodes_insert {color : Colors} {node : Text} {c : Color} (hc : c ≠ .white) :
    whiteNodes edges (color.insert node c) = (whiteNodes edges color).erase node := by
  ext other
  unfold whiteNodes
  rw [Finset.mem_erase, Finset.mem_filter, Finset.mem_filter, colorOf_insert]
  by_cases heq : other = node
  · rw [if_pos heq]
    exact iff_of_false (fun h => hc h.2) fun h => h.1 heq
  · rw [if_neg heq]
    exact ⟨fun h => ⟨heq, h⟩, fun h => h.2⟩

theorem work_finish {node : Text} {stack : List Frame} {color : Colors} :
    remainingWork edges stack (color.insert node .black) + 1 ≤
      remainingWork edges (⟨node, []⟩ :: stack) color := by
  unfold remainingWork
  rw [whiteNodes_insert Color.noConfusion, List.map_cons, List.sum_cons, List.length_nil]
  have hless := Finset.sum_le_sum_of_subset (f := fun node => (needsOf edges node).length + 1)
    (Finset.erase_subset node (whiteNodes edges color))
  omega

theorem work_pass {node dep : Text} {deps : List Text} {stack : List Frame} {color : Colors} :
    remainingWork edges (⟨node, deps⟩ :: stack) color + 1 =
      remainingWork edges (⟨node, dep :: deps⟩ :: stack) color := by
  unfold remainingWork
  rw [List.map_cons, List.sum_cons, List.map_cons, List.sum_cons, List.length_cons]
  dsimp only
  omega

theorem work_push {node dep : Text} {deps : List Text} {stack : List Frame} {color : Colors}
    (hnode : IsNode edges dep) (hdep : colorOf color dep = .white) :
    remainingWork edges (frameFor edges dep :: ⟨node, deps⟩ :: stack) (color.insert dep .gray) + 1 =
      remainingWork edges (⟨node, dep :: deps⟩ :: stack) color := by
  have hwhite : dep ∈ whiteNodes edges color :=
    Finset.mem_filter.mpr ⟨mem_nodeSet.mpr hnode, hdep⟩
  have hsum := Finset.add_sum_erase _ (fun node => (needsOf edges node).length + 1) hwhite
  unfold remainingWork
  rw [whiteNodes_insert Color.noConfusion, List.map_cons, List.sum_cons, List.map_cons,
    List.sum_cons, List.map_cons, List.sum_cons, List.length_cons]
  unfold frameFor
  dsimp only at hsum ⊢
  omega

/-- Colours are given and not taken back. -/
structure Grows (color color' : Colors) : Prop where
  known : ∀ node, (color.lookup node).isSome = true → (color'.lookup node).isSome = true
  seen : ∀ node, colorOf color node ≠ .white → colorOf color' node ≠ .white

theorem Grows.refl (color : Colors) : Grows color color := ⟨fun _ h => h, fun _ h => h⟩

theorem Grows.trans {color color' color'' : Colors} (h : Grows color color')
    (h' : Grows color' color'') : Grows color color'' :=
  ⟨fun node hnode => h'.known node (h.known node hnode),
    fun node hnode => h'.seen node (h.seen node hnode)⟩

theorem grows_insert (color : Colors) (node : Text) {c : Color} (hc : c ≠ .white) :
    Grows color (color.insert node c) where
  known other hother := by
    rw [SortedMap.lookup_insert]
    by_cases heq : node = other
    · rw [if_pos heq]
      rfl
    · rw [if_neg heq]
      exact hother
  seen other hother := by
    rw [colorOf_insert]
    by_cases heq : other = node
    · rw [if_pos heq]
      exact hc
    · rw [if_neg heq]
      exact hother

/-- A search with enough rounds finishes its stack, or finds a cycle. -/
theorem walkStack_spec (n : Nat) : ∀ (stack : List Frame) (color : Colors),
    Searching edges stack color → remainingWork edges stack color ≤ n →
      (∃ color', walkStack edges n stack color = some (.ok color') ∧ Searching edges [] color' ∧
        Grows color color') ∨
      ∃ witness, walkStack edges n stack color = some (.error witness) ∧
        OnCycle (needsOf edges) witness := by
  -- the induction is on the rounds, and every round takes one unit of the work that remains
  induction n with
  | zero =>
      intro stack color h hle
      cases stack with
      | nil => exact Or.inl ⟨color, rfl, h, Grows.refl color⟩
      | cons frame stack =>
          unfold remainingWork at hle
          rw [List.map_cons, List.sum_cons] at hle
          omega
  | succ n ih =>
      intro stack color h hle
      cases stack with
      | nil => exact Or.inl ⟨color, rfl, h, Grows.refl color⟩
      | cons frame stack =>
          rcases frame with ⟨node, deps⟩
          cases deps with
          | nil =>
              have hwork : remainingWork edges stack (color.insert node .black) + 1 ≤
                  remainingWork edges (⟨node, []⟩ :: stack) color := work_finish
              rcases ih stack _ h.finish (by omega) with ⟨color', hwalk, hend, hgrows⟩ | hcycle
              · exact Or.inl ⟨color', hwalk, hend,
                  (grows_insert color node Color.noConfusion).trans hgrows⟩
              · exact Or.inr hcycle
          | cons dep deps =>
              -- by the colour of the next need: on the stack, finished, or not seen yet
              unfold walkStack
              cases hdep : colorOf color dep with
              | gray => exact Or.inr ⟨dep, rfl, h.cycle hdep⟩
              | black =>
                  have hwork : remainingWork edges (⟨node, deps⟩ :: stack) color + 1 =
                      remainingWork edges (⟨node, dep :: deps⟩ :: stack) color := work_pass
                  exact ih _ _ (h.pass hdep) (by omega)
              | white =>
                  have hneed : dep ∈ needsOf edges node := by
                    rcases h.linked with ⟨⟨walked, hneeds, -⟩, -, -⟩
                    rw [hneeds]
                    exact List.mem_append_right walked List.mem_cons_self
                  have hwork : remainingWork edges (frameFor edges dep :: ⟨node, deps⟩ :: stack)
                      (color.insert dep .gray) + 1 =
                        remainingWork edges (⟨node, dep :: deps⟩ :: stack) color :=
                    work_push (isNode_of_need hneed) hdep
                  rcases ih _ _ (h.push hdep) (by omega) with
                    ⟨color', hwalk, hend, hgrows⟩ | hcycle
                  · exact Or.inl ⟨color', hwalk, hend,
                      (grows_insert color dep Color.noConfusion).trans hgrows⟩
                  · exact Or.inr hcycle

/-- The search starts at a root. -/
theorem Searching.start {root : Text} {color : Colors} (h : Searching edges [] color) :
    Searching edges [frameFor edges root] (color.insert root .gray) := by
  refine ⟨fun other => ?_, List.nodup_singleton root, fun other hother => ?_,
    ⟨[], rfl, fun other hother => (by cases hother)⟩, fun other hother => (by cases hother),
    trivial⟩
  · rw [colorOf_insert]
    by_cases heq : other = root
    · rw [if_pos heq, heq]
      exact iff_of_true rfl List.mem_cons_self
    · rw [if_neg heq, h.gray]
      exact iff_of_false List.not_mem_nil fun hmem => heq (List.mem_singleton.mp hmem)
  · rw [colorOf_insert] at hother
    by_cases heq : other = root
    · rw [if_pos heq] at hother
      cases hother
    · rw [if_neg heq] at hother
      exact h.black other hother

theorem work_start {root : Text} {color : Colors} (hnode : IsNode edges root)
    (hroot : colorOf color root = .white) :
    remainingWork edges [frameFor edges root] (color.insert root .gray) =
      remainingWork edges [] color := by
  have hwhite : root ∈ whiteNodes edges color :=
    Finset.mem_filter.mpr ⟨mem_nodeSet.mpr hnode, hroot⟩
  have hsum := Finset.add_sum_erase _ (fun node => (needsOf edges node).length + 1) hwhite
  unfold remainingWork frameFor
  rw [whiteNodes_insert Color.noConfusion, List.map_cons, List.sum_cons]
  dsimp only [List.map_nil, List.sum_nil] at hsum ⊢
  omega

/-- The search from some roots: each of them is seen, or a cycle is found. -/
theorem walkRoots_spec {rounds : Nat} (roots : List Text)
    (hrounds : ∀ color, remainingWork edges [] color ≤ rounds) : ∀ color : Colors,
      Searching edges [] color →
      (∀ root ∈ roots, IsNode edges root ∧ (color.lookup root).isSome = true) →
      (∃ color', walkRoots edges rounds roots color = some (.ok color') ∧
        Searching edges [] color' ∧ (∀ root ∈ roots, colorOf color' root ≠ .white) ∧
          Grows color color') ∨
      ∃ witness, walkRoots edges rounds roots color = some (.error witness) ∧
        OnCycle (needsOf edges) witness := by
  induction roots with
  | nil =>
      intro color h _
      exact Or.inl ⟨color, rfl, h, fun _ hroot => absurd hroot List.not_mem_nil, Grows.refl color⟩
  | cons root roots ih =>
      intro color h hroots
      rw [List.forall_mem_cons] at hroots
      rcases hroots with ⟨⟨hnode, hknown⟩, hroots⟩
      unfold walkRoots
      by_cases hwhite : color.lookup root = some .white
      · rw [if_neg (not_not_intro hwhite)]
        have hroot : colorOf color root = .white := by
          unfold colorOf
          rw [hwhite]
          rfl
        have hwork := (work_start hnode hroot).trans_le (hrounds color)
        rcases walkStack_spec rounds _ _ h.start hwork with
          ⟨color1, hwalk, hend, hgrows⟩ | ⟨witness, hwalk, hcycle⟩
        · rw [hwalk]
          have hgrows1 := (grows_insert color root Color.noConfusion).trans hgrows
          rcases ih color1 hend (fun other hother =>
            ⟨(hroots other hother).1, hgrows1.known other (hroots other hother).2⟩) with
            ⟨color2, hwalk2, hend2, hseen2, hgrows2⟩ | hcycle
          · refine Or.inl ⟨color2, hwalk2, hend2, List.forall_mem_cons.mpr ⟨?_, hseen2⟩,
              hgrows1.trans hgrows2⟩
            -- the root was gray when its walk began
            refine hgrows2.seen root (hgrows.seen root ?_)
            rw [colorOf_insert, if_pos rfl]
            exact Color.noConfusion
          · exact Or.inr hcycle
        · rw [hwalk]
          exact Or.inr ⟨witness, rfl, hcycle⟩
      · rw [if_pos hwhite]
        rcases ih color h hroots with ⟨color2, hwalk2, hend2, hseen2, hgrows2⟩ | hcycle
        · refine Or.inl ⟨color2, hwalk2, hend2, List.forall_mem_cons.mpr ⟨?_, hseen2⟩, hgrows2⟩
          refine hgrows2.seen root fun hroot => hwhite ?_
          rcases Option.isSome_iff_exists.mp hknown with ⟨c, hc⟩
          unfold colorOf at hroot
          rw [hc] at hroot ⊢
          exact congrArg some hroot
        · exact Or.inr hcycle

/-- All nodes are white at first, and there is no other colour. -/
theorem lookup_initialColors (node : Text) :
    (IsNode edges node → (initialColors edges).lookup node = some .white) ∧
      (¬ IsNode edges node → (initialColors edges).lookup node = none) :=
  lookup_nodes (fun _ => Color.white) rfl node

theorem mem_initialColors {node : Text} :
    node ∈ (initialColors edges).entries.map (·.1) ↔ IsNode edges node := by
  rw [mem_keys_iff]
  constructor
  · rintro ⟨c, hc⟩
    by_contra hnode
    cases hc.symm.trans ((lookup_initialColors node).2 hnode)
  · intro hnode
    exact ⟨_, (lookup_initialColors node).1 hnode⟩

/-- The rounds are enough for the nodes that are not seen. -/
theorem work_le_rounds (color : Colors) : remainingWork edges [] color ≤ walkRounds edges := by
  have hnodes : nodeSet edges = ((initialColors edges).entries.map (·.1)).toFinset := by
    ext node
    rw [List.mem_toFinset, mem_nodeSet, mem_initialColors]
  have hcard : (whiteNodes edges color).card ≤ (initialColors edges).entries.length := by
    rw [← List.length_map (f := (·.1)), ← List.toFinset_card_of_nodup (nodup_keys _), ← hnodes]
    exact Finset.card_le_card (Finset.filter_subset _ _)
  have hneeds := sum_needs_le edges (whiteNodes edges color)
  unfold remainingWork walkRounds
  rw [Finset.sum_add_distrib, Finset.sum_const, List.map_nil, List.sum_nil]
  rw [smul_eq_mul, Nat.mul_one]
  omega

/-- The search ends; it finds a node on a cycle, or there is no cycle. -/
theorem detectNeedsCycle_spec (edges : NeedsGraph) :
    (detectNeedsCycle edges = some (.ok ()) ∧ Acyclic (needsOf edges)) ∨
      ∃ witness, detectNeedsCycle edges = some (.error witness) ∧
        OnCycle (needsOf edges) witness := by
  -- no node is visited yet
  have hwhite : ∀ node, colorOf (initialColors edges) node = .white := by
    intro node
    unfold colorOf
    by_cases hnode : IsNode edges node
    · rw [(lookup_initialColors node).1 hnode]
      rfl
    · rw [(lookup_initialColors node).2 hnode]
      rfl
  have hstart : Searching edges [] (initialColors edges) := by
    refine ⟨fun node => ?_, List.nodup_nil, fun node hnode => ?_, trivial⟩
    · rw [hwhite]
      exact iff_of_false Color.noConfusion List.not_mem_nil
    · rw [hwhite] at hnode
      cases hnode
  unfold detectNeedsCycle
  rcases walkRoots_spec _ work_le_rounds (initialColors edges) hstart
    (fun root hroot => ⟨mem_initialColors.mp hroot, by
      rw [(lookup_initialColors root).1 (mem_initialColors.mp hroot)]; rfl⟩) with
    ⟨color, hwalk, hend, hseen, -⟩ | ⟨witness, hwalk, hcycle⟩
  · refine Or.inl ⟨by dsimp only; rw [hwalk]; rfl, fun node => Ends.not_onCycle ?_⟩
    -- a node of the graph is visited and not gray, so it is black
    by_cases hnode : IsNode edges node
    · have hnot := hseen node (mem_initialColors.mpr hnode)
      cases hcolor : colorOf color node with
      | white => exact absurd hcolor hnot
      | gray => cases (hend.gray node).mp hcolor
      | black => exact hend.black node hcolor
    -- what is no node has no needs
    · refine Ends.of_next fun dep hdep => ?_
      rw [needsOf_of_not_mem fun hmem => hnode (Or.inl hmem)] at hdep
      cases hdep
  · exact Or.inr ⟨witness, by dsimp only; rw [hwalk]; rfl, hcycle⟩

/-! ## All three -/

/-- The search for a cycle, the layers and the closure, for every graph of needs. -/
theorem dag_analysis (edges : NeedsGraph) (roots : List Text) :
    ((∃ outcome, detectNeedsCycle edges = some outcome) ∧
      ((∃ witness, detectNeedsCycle edges = some (.error witness)) ↔
        ∃ node, OnCycle (needsOf edges) node) ∧
      ∀ witness, detectNeedsCycle edges = some (.error witness) →
        OnCycle (needsOf edges) witness) ∧
    ((∃ outcome, topoLayers edges = some outcome) ∧
      ((∃ layers, topoLayers edges = some (some layers)) ↔ Acyclic (needsOf edges)) ∧
      ∀ layers, topoLayers edges = some (some layers) → layers.flatten.Nodup ∧
        (∀ node, node ∈ layers.flatten ↔ IsNode edges node) ∧ Earlier edges layers) ∧
    ∃ closed, dependencyClosure edges roots = some closed ∧ ∀ node, node ∈ closed ↔
      ∃ root ∈ roots, Relation.ReflTransGen (Needs edges) root node := by
  refine ⟨?_, ?_, dependencyClosure_spec edges roots⟩
  · rcases detectNeedsCycle_spec edges with ⟨hok, hacyclic⟩ | ⟨witness, herror, hcycle⟩
    · rw [hok]
      refine ⟨⟨_, rfl⟩, iff_of_false ?_ ?_, ?_⟩
      · rintro ⟨witness, h⟩
        cases h
      · rintro ⟨node, hnode⟩
        exact hacyclic node hnode
      · intro witness h
        cases h
    · rw [herror]
      refine ⟨⟨_, rfl⟩, iff_of_true ⟨witness, rfl⟩ ⟨witness, hcycle⟩, fun witness' h => ?_⟩
      cases h
      exact hcycle
  · rcases topoLayers_spec edges with ⟨layers, hlayers, hacyclic, hspec⟩ | ⟨hnone, hcyclic⟩
    · rw [hlayers]
      refine ⟨⟨_, rfl⟩, iff_of_true ⟨layers, rfl⟩ hacyclic, fun layers' h => ?_⟩
      cases h
      exact hspec
    · rw [hnone]
      refine ⟨⟨_, rfl⟩, iff_of_false ?_ hcyclic, ?_⟩
      · rintro ⟨layers, h⟩
        cases h
      · intro layers h
        cases h

end Workflow

end Preloop
