import Mathlib

/-!
# Sorted Maps

A map whose entries are listed in the order of their keys, as a `BTreeMap` iterates over
them. Two maps with the same lookups are the same list, so that what is built entry by
entry can be compared lookup by lookup.

## Main definitions

* `SortedMap`: Entries with increasing keys.
* `SortedMap.insert`, `SortedMap.ofList`: Adding and replacing entries.
* `SortedMap.mapValues`: Other values under the same keys.
* `SortedMap.filter`, `SortedMap.erase`, `SortedMap.drop`: Fewer entries.
* `SortedMap.filterMap`: Some of the entries, with other values.
* `SortedMap.sum`: A number for every entry, added up.

## Theorems

* `SortedMap.lookup_insert`: What is found after an entry was added.
* `SortedMap.lookup_filter`, `SortedMap.lookup_erase`: What is found among fewer entries.
* `SortedMap.ext_lookup`: Maps are their lookups.
* `SortedMap.ofList_entries`: A map is rebuilt from its entries.
* `SortedMap.sum_of_lookup`, `SortedMap.sum_insert`: A sum and one of its summands.
-/

/-- Entries with increasing keys. -/
@[ext]
structure SortedMap (K V : Type) [LinearOrder K] where
  entries : List (K × V)
  sorted : entries.Pairwise fun a b => a.1 < b.1

namespace SortedMap

variable {K V W : Type} [LinearOrder K]

instance [DecidableEq V] : DecidableEq (SortedMap K V) := fun m m' =>
  decidable_of_iff (m.entries = m'.entries) SortedMap.ext_iff.symm

/-! ## Entries -/

/-- An entry in its place, the one under the same key replaced. -/
def insertEntry (k : K) (v : V) : List (K × V) → List (K × V)
  | [] => [(k, v)]
  | e :: es =>
    if k < e.1 then (k, v) :: e :: es
    else if k = e.1 then (k, v) :: es
    else e :: insertEntry k v es

theorem mem_insertEntry {k : K} {v : V} {e : K × V} {es : List (K × V)}
    (h : e ∈ insertEntry k v es) : e = (k, v) ∨ e ∈ es := by
  induction es with
  | nil => exact .inl (List.mem_singleton.mp h)
  | cons d es ih =>
      unfold insertEntry at h
      split at h
      · exact List.mem_cons.mp h
      · split at h
        · rcases List.mem_cons.mp h with h | h
          · exact .inl h
          · exact .inr (List.mem_cons_of_mem d h)
        · rcases List.mem_cons.mp h with rfl | h
          · exact .inr List.mem_cons_self
          · rcases ih h with h | h
            · exact .inl h
            · exact .inr (List.mem_cons_of_mem d h)

theorem sorted_insertEntry (k : K) (v : V) {es : List (K × V)}
    (h : es.Pairwise fun a b => a.1 < b.1) :
    (insertEntry k v es).Pairwise fun a b => a.1 < b.1 := by
  induction es with
  | nil => exact List.pairwise_singleton _ _
  | cons d es ih =>
      obtain ⟨hd, hes⟩ := List.pairwise_cons.mp h
      unfold insertEntry
      by_cases hlt : k < d.1
      · rw [if_pos hlt]
        refine List.pairwise_cons.mpr ⟨fun e he => ?_, h⟩
        rcases List.mem_cons.mp he with rfl | he
        · exact hlt
        · exact hlt.trans (hd e he)
      · by_cases heq : k = d.1
        · rw [if_neg hlt, if_pos heq]
          exact List.pairwise_cons.mpr ⟨fun e he => heq ▸ hd e he, hes⟩
        · rw [if_neg hlt, if_neg heq]
          refine List.pairwise_cons.mpr ⟨fun e he => ?_, ih hes⟩
          rcases mem_insertEntry he with rfl | he
          · exact lt_of_le_of_ne (not_lt.mp hlt) (Ne.symm heq)
          · exact hd e he

/-! ## Maps -/

instance : EmptyCollection (SortedMap K V) := ⟨⟨[], .nil⟩⟩

/-- The entry under `k` added or replaced. -/
def insert (m : SortedMap K V) (k : K) (v : V) : SortedMap K V :=
  ⟨insertEntry k v m.entries, sorted_insertEntry k v m.sorted⟩

/-- The value under `k`. -/
def lookup (m : SortedMap K V) (k : K) : Option V := (m.entries.find? fun e => e.1 = k).map (·.2)

/-- The entries of a list, the last one under a key winning. -/
def ofList (es : List (K × V)) : SortedMap K V := es.foldl (fun m e => m.insert e.1 e.2) ∅

/-- Other values under the same keys. -/
def mapValues (f : V → W) (m : SortedMap K V) : SortedMap K W :=
  ⟨m.entries.map fun e => (e.1, f e.2), List.pairwise_map.mpr m.sorted⟩

/-- The entries a test keeps. -/
def filter (p : K → V → Bool) (m : SortedMap K V) : SortedMap K V :=
  ⟨m.entries.filter fun e => p e.1 e.2, m.sorted.sublist List.filter_sublist⟩

/-- Without the entry under `k`. -/
def erase (m : SortedMap K V) (k : K) : SortedMap K V := m.filter fun j _ => j ≠ k

/-- Without its first `n` entries. -/
def drop (n : Nat) (m : SortedMap K V) : SortedMap K V :=
  ⟨m.entries.drop n, m.sorted.sublist (List.drop_sublist n m.entries)⟩

@[simp] theorem lookup_empty (k : K) : (∅ : SortedMap K V).lookup k = none := rfl

theorem find?_insertEntry (k : K) (v : V) (es : List (K × V)) (j : K) :
    ((insertEntry k v es).find? fun e => e.1 = j).map (·.2) =
      if k = j then some v else (es.find? fun e => e.1 = j).map (·.2) := by
  induction es with
  | nil =>
      unfold insertEntry
      by_cases hj : k = j
      · simp [hj]
      · simp [hj]
  | cons d es ih =>
      unfold insertEntry
      by_cases hlt : k < d.1
      · rw [if_pos hlt, List.find?_cons]
        by_cases hj : k = j
        · simp [hj]
        · simp [hj]
      · by_cases heq : k = d.1
        · rw [if_neg hlt, if_pos heq, List.find?_cons, List.find?_cons]
          by_cases hj : k = j
          · simp [hj]
          · have hd : ¬ d.1 = j := fun h => hj (heq.trans h)
            simp [hj, hd]
        · rw [if_neg hlt, if_neg heq, List.find?_cons, List.find?_cons]
          by_cases hd : d.1 = j
          · have hj : ¬ k = j := fun h => heq (h.trans hd.symm)
            simp [hd, hj]
          · simpa [hd] using ih

@[simp] theorem lookup_insert (m : SortedMap K V) (k : K) (v : V) (j : K) :
    (m.insert k v).lookup j = if k = j then some v else m.lookup j :=
  find?_insertEntry k v m.entries j

@[simp] theorem lookup_mapValues (f : V → W) (m : SortedMap K V) (k : K) :
    (m.mapValues f).lookup k = (m.lookup k).map f := by
  unfold lookup mapValues
  rw [List.find?_map, Option.map_map, Option.map_map]
  rfl

theorem mem_of_lookup {m : SortedMap K V} {k : K} {v : V} (h : m.lookup k = some v) :
    (k, v) ∈ m.entries := by
  obtain ⟨e, he, rfl⟩ := Option.map_eq_some_iff.mp h
  have hkey : e.1 = k := by simpa using List.find?_some he
  exact hkey ▸ List.mem_of_find?_eq_some he

theorem find?_of_mem {e : K × V} {es : List (K × V)} (h : es.Pairwise fun a b => a.1 < b.1)
    (he : e ∈ es) : (es.find? fun d => d.1 = e.1) = some e := by
  induction es with
  | nil => exact absurd he List.not_mem_nil
  | cons d es ih =>
      obtain ⟨hd, hes⟩ := List.pairwise_cons.mp h
      rcases List.mem_cons.mp he with rfl | he
      · exact List.find?_cons_of_pos (by simp)
      · rw [List.find?_cons_of_neg (by simpa using (hd e he).ne), ih hes he]

/-- An entry is found under its key. -/
theorem lookup_of_mem {m : SortedMap K V} {k : K} {v : V} (h : (k, v) ∈ m.entries) :
    m.lookup k = some v := by
  have := find?_of_mem m.sorted h
  simp only [lookup, this, Option.map_some]

theorem find?_filterMap (p : K → V → Option W) (k : K) {es : List (K × V)}
    (h : es.Pairwise fun a b => a.1 < b.1) :
    ((es.filterMap fun e => (p e.1 e.2).map fun w => (e.1, w)).find? fun e => e.1 = k).map (·.2) =
      ((es.find? fun e => e.1 = k).map (·.2)).bind (p k) := by
  induction es with
  | nil => rfl
  | cons d es ih =>
      obtain ⟨hd, hes⟩ := List.pairwise_cons.mp h
      by_cases hk : d.1 = k
      · subst hk
        rw [List.find?_cons_of_pos (l := es) (by simp), Option.map_some, Option.bind_some,
          List.filterMap_cons]
        cases hp : p d.1 d.2 with
        | some w => simp
        | none =>
            -- no later entry has the key, so that nothing is found
            have hnone : ((es.filterMap fun e => (p e.1 e.2).map fun w => (e.1, w)).find?
                fun e => e.1 = d.1) = none := by
              refine List.find?_eq_none.mpr fun e he => ?_
              rcases List.mem_filterMap.mp he with ⟨e', he', hmap⟩
              rcases Option.map_eq_some_iff.mp hmap with ⟨_, _, rfl⟩
              simpa using (hd e' he').ne'
            rw [Option.map_none]
            exact congrArg (Option.map _) hnone
      · rw [List.find?_cons_of_neg (l := es) (by simpa using hk), ← ih hes, List.filterMap_cons]
        cases hp : p d.1 d.2 with
        | none => rfl
        | some w =>
            rw [Option.map_some]
            exact congrArg (Option.map _) (List.find?_cons_of_neg (by simpa using hk))

theorem find?_filter (p : K → V → Bool) (k : K) {es : List (K × V)}
    (h : es.Pairwise fun a b => a.1 < b.1) :
    ((es.filter fun e => p e.1 e.2).find? fun e => e.1 = k).map (·.2) =
      ((es.find? fun e => e.1 = k).map (·.2)).filter (p k) := by
  -- an entry is filtered as one that is mapped to itself or to nothing
  have hfilter : (es.filter fun e => p e.1 e.2) = es.filterMap fun e =>
      (if p e.1 e.2 then some e.2 else none).map fun w => (e.1, w) := by
    rw [← List.filterMap_eq_filter]
    refine List.filterMap_congr fun e _ => ?_
    cases hp : p e.1 e.2 <;> simp [Option.guard, hp]
  rw [hfilter, find?_filterMap (fun k v => if p k v then some v else none) k h]
  cases (es.find? fun e => e.1 = k).map (·.2) with
  | none => rfl
  | some v => rw [Option.bind_some, Option.filter_some]

@[simp] theorem lookup_filter (p : K → V → Bool) (m : SortedMap K V) (k : K) :
    (m.filter p).lookup k = (m.lookup k).filter (p k) := find?_filter p k m.sorted

@[simp] theorem lookup_erase (m : SortedMap K V) (k j : K) :
    (m.erase k).lookup j = if k = j then none else m.lookup j := by
  rw [erase, lookup_filter]
  by_cases hj : k = j
  · rw [if_pos hj]
    exact Option.filter_eq_none_iff.mpr fun v _ => by simp [hj]
  · rw [if_neg hj]
    cases m.lookup j with
    | none => rfl
    | some v => rw [Option.filter_some, if_pos (by simpa using Ne.symm hj)]

/-- A key below all others is not found. -/
theorem find?_of_lt {k : K} {es : List (K × V)} (h : ∀ e ∈ es, k < e.1) :
    (es.find? fun e => e.1 = k) = none :=
  List.find?_eq_none.mpr fun e he => by simpa using (h e he).ne'

theorem eq_of_find? {es : List (K × V)} (h : es.Pairwise fun a b => a.1 < b.1) :
    ∀ {es' : List (K × V)}, es'.Pairwise (fun a b => a.1 < b.1) →
      (∀ k, (es.find? fun e => e.1 = k).map (·.2) = (es'.find? fun e => e.1 = k).map (·.2)) →
      es = es' := by
  induction es with
  | nil =>
      intro es' _ hfind
      cases es' with
      | nil => rfl
      | cons e es' =>
          have := hfind e.1
          simp at this
  | cons d es ih =>
      intro es' h' hfind
      obtain ⟨hd, hes⟩ := List.pairwise_cons.mp h
      cases es' with
      | nil =>
          have := hfind d.1
          simp at this
      | cons e es' =>
          obtain ⟨he, hes'⟩ := List.pairwise_cons.mp h'
          -- the least key is the same, since the lookups at the two of them agree
          have hkey : d.1 = e.1 := by
            rcases lt_trichotomy d.1 e.1 with hlt | heq | hlt
            · have hnone : ((e :: es').find? fun x => x.1 = d.1) = none :=
                find?_of_lt fun x hx => by
                rcases List.mem_cons.mp hx with rfl | hx
                · exact hlt
                · exact hlt.trans (he x hx)
              have := hfind d.1
              rw [hnone] at this
              simp at this
            · exact heq
            · have hnone : ((d :: es).find? fun x => x.1 = e.1) = none := find?_of_lt fun x hx => by
                rcases List.mem_cons.mp hx with rfl | hx
                · exact hlt
                · exact hlt.trans (hd x hx)
              have := hfind e.1
              rw [hnone] at this
              simp at this
          have hvalue : d.2 = e.2 := by
            have := hfind d.1
            rw [List.find?_cons, List.find?_cons] at this
            simpa [hkey] using this
          have hrest : es = es' := by
            refine ih hes hes' fun k => ?_
            by_cases hk : k = d.1
            · subst hk
              rw [find?_of_lt hd, find?_of_lt (hkey ▸ he)]
            · have := hfind k
              rw [List.find?_cons, List.find?_cons] at this
              simpa [Ne.symm hk, hkey ▸ Ne.symm hk] using this
          rw [hrest, Prod.ext hkey hvalue]

/-- An entry behind all others is the last one. -/
theorem entries_insert_last {m : SortedMap K V} {k : K} {v : V} (h : ∀ e ∈ m.entries, e.1 < k) :
    (m.insert k v).entries = m.entries ++ [(k, v)] := by
  have hlast : ∀ es : List (K × V), (∀ e ∈ es, e.1 < k) → insertEntry k v es = es ++ [(k, v)] := by
    intro es
    induction es with
    | nil => exact fun _ => rfl
    | cons d es ih =>
        intro hes
        have hd : d.1 < k := hes d List.mem_cons_self
        unfold insertEntry
        rw [if_neg hd.not_gt, if_neg hd.ne', ih fun e he => hes e (List.mem_cons_of_mem d he),
          List.cons_append]
  exact hlast m.entries h

/-- No key is greater than the last one. -/
theorem le_of_getLast? {m : SortedMap K V} {last : K × V} (h : m.entries.getLast? = some last) :
    ∀ e ∈ m.entries, e.1 ≤ last.1 := by
  rcases List.getLast?_eq_some_iff.mp h with ⟨es, hes⟩
  intro e he
  have hsorted := m.sorted
  rw [hes] at he hsorted
  rcases List.mem_append.mp he with he | he
  · exact ((List.pairwise_append.mp hsorted).2.2 e he last (List.mem_singleton_self last)).le
  · rw [List.mem_singleton.mp he]

/-- Maps are their lookups. -/
theorem ext_lookup {m m' : SortedMap K V} (h : ∀ k, m.lookup k = m'.lookup k) : m = m' :=
  SortedMap.ext (eq_of_find? m.sorted m'.sorted h)

theorem insert_of_lookup {m : SortedMap K V} {k : K} {v : V} (h : m.lookup k = some v) :
    m.insert k v = m := by
  apply ext_lookup
  intro j
  rw [lookup_insert]
  by_cases hj : k = j
  · rw [if_pos hj, ← hj, h]
  · rw [if_neg hj]

theorem mapValues_insert (f : V → W) (m : SortedMap K V) (k : K) (v : V) :
    (m.insert k v).mapValues f = (m.mapValues f).insert k (f v) := by
  apply ext_lookup
  intro j
  rw [lookup_mapValues, lookup_insert, lookup_insert, lookup_mapValues]
  by_cases hj : k = j
  · rw [if_pos hj, if_pos hj]
    rfl
  · rw [if_neg hj, if_neg hj]

theorem lookup_foldl_insert (es : List (K × V)) (h : es.Pairwise fun a b => a.1 < b.1) (k : K) :
    ∀ m : SortedMap K V, (es.foldl (fun m e => m.insert e.1 e.2) m).lookup k =
      ((es.find? fun e => e.1 = k).map (·.2)).or (m.lookup k) := by
  induction es with
  | nil => exact fun m => rfl
  | cons d es ih =>
      intro m
      obtain ⟨hd, hes⟩ := List.pairwise_cons.mp h
      rw [List.foldl_cons, ih hes, lookup_insert, List.find?_cons]
      by_cases hk : d.1 = k
      · subst hk
        rw [find?_of_lt hd]
        simp
      · simp [hk]

/-- A map is rebuilt from its entries. -/
theorem ofList_entries (m : SortedMap K V) : ofList m.entries = m := by
  apply ext_lookup
  intro k
  rw [ofList, lookup_foldl_insert m.entries m.sorted]
  exact Option.or_none

/-! ## Sums -/

/-- The values that are kept, under their keys. -/
def filterMap (p : K → V → Option W) (m : SortedMap K V) : SortedMap K W where
  entries := m.entries.filterMap fun e => (p e.1 e.2).map fun w => (e.1, w)
  sorted := by
    refine List.Pairwise.filterMap _ (fun a b hab a' ha' b' hb' => ?_) m.sorted
    rcases Option.map_eq_some_iff.mp ha' with ⟨_, _, rfl⟩
    rcases Option.map_eq_some_iff.mp hb' with ⟨_, _, rfl⟩
    exact hab

@[simp] theorem lookup_filterMap (p : K → V → Option W) (m : SortedMap K V) (k : K) :
    (m.filterMap p).lookup k = (m.lookup k).bind (p k) := find?_filterMap p k m.sorted

/-- A number for every entry, added up. -/
def sum (m : SortedMap K V) (f : K → V → Nat) : Nat := (m.entries.map fun e => f e.1 e.2).sum

@[simp] theorem sum_empty (f : K → V → Nat) : (∅ : SortedMap K V).sum f = 0 := rfl

theorem sum_filterMap (p : K → V → Option W) (m : SortedMap K V) (f : K → W → Nat) :
    (m.filterMap p).sum f = m.sum fun k v => (p k v).elim 0 (f k) := by
  have hlist : ∀ es : List (K × V),
      ((es.filterMap fun e => (p e.1 e.2).map fun w => (e.1, w)).map fun e => f e.1 e.2).sum =
        (es.map fun e => (p e.1 e.2).elim 0 (f e.1)).sum := by
    intro es
    induction es with
    | nil => rfl
    | cons d es ih =>
        rw [List.filterMap_cons, List.map_cons, List.sum_cons, ← ih]
        cases hp : p d.1 d.2 with
        | none => simp
        | some w => simp
  exact hlist m.entries

/-- One summand taken out. -/
theorem sum_of_lookup {m : SortedMap K V} {k : K} {v : V} (h : m.lookup k = some v)
    (f : K → V → Nat) : m.sum f = f k v + (m.erase k).sum f := by
  have hlist : ∀ es : List (K × V), es.Pairwise (fun a b => a.1 < b.1) → (k, v) ∈ es →
      (es.map fun e => f e.1 e.2).sum =
        f k v + ((es.filter fun e => decide (e.1 ≠ k)).map fun e => f e.1 e.2).sum := by
    intro es
    induction es with
    | nil => exact fun _ hmem => absurd hmem List.not_mem_nil
    | cons d es ih =>
        intro hsorted hmem
        obtain ⟨hd, hes⟩ := List.pairwise_cons.mp hsorted
        rw [List.map_cons, List.sum_cons, List.filter_cons]
        rcases List.mem_cons.mp hmem with rfl | hmem
        · -- no later entry has the key
          have hall : (es.filter fun e => decide (e.1 ≠ k)) = es :=
            List.filter_eq_self.mpr fun e he => by simpa using (hd e he).ne'
          rw [hall, if_neg (by simp)]
        · have hne : d.1 ≠ k := (hd _ hmem).ne
          rw [if_pos (by simpa using hne), List.map_cons, List.sum_cons, ih hes hmem]
          omega
  exact hlist m.entries m.sorted (mem_of_lookup h)

theorem erase_insert (m : SortedMap K V) (k : K) (v : V) : (m.insert k v).erase k = m.erase k := by
  apply ext_lookup
  intro j
  rw [lookup_erase, lookup_erase, lookup_insert]
  by_cases hj : k = j
  · rw [if_pos hj, if_pos hj]
  · rw [if_neg hj, if_neg hj, if_neg hj]

theorem erase_of_lookup {m : SortedMap K V} {k : K} (h : m.lookup k = none) : m.erase k = m := by
  apply ext_lookup
  intro j
  rw [lookup_erase]
  by_cases hj : k = j
  · rw [if_pos hj, ← hj, h]
  · rw [if_neg hj]

/-- The summand under a key, and the others. -/
theorem sum_insert (m : SortedMap K V) (k : K) (v : V) (f : K → V → Nat) :
    (m.insert k v).sum f = f k v + (m.erase k).sum f := by
  rw [sum_of_lookup (v := v) (by rw [lookup_insert, if_pos rfl]) f, erase_insert]

end SortedMap
