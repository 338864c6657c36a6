import Mathlib

/-!
# Keyed Tables

Relational tables with a primary key, as lists of rows in storage order whose
keys are pairwise distinct. The distinctness is a field, so no statement can
build a table in which a key names two rows, and a lookup by key determines the
row.

Everything a proof needs to know about a table after a statement is said by
lookup: `get_updateWhere`, `get_deleteWhere` and `get_insert` give the row under
a key in terms of the row that was there before. Membership and selection are
turned into lookups by `mem_rows` and `mem_select`, so that proofs about
scheduling never have to look at the list.

## Main definitions

* `Table`: Rows in storage order with distinct keys.
* `Table.get`: The row under a key.
* `Table.insert`, `Table.updateWhere`, `Table.deleteWhere`: The three ways a
  statement changes a table.
* `Table.select`, `Table.selectBy`: The rows satisfying a condition, in storage
  order or sorted by a column.

## Theorems

* `mem_rows`: A row is stored exactly if its key leads to it.
* `get_updateWhere`, `get_deleteWhere`, `get_insert`: Lookup after a statement.
* `mem_select`, `mem_selectBy`: Selection by lookup.
* `getLast?_selectBy`: The last row of a sorted selection.
-/

namespace Txn

/-- Rows in storage order, no two with the same key. -/
structure Table {κ ρ : Type} (key : ρ → κ) where
  rows : List ρ
  nodup : (rows.map key).Nodup

namespace Table

variable {κ ρ : Type} [DecidableEq κ] {key : ρ → κ}

/-- The table without rows. -/
def empty : Table key := ⟨[], List.nodup_nil⟩

/-- The row stored under a key. -/
def get (t : Table key) (k : κ) : Option ρ := t.rows.find? fun r => key r = k

/-- The rows satisfying a condition, in storage order. -/
def select (t : Table key) (p : ρ → Bool) : List ρ := t.rows.filter p

/-- The rows satisfying a condition, sorted by a numeric column; rows that tie
    keep their storage order. -/
def selectBy (t : Table key) (p : ρ → Bool) (col : ρ → Nat) : List ρ :=
  (t.select p).insertionSort fun a b => col a ≤ col b

/-- Some row satisfies the condition. -/
def exists? (t : Table key) (p : ρ → Bool) : Bool := t.rows.any p

/-- Rewrite the rows satisfying a condition; the rewrite keeps the key. -/
def updateWhere (t : Table key) (p : ρ → Bool) (f : ρ → ρ) (hf : ∀ r, key (f r) = key r) :
    Table key where
  rows := t.rows.map fun r => if p r then f r else r
  nodup := by
    rw [List.map_map]
    have hkey : (key ∘ fun r => if p r then f r else r) = key := by
      funext r
      simp only [Function.comp_apply]
      split
      · exact hf r
      · rfl
    rw [hkey]
    exact t.nodup

/-- Drop the rows satisfying a condition. -/
def deleteWhere (t : Table key) (p : ρ → Bool) : Table key where
  rows := t.rows.filter fun r => !p r
  nodup := t.nodup.sublist (List.filter_sublist.map key)

/-- Append a row under a fresh key. -/
def insert (t : Table key) (r : ρ) (h : t.get (key r) = none) : Table key where
  rows := t.rows ++ [r]
  nodup := by
    rw [List.map_append, List.nodup_append]
    refine ⟨t.nodup, by simp only [List.map_cons, List.map_nil, List.nodup_singleton], ?_⟩
    intro a ha b hb hab
    simp only [List.map_cons, List.map_nil, List.mem_singleton] at hb
    obtain ⟨x, hx, rfl⟩ := List.mem_map.mp ha
    have hnone := List.find?_eq_none.mp h x hx
    exact hnone (by simp only [hab, hb, decide_true])

/-- Append a row, or refuse it when its key is taken. -/
def insert? (t : Table key) (r : ρ) : Option (Table key) :=
  if h : t.get (key r) = none then some (t.insert r h) else none

theorem mem_rows {t : Table key} {r : ρ} : r ∈ t.rows ↔ t.get (key r) = some r := by
  constructor
  · intro hr
    cases hg : t.get (key r) with
    | none => exact absurd (List.find?_eq_none.mp hg r hr) (by simp only [decide_true,
        not_true_eq_false, not_false_eq_true])
    | some r' =>
        have hmem : r' ∈ t.rows := List.mem_of_find?_eq_some hg
        have hkey : key r' = key r := by simpa only [decide_eq_true_eq] using List.find?_some hg
        rw [List.inj_on_of_nodup_map t.nodup hmem hr hkey]
  · intro h
    exact List.mem_of_find?_eq_some h

theorem key_of_get {t : Table key} {k : κ} {r : ρ} (h : t.get k = some r) : key r = k := by
  have := List.find?_some h
  simpa only [decide_eq_true_eq] using this

theorem mem_of_get {t : Table key} {k : κ} {r : ρ} (h : t.get k = some r) : r ∈ t.rows :=
  List.mem_of_find?_eq_some h

theorem get_eq_none {t : Table key} {k : κ} : t.get k = none ↔ ∀ r ∈ t.rows, key r ≠ k := by
  simp only [get, List.find?_eq_none, decide_eq_true_eq, ne_eq]

/-- Lookup is determined by what is stored. -/
theorem get_eq_some {t : Table key} {k : κ} {r : ρ} :
    t.get k = some r ↔ r ∈ t.rows ∧ key r = k := by
  constructor
  · exact fun h => ⟨mem_of_get h, key_of_get h⟩
  · rintro ⟨hr, rfl⟩
    exact mem_rows.mp hr

@[simp] theorem get_empty (k : κ) : (empty : Table key).get k = none := rfl

theorem get_updateWhere (t : Table key) (p : ρ → Bool) (f : ρ → ρ)
    (hf : ∀ r, key (f r) = key r) (k : κ) :
    (t.updateWhere p f hf).get k = (t.get k).map fun r => if p r then f r else r := by
  have hkey : ∀ r, key (if p r then f r else r) = key r := by
    intro r
    split
    · exact hf r
    · rfl
  have hfun : (fun r => decide (key r = k)) ∘ (fun r => if p r then f r else r) =
      fun r => decide (key r = k) := by
    funext r
    simp only [Function.comp_apply, hkey]
  simp only [get, updateWhere, List.find?_map, hfun]

/-- A statement that matches no row changes nothing. -/
theorem updateWhere_of_none (t : Table key) (p : ρ → Bool) (f : ρ → ρ)
    (hf : ∀ r, key (f r) = key r) (h : ∀ k r, t.get k = some r → p r = false) :
    t.updateWhere p f hf = t := by
  have hrows : (t.rows.map fun r => if p r then f r else r) = t.rows := by
    rw [List.map_congr_left (g := id), List.map_id]
    intro r hr
    rw [h (key r) r (mem_rows.mp hr)]
    rfl
  cases t
  simp only [updateWhere, hrows]

theorem get_deleteWhere (t : Table key) (p : ρ → Bool) (k : κ) :
    (t.deleteWhere p).get k = (t.get k).filter fun r => !p r := by
  cases hg : t.get k with
  | none =>
      rw [Option.filter_none, get_eq_none]
      intro r hr
      exact get_eq_none.mp hg r (List.mem_of_mem_filter hr)
  | some r =>
      obtain ⟨hr, hk⟩ := get_eq_some.mp hg
      by_cases hp : p r
      · rw [Option.filter_some, if_neg (by simp only [hp, Bool.not_true, Bool.false_eq_true,
          not_false_eq_true]), get_eq_none]
        intro r' hr' hk'
        have hr'' : r' ∈ t.rows := List.mem_of_mem_filter hr'
        have heq : r' = r := by
          have h1 := get_eq_some.mpr ⟨hr'', hk'⟩
          rw [hg, Option.some.injEq] at h1
          exact h1.symm
        have := List.of_mem_filter hr'
        rw [heq, hp] at this
        exact absurd this (by decide)
      · rw [Option.filter_some, if_pos (by simp only [hp, Bool.not_false]), get_eq_some]
        exact ⟨List.mem_filter.mpr ⟨hr, by simp only [hp, Bool.not_false]⟩, hk⟩

theorem get_insert (t : Table key) (r : ρ) (h : t.get (key r) = none) (k : κ) :
    (t.insert r h).get k = if key r = k then some r else t.get k := by
  simp only [get, insert, List.find?_append, List.find?_cons, List.find?_nil]
  by_cases hk : key r = k
  · subst hk
    have hnone : t.rows.find? (fun x => decide (key x = key r)) = none := h
    simp only [hnone, decide_true, Option.none_or, if_true]
  · simp only [hk, decide_false, if_false, Option.or_none]

/-- An accepted insertion: the key was free, and lookup sees the new row. -/
theorem insert?_eq_some {t t' : Table key} {r : ρ} (h : t.insert? r = some t') :
    t.get (key r) = none ∧ ∀ k, t'.get k = if key r = k then some r else t.get k := by
  simp only [insert?] at h
  split at h
  · next hfree =>
      rw [Option.some.injEq] at h
      subst h
      exact ⟨hfree, get_insert t r hfree⟩
  · cases h

theorem mem_select {t : Table key} {p : ρ → Bool} {r : ρ} :
    r ∈ t.select p ↔ t.get (key r) = some r ∧ p r = true := by
  rw [select, List.mem_filter, mem_rows]

theorem mem_selectBy {t : Table key} {p : ρ → Bool} {col : ρ → Nat} {r : ρ} :
    r ∈ t.selectBy p col ↔ t.get (key r) = some r ∧ p r = true := by
  rw [selectBy, List.mem_insertionSort, mem_select]

theorem exists?_iff {t : Table key} {p : ρ → Bool} :
    t.exists? p = true ↔ ∃ k r, t.get k = some r ∧ p r = true := by
  rw [exists?, List.any_eq_true]
  constructor
  · rintro ⟨r, hr, hp⟩
    exact ⟨key r, r, mem_rows.mp hr, hp⟩
  · rintro ⟨k, r, hg, hp⟩
    exact ⟨r, mem_of_get hg, hp⟩

/-- The last row of a selection by a column is one with the greatest number there. -/
theorem getLast?_selectBy {t : Table key} {p : ρ → Bool} {col : ρ → Nat} {r : ρ}
    (h : (t.selectBy p col).getLast? = some r) :
    (t.get (key r) = some r ∧ p r = true) ∧
      ∀ r', t.get (key r') = some r' → p r' = true → col r' ≤ col r := by
  refine ⟨mem_selectBy.mp (List.mem_of_getLast? h), fun r' hr' hp' => ?_⟩
  have hmem : r' ∈ t.selectBy p col := mem_selectBy.mpr ⟨hr', hp'⟩
  have hsorted : (t.selectBy p col).Pairwise fun a b => col a ≤ col b :=
    List.pairwise_insertionSort _ _
  rcases List.getLast?_eq_some_iff.mp h with ⟨rows, hrows⟩
  rw [hrows] at hmem hsorted
  rcases List.mem_append.mp hmem with hbefore | hlast
  · exact (List.pairwise_append.mp hsorted).2.2 r' hbefore r (List.mem_singleton_self r)
  · rw [List.mem_singleton.mp hlast]

end Table

end Txn
