import Mathlib

/-!
# Bounded Memo Tables

Results of a partial function by argument, beside the order in which the arguments
came in. When the table is full the oldest argument leaves. The table and the order
are two structures that no type keeps together; `Coherent` says that they agree, and
`Sound` that the results are those of the function.

Adopting a result is one step. Whoever computed it did so without holding the table,
so the argument may be there already by then; the result that is there wins.

## Main definitions

* `Memo`: The table and the order of its keys.
* `Memo.adopt`: Enter a result, unless there is one.

## Theorems

* `coherent_adopt`: Table and order stay in step, and the capacity is kept.
* `sound_adopt`, `adopt_result`: No result is entered or returned but the function's.
-/

/-- Results by argument, and the arguments from the oldest to the newest. -/
structure Memo (K V : Type) where
  entries : AList fun _ : K => V
  order : List K

namespace Memo

variable {K V E : Type} [DecidableEq K]

/-- Nothing is known. -/
def empty : Memo K V := ⟨∅, []⟩

/-- Forget the oldest argument. -/
def evict (m : Memo K V) : Memo K V :=
  match m.order with
  | [] => m
  | oldest :: order => ⟨m.entries.erase oldest, order⟩

/-- Enter a new result, and make room when that is one too many. -/
def push (capacity : Nat) (m : Memo K V) (k : K) (v : V) : Memo K V :=
  let m' : Memo K V := ⟨m.entries.insert k v, m.order ++ [k]⟩
  if capacity < m'.order.length then m'.evict else m'

/-- Enter a result, unless there is one. The result that counts comes back. -/
def adopt (capacity : Nat) (m : Memo K V) (k : K) (v : V) : V × Memo K V :=
  match m.entries.lookup k with
  | some existing => (existing, m)
  | none => (v, m.push capacity k v)

/-- The order lists the keys of the table, each once, and there are not too many. -/
structure Coherent (capacity : Nat) (m : Memo K V) : Prop where
  keys : m.order.Perm m.entries.keys
  bounded : m.order.length ≤ capacity

/-- Every result is the function's. -/
def Sound (f : K → Except E V) (m : Memo K V) : Prop :=
  ∀ k v, m.entries.lookup k = some v → f k = .ok v

variable {capacity : Nat} {m : Memo K V} {k : K} {v : V} {f : K → Except E V}

omit [DecidableEq K] in
theorem Coherent.nodup (h : m.Coherent capacity) : m.order.Nodup :=
  h.keys.nodup_iff.mpr m.entries.keys_nodup

omit [DecidableEq K] in
theorem Coherent.size_le (h : m.Coherent capacity) : m.entries.keys.length ≤ capacity :=
  h.keys.length_eq ▸ h.bounded

omit [DecidableEq K] in
theorem coherent_empty : (empty : Memo K V).Coherent capacity := ⟨.refl [], Nat.zero_le capacity⟩

theorem sound_empty : (empty : Memo K V).Sound f := by
  intro k v h
  simp only [empty, AList.lookup_empty, reduceCtorEq] at h

theorem keys_evict (h : m.order.Perm m.entries.keys) : m.evict.order.Perm m.evict.entries.keys := by
  unfold evict
  cases horder : m.order with
  | nil => rwa [horder] at h ⊢
  | cons oldest order =>
      simp only [AList.keys_erase]
      rw [horder] at h
      simpa only [List.erase_cons_head] using h.erase oldest

theorem keys_push (h : m.order.Perm m.entries.keys) (hk : k ∉ m.entries) :
    (m.order ++ [k]).Perm (m.entries.insert k v).keys := by
  rw [AList.keys_insert, List.erase_of_not_mem (AList.mem_keys.not.mpr hk)]
  exact (List.perm_append_singleton k m.order).trans (h.cons k)

theorem length_evict : m.evict.order.length = m.order.length - 1 := by
  unfold evict
  cases horder : m.order with
  | nil => rw [horder]; rfl
  | cons oldest order => rfl

theorem coherent_push (h : m.Coherent capacity) (hk : k ∉ m.entries) :
    (m.push capacity k v).Coherent capacity := by
  have hkeys := @keys_push _ _ _ _ _ v h.keys hk
  have hbounded := h.bounded
  unfold push
  by_cases hfull : capacity < (m.order ++ [k]).length
  · -- The table was full: what came in first leaves as the new argument enters.
    rw [if_pos hfull]
    refine ⟨keys_evict hkeys, ?_⟩
    rw [length_evict, List.length_append, List.length_singleton]
    omega
  · rw [if_neg hfull]
    exact ⟨hkeys, Nat.le_of_not_lt hfull⟩

theorem sound_evict (h : m.Sound f) : m.evict.Sound f := by
  unfold evict
  cases m.order with
  | nil => exact h
  | cons oldest order =>
      intro j w hj
      by_cases hjo : j = oldest
      · rw [hjo, AList.lookup_erase] at hj
        cases hj
      · rw [AList.lookup_erase_ne hjo] at hj
        exact h j w hj

theorem sound_push (h : m.Sound f) (hv : f k = .ok v) : (m.push capacity k v).Sound f := by
  have hinsert : Sound f (⟨m.entries.insert k v, m.order ++ [k]⟩ : Memo K V) := by
    intro j w hj
    by_cases hjk : j = k
    · rw [hjk, AList.lookup_insert, Option.some.injEq] at hj
      rw [hjk, hv, hj]
    · rw [AList.lookup_insert_ne hjk] at hj
      exact h j w hj
  unfold push
  by_cases hfull : capacity < (m.order ++ [k]).length
  · rw [if_pos hfull]
    exact sound_evict hinsert
  · rw [if_neg hfull]
    exact hinsert

theorem coherent_adopt (h : m.Coherent capacity) : (m.adopt capacity k v).2.Coherent capacity := by
  unfold adopt
  cases hk : m.entries.lookup k with
  | some existing => exact h
  | none => exact coherent_push h (AList.lookup_eq_none.mp hk)

theorem sound_adopt (h : m.Sound f) (hv : f k = .ok v) : (m.adopt capacity k v).2.Sound f := by
  unfold adopt
  cases m.entries.lookup k with
  | some existing => exact h
  | none => exact sound_push h hv

theorem adopt_result (h : m.Sound f) (hv : f k = .ok v) : (m.adopt capacity k v).1 = v := by
  unfold adopt
  cases hk : m.entries.lookup k with
  | some existing =>
      have := h k existing hk
      rw [hv, Except.ok.injEq] at this
      exact this.symm
  | none => rfl

end Memo
