import Mathlib

/-!
# Joining Writes

A slot that is empty at first, and writes that join what they bring to what the slot holds.
Only a key of what is held has to be joined, in a semilattice, and the writes may be
restricted to valid elements. Then the key that a list of writes leaves is the join of the
keys written, so that neither their order nor their repetition matters and no write takes
the key back.

## Main definitions

* `writeAll`: A list of writes into a slot.
* `Joins`: A write that joins keys.

## Theorems

* `Joins.le_iff`: What bounds the key that is left.
* `Joins.isLUB`, `Joins.isGreatest`: The key that is left is the join of the keys written.
* `Joins.key_congr`: It depends only on which elements were written.
-/

namespace JoinStore

variable {E L : Type}

/-- A list of writes into a slot that may hold an element already. -/
def writeAll (write : E → Option E → E) (slot : Option E) (es : List E) : Option E :=
  es.foldl (fun slot e => some (write e slot)) slot

/-- Where something is written, or was, there is something. -/
theorem exists_writeAll (write : E → Option E → E) {slot : Option E} {es : List E}
    (h : slot.toList ++ es ≠ []) : ∃ final, writeAll write slot es = some final := by
  induction es generalizing slot with
  | nil =>
      cases slot with
      | none => exact absurd rfl h
      | some e => exact ⟨e, rfl⟩
  | cons e es ih => exact ih (List.cons_ne_nil _ _)

/-- A write of valid elements that joins their keys. -/
structure Joins [SemilatticeSup L] (write : E → Option E → E) (valid : E → Prop)
    (key : E → L) : Prop where
  first : ∀ e, write e none = e
  keeps : ∀ e old, valid e → valid old → valid (write e (some old))
  join : ∀ e old, valid e → valid old → key (write e (some old)) = key old ⊔ key e

namespace Joins

variable {write : E → Option E → E} {valid : E → Prop} {slot : Option E} {es : List E} {final : E}

section Semilattice

variable [SemilatticeSup L] {key : E → L}

/-- What is left is valid, and its key lies below what all the keys written lie below. -/
theorem le_iff (hw : Joins write valid key) (hvalid : ∀ e ∈ slot.toList ++ es, valid e)
    (h : writeAll write slot es = some final) :
    valid final ∧ ∀ u, key final ≤ u ↔ ∀ e ∈ slot.toList ++ es, key e ≤ u := by
  induction es generalizing slot with
  | nil =>
      have hslot : slot = some final := h
      subst hslot
      exact ⟨hvalid final (by simp), fun u => by simp⟩
  | cons e es ih =>
      cases slot with
      | none =>
          -- the first write fills the slot
          have hfirst : writeAll write (some e) es = some final := by
            rw [← h, ← hw.first e]
            simp [writeAll, hw.first]
          exact ih hvalid hfirst
      | some old =>
          have hold : valid old := hvalid old (by simp)
          have he : valid e := hvalid e (by simp)
          have hkept : ∀ d ∈ (some (write e (some old))).toList ++ es, valid d := by
            intro d hd
            rcases List.mem_cons.mp hd with rfl | hd
            · exact hw.keeps e old he hold
            · exact hvalid d (List.mem_cons_of_mem old (List.mem_cons_of_mem e hd))
          rcases ih hkept h with ⟨hfinal, hle⟩
          refine ⟨hfinal, fun u => ?_⟩
          rw [hle u]
          -- a bound of a join is a bound of both
          simp only [Option.toList_some, List.cons_append, List.nil_append, List.forall_mem_cons,
            hw.join e old he hold, sup_le_iff, and_assoc]

theorem isLUB (hw : Joins write valid key) (hvalid : ∀ e ∈ slot.toList ++ es, valid e)
    (h : writeAll write slot es = some final) :
    IsLUB (key '' {e | e ∈ slot.toList ++ es}) (key final) := by
  rw [isLUB_iff_le_iff]
  intro u
  rw [(hw.le_iff hvalid h).2 u]
  constructor
  · rintro hle l ⟨e, he, rfl⟩
    exact hle e he
  · intro hle e he
    exact hle ⟨e, he, rfl⟩

/-- The key depends only on which elements were written. -/
theorem key_congr (hw : Joins write valid key) {slot' : Option E} {es' : List E} {final' : E}
    (hvalid : ∀ e ∈ slot.toList ++ es, valid e)
    (hsame : ∀ e, e ∈ slot'.toList ++ es' ↔ e ∈ slot.toList ++ es)
    (h : writeAll write slot es = some final) (h' : writeAll write slot' es' = some final') :
    key final' = key final := by
  have hvalid' : ∀ e ∈ slot'.toList ++ es', valid e := fun e he => hvalid e ((hsame e).mp he)
  have hlub := hw.isLUB hvalid' h'
  have hset : {e | e ∈ slot'.toList ++ es'} = {e | e ∈ slot.toList ++ es} :=
    Set.ext hsame
  rw [hset] at hlub
  exact hlub.unique (hw.isLUB hvalid h)

/-- No write takes the key back. -/
theorem le_write (hw : Joins write valid key) {e old : E} (he : valid e) (hold : valid old) :
    key old ≤ key (write e (some old)) := by
  rw [hw.join e old he hold]
  exact le_sup_left

end Semilattice

variable [LinearOrder L] {key : E → L}

/-- In a linear order the key that is left is the greatest one written. -/
theorem isGreatest (hw : Joins write valid key) (hvalid : ∀ e ∈ slot.toList ++ es, valid e)
    (h : writeAll write slot es = some final) :
    IsGreatest (key '' {e | e ∈ slot.toList ++ es}) (key final) := by
  have hlub := hw.isLUB hvalid h
  refine ⟨?_, hlub.1⟩
  have hfinite : (key '' {e | e ∈ slot.toList ++ es}).Finite :=
    (List.finite_toSet (slot.toList ++ es)).image key
  have hsome : (key '' {e | e ∈ slot.toList ++ es}).Nonempty := by
    by_contra hempty
    rw [Set.not_nonempty_iff_eq_empty, Set.image_eq_empty] at hempty
    have hnil : slot.toList ++ es = [] :=
      List.eq_nil_iff_forall_not_mem.mpr fun e he => Set.eq_empty_iff_forall_notMem.mp hempty e he
    rcases List.append_eq_nil_iff.mp hnil with ⟨hslot, rfl⟩
    cases slot with
    | none => cases h
    | some e => cases hslot
  rcases hfinite.exists_maximal hsome with ⟨l, hl, hmax⟩
  have hle : l ≤ key final := hlub.1 hl
  have hbound : key final ≤ l := hlub.2 fun k hk => by
    rcases le_total k l with hkl | hlk
    · exact hkl
    · exact hmax hk hlk
  rw [le_antisymm hbound hle]
  exact hl

end Joins

end JoinStore
