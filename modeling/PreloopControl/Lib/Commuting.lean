import Mathlib

/-!
# Commuting Updates

Updates applied to a state one after the other, each pair of which commutes and each of
which does nothing more when it is applied again. Then neither their order nor their
repetition matters, only which updates were applied.

## Main definitions

* `Commuting`: The updates of a list commute and are idempotent.

## Theorems

* `Commuting.foldl_perm`: The order does not matter.
* `Commuting.foldl_absorbs`: Updates that were applied do nothing more.
* `Commuting.foldl_congr`: Only the updates matter.
-/

variable {S A : Type}

/-- The updates of a list commute with each other, and each is idempotent. -/
structure Commuting (f : S → A → S) (l : List A) : Prop where
  comm : ∀ a ∈ l, ∀ b ∈ l, ∀ s, f (f s a) b = f (f s b) a
  idem : ∀ a ∈ l, ∀ s, f (f s a) a = f s a

namespace Commuting

variable {f : S → A → S} {l l' : List A}

theorem congr_mem (h : Commuting f l) (hmem : ∀ a ∈ l', a ∈ l) : Commuting f l' :=
  ⟨fun a ha b hb => h.comm a (hmem a ha) b (hmem b hb), fun a ha => h.idem a (hmem a ha)⟩

/-- The order does not matter. -/
theorem foldl_perm (h : Commuting f l) (hperm : l.Perm l') (s : S) :
    l.foldl f s = l'.foldl f s :=
  hperm.foldl_eq' h.comm s

/-- An update that was applied does nothing more. -/
theorem foldl_absorb (h : Commuting f l) {a : A} (ha : a ∈ l) (s : S) :
    f (l.foldl f s) a = l.foldl f s := by
  rcases List.append_of_mem ha with ⟨x, y, rfl⟩
  have hlast : (x ++ a :: y).Perm (x ++ y ++ [a]) := by
    rw [List.append_assoc]
    exact (List.perm_append_singleton a y).symm.append_left x
  rw [h.foldl_perm hlast, List.foldl_append, List.foldl_cons, List.foldl_nil]
  exact h.idem a ha _

/-- Updates that were applied do nothing more. -/
theorem foldl_absorbs (h : Commuting f l) (hmem : ∀ a ∈ l', a ∈ l) (s : S) :
    (l ++ l').foldl f s = l.foldl f s := by
  rw [List.foldl_append]
  induction l' with
  | nil => rfl
  | cons a l' ih =>
      rw [List.foldl_cons, h.foldl_absorb (hmem a List.mem_cons_self)]
      exact ih fun b hb => hmem b (List.mem_cons_of_mem a hb)

/-- Only the updates matter, not their order or their number. -/
theorem foldl_congr (h : Commuting f l) (hmem : ∀ a, a ∈ l' ↔ a ∈ l) (s : S) :
    l'.foldl f s = l.foldl f s := by
  have h' : Commuting f l' := h.congr_mem fun a => (hmem a).mp
  have happ : Commuting f (l' ++ l) := by
    refine h.congr_mem fun a ha => ?_
    rcases List.mem_append.mp ha with ha | ha
    · exact (hmem a).mp ha
    · exact ha
  calc l'.foldl f s = (l' ++ l).foldl f s := (h'.foldl_absorbs (fun a => (hmem a).mpr) s).symm
    _ = (l ++ l').foldl f s := happ.foldl_perm List.perm_append_comm s
    _ = l.foldl f s := h.foldl_absorbs (fun a => (hmem a).mp) s

end Commuting
