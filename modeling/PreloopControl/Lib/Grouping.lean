import PreloopControl.Lib.SortedMap

/-!
# Groups by a Key

Items are put in groups by a key, each at the end of its group, and the groups come in the
order of their keys. What this does to the order of the items is all between different keys:
the items of one key are the same list before and after. Groups may then be cut in chunks.

## Main definitions

* `push`, `group`: An item in its group, and all of them.
* `chunks`: A list in pieces of a size.

## Theorems

* `lookup_group`: A group is the items of its key.
* `filter_group`: The items of a key keep their order.
* `flatten_chunks`, `ne_nil_of_mem_chunks`: The pieces are the list, and none is empty.
* `eq_of_filters`: A part that holds as much of every key is the whole.
-/

namespace Grouping

variable {K A : Type} [LinearOrder K] (key : A → K)

/-- An item at the end of its group. -/
def push (m : SortedMap K (List A)) (a : A) : SortedMap K (List A) :=
  m.insert (key a) ((m.lookup (key a)).getD [] ++ [a])

/-- All items in their groups. -/
def group (items : List A) : SortedMap K (List A) := items.foldl (push key) ∅

theorem lookup_foldl_push (items : List A) (m : SortedMap K (List A)) (k : K) :
    ((items.foldl (push key) m).lookup k).getD [] =
      (m.lookup k).getD [] ++ items.filter fun a => key a = k := by
  induction items generalizing m with
  | nil => simp
  | cons a items ih =>
      rw [List.foldl_cons, ih, push, SortedMap.lookup_insert]
      by_cases hk : key a = k
      · rw [List.filter_cons_of_pos (by simp [hk]), ← hk, if_pos rfl, Option.getD_some,
          List.append_assoc, List.singleton_append]
      · rw [List.filter_cons_of_neg (by simp [hk]), if_neg hk]

/-- A group is the items of its key. -/
theorem lookup_group (items : List A) (k : K) :
    ((group key items).lookup k).getD [] = items.filter fun a => key a = k :=
  lookup_foldl_push key items ∅ k

/-- Of groups that hold the items of their keys, one is left. -/
theorem filter_flatMap {es : List (K × List A)} (hsorted : es.Pairwise fun a b => a.1 < b.1)
    (hkey : ∀ e ∈ es, ∀ a ∈ e.2, key a = e.1) (k : K) :
    (es.flatMap (·.2)).filter (fun a => key a = k) =
      ((es.find? fun e => e.1 = k).map (·.2)).getD [] := by
  induction es with
  | nil => rfl
  | cons e es ih =>
      rcases List.pairwise_cons.mp hsorted with ⟨hlt, hsorted⟩
      have hself := hkey e List.mem_cons_self
      have hrest := ih hsorted fun d hd => hkey d (List.mem_cons_of_mem e hd)
      rw [List.flatMap_cons, List.filter_append, hrest]
      by_cases hk : e.1 = k
      · -- no later group has this key
        have hnone : (es.find? fun d => d.1 = k) = none := by
          refine List.find?_eq_none.mpr fun d hd => ?_
          have hne := (hlt d hd).ne'
          rw [hk] at hne
          simpa using hne
        rw [List.find?_cons_of_pos (by simpa using hk), hnone,
          List.filter_eq_self.mpr fun a ha => by simpa [hk] using hself a ha]
        simp
      · rw [List.find?_cons_of_neg (by simpa using hk),
          List.filter_eq_nil_iff.mpr fun a ha => by simpa [hself a ha] using hk,
          List.nil_append]

/-- Every item is in the group of its key. -/
theorem key_of_mem_group {items : List A} {e : K × List A} (he : e ∈ (group key items).entries)
    {a : A} (ha : a ∈ e.2) : key a = e.1 := by
  have hgroup := lookup_group key items e.1
  rw [SortedMap.lookup_of_mem he, Option.getD_some] at hgroup
  rw [hgroup] at ha
  simpa using (List.mem_filter.mp ha).2

/-- The items of a key keep their order. -/
theorem filter_group (items : List A) (k : K) :
    ((group key items).entries.flatMap (·.2)).filter (fun a => key a = k) =
      items.filter fun a => key a = k := by
  rw [filter_flatMap key (group key items).sorted fun e he a ha => key_of_mem_group key he ha,
    ← lookup_group]
  rfl

/-! ## Chunks -/

/-- The loop of `chunks`. -/
def chunksLoop (size : Nat) : Nat → List A → List (List A)
  | 0, _ => []
  | _, [] => []
  | n + 1, a :: l => (a :: l).take size :: chunksLoop size n ((a :: l).drop size)

/-- A list in pieces of a size, the last one perhaps shorter. -/
def chunks (size : Nat) (l : List A) : List (List A) := chunksLoop size l.length l

variable {key} {size : Nat}

theorem flatten_chunksLoop (hsize : 0 < size) {n : Nat} {l : List A} (hn : l.length ≤ n) :
    (chunksLoop size n l).flatten = l := by
  induction n generalizing l with
  | zero =>
      rw [List.length_eq_zero_iff.mp (Nat.le_zero.mp hn)]
      rfl
  | succ n ih =>
      cases l with
      | nil => rfl
      | cons a l =>
          have hlen : ((a :: l).drop size).length ≤ n := by
            simp only [List.length_drop, List.length_cons] at hn ⊢
            omega
          rw [chunksLoop, List.flatten_cons, ih hlen, List.take_append_drop]

/-- The pieces are the list. -/
theorem flatten_chunks (hsize : 0 < size) (l : List A) : (chunks size l).flatten = l :=
  flatten_chunksLoop hsize (Nat.le_refl _)

theorem ne_nil_of_mem_chunksLoop (hsize : 0 < size) {n : Nat} {l c : List A}
    (hc : c ∈ chunksLoop size n l) : c ≠ [] := by
  induction n generalizing l with
  | zero => cases hc
  | succ n ih =>
      cases l with
      | nil => cases hc
      | cons a l =>
          rcases List.mem_cons.mp hc with rfl | hc
          · intro hnil
            have hlen := congrArg List.length hnil
            simp only [List.length_take, List.length_cons, List.length_nil] at hlen
            omega
          · exact ih hc

/-- No piece is empty. -/
theorem ne_nil_of_mem_chunks (hsize : 0 < size) {l c : List A} (hc : c ∈ chunks size l) :
    c ≠ [] :=
  ne_nil_of_mem_chunksLoop hsize hc

/-! ## Parts -/

/-- Lists put together from shorter and longer ones are equal in length only if these are. -/
theorem length_eq_of_flatMap {B : Type} {f g : A → List B} {l : List A}
    (hle : ∀ a, (f a).length ≤ (g a).length)
    (h : (l.flatMap f).length = (l.flatMap g).length) : ∀ a ∈ l, (f a).length = (g a).length := by
  induction l with
  | nil => simp
  | cons a l ih =>
      have hsub : (l.flatMap f).length ≤ (l.flatMap g).length := by
        rw [List.length_flatMap, List.length_flatMap]
        exact List.sum_le_sum fun a _ => hle a
      have ha := hle a
      simp only [List.flatMap_cons, List.length_append] at h
      refine List.forall_mem_cons.mpr ⟨by omega, ih (by omega)⟩

theorem flatMap_sublist {B : Type} {f g : A → List B} (h : ∀ a, (f a).Sublist (g a))
    (l : List A) : (l.flatMap f).Sublist (l.flatMap g) := by
  induction l with
  | nil => exact List.Sublist.refl _
  | cons a l ih => exact (h a).append ih

/-- A part of a list that holds as much of every key is the list. -/
theorem eq_of_filters {I : Type} [DecidableEq A] [DecidableEq I] {f : A → I} {d l : List A}
    (hsub : d.Sublist l)
    (h : ∀ k, d.filter (fun a => f a = k) = l.filter fun a => f a = k) : d = l := by
  have hperm : d.Perm l := by
    refine List.perm_iff_count.mpr fun a => ?_
    have hcount (l : List A) : l.count a = (l.filter fun b => f b = f a).count a :=
      (List.count_filter (by simp)).symm
    rw [hcount d, hcount l, h]
  exact hsub.eq_of_length hperm.length_eq

end Grouping
