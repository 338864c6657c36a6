import PreloopControl.Lib.SortedMap

/-!
# Last Writers

What is read off a state that a list of writes was folded into. If every write either
decides what is read or leaves it alone, then only the last of those that decide it
counts, and what was there before counts only if there is none.

## Main definitions

* `lastWhere`: The last element with a property.

## Theorems

* `lastWhere_eq_some_iff`: What it means to be the last one.
* `foldl_lastWhere`: What is read after a list of writes.
* `SortedMap.lookup_ofList`, `SortedMap.mem_of_lookup_ofList`: What is found in a map built
  entry by entry.
* `SortedMap.lookup_foldl_insert_of_mem`: What is found after further entries.
-/

namespace LastWrite

variable {E S V : Type}

/-- The last element with a property. -/
def lastWhere (p : E → Bool) (l : List E) : Option E := (l.filter p).getLast?

theorem lastWhere_concat (p : E → Bool) (l : List E) (e : E) :
    lastWhere p (l ++ [e]) = if p e then some e else lastWhere p l := by
  unfold lastWhere
  by_cases hp : p e = true
  · rw [if_pos hp, List.filter_append, List.filter_cons_of_pos hp, List.filter_nil,
      List.getLast?_concat]
  · rw [if_neg hp, List.filter_append, List.filter_cons_of_neg hp, List.filter_nil,
      List.append_nil]

theorem lastWhere_eq_none_iff {p : E → Bool} {l : List E} :
    lastWhere p l = none ↔ ∀ e ∈ l, p e = false := by
  rw [lastWhere, List.getLast?_eq_none_iff, List.filter_eq_nil_iff]
  simp

/-- The last one stands somewhere, and none behind it has the property. -/
theorem lastWhere_eq_some_iff {p : E → Bool} {l : List E} {e : E} :
    lastWhere p l = some e ↔
      ∃ before after, l = before ++ e :: after ∧ p e = true ∧ ∀ x ∈ after, p x = false := by
  induction l using List.reverseRecOn with
  | nil =>
      constructor
      · intro h
        cases h
      · rintro ⟨before, after, hl, -⟩
        exact absurd hl (by simp)
  | append_singleton l last ih =>
      rw [lastWhere_concat]
      by_cases hp : p last = true
      · rw [if_pos hp, Option.some.injEq]
        constructor
        · rintro rfl
          exact ⟨l, [], rfl, hp, by simp⟩
        · rintro ⟨before, after, hl, he, hafter⟩
          -- whatever stands behind `e` ends in `last`, which has the property
          rcases List.eq_nil_or_concat after with rfl | ⟨init, x, rfl⟩
          · exact List.singleton_inj.mp (List.append_inj' hl rfl).2
          · have hx : x = last := by
              have hsplit : l ++ [last] = (before ++ e :: init) ++ [x] := by
                rw [hl]
                simp
              exact (List.singleton_inj.mp (List.append_inj' hsplit rfl).2).symm
            have hno := hafter x (by simp)
            rw [hx, hp] at hno
            cases hno
      · rw [if_neg hp, ih]
        constructor
        · rintro ⟨before, after, rfl, he, hafter⟩
          refine ⟨before, after ++ [last], by simp, he, fun x hx => ?_⟩
          rcases List.mem_append.mp hx with hx | hx
          · exact hafter x hx
          · rw [List.mem_singleton.mp hx]
            exact Bool.eq_false_iff.mpr hp
        · rintro ⟨before, after, hl, he, hafter⟩
          rcases List.eq_nil_or_concat after with rfl | ⟨init, x, rfl⟩
          · have heq := (List.append_inj' hl rfl).2
            rw [List.singleton_inj.mp heq] at hp
            exact absurd he hp
          · have hsplit : l ++ [last] = (before ++ e :: init) ++ [x] := by
              rw [hl]
              simp
            exact ⟨before, init, (List.append_inj' hsplit rfl).1, he,
              fun y hy => hafter y (by simp [hy])⟩

theorem lastWhere_mem {p : E → Bool} {l : List E} {e : E} (h : lastWhere p l = some e) :
    e ∈ l ∧ p e = true := by
  rcases lastWhere_eq_some_iff.mp h with ⟨before, after, rfl, hp, -⟩
  exact ⟨by simp, hp⟩

/-- Where there is one, there is a last one. -/
theorem exists_lastWhere {p : E → Bool} {l : List E} {e : E} (he : e ∈ l) (hp : p e = true) :
    ∃ last, lastWhere p l = some last := by
  cases h : lastWhere p l with
  | some last => exact ⟨last, rfl⟩
  | none =>
      rw [lastWhere_eq_none_iff.mp h e he] at hp
      cases hp

/-- The last element of all is the last one with any property it has. -/
theorem lastWhere_of_getLast? {p : E → Bool} {l : List E} {last : E}
    (h : l.getLast? = some last) (hp : p last = true) : lastWhere p l = some last := by
  rcases List.getLast?_eq_some_iff.mp h with ⟨init, rfl⟩
  rw [lastWhere_concat, if_pos hp]

/-- What is read off a state after a list of writes: what the last write that touches it
    decided, or else what was there. -/
theorem foldl_lastWhere (read : S → V) {write : S → E → S} {touches : E → Bool} {value : E → V}
    (h : ∀ s e, read (write s e) = if touches e then value e else read s) (l : List E) (s : S) :
    read (l.foldl write s) = match lastWhere touches l with
      | some e => value e
      | none => read s := by
  induction l using List.reverseRecOn with
  | nil => rfl
  | append_singleton l e ih =>
      rw [List.foldl_concat, h, lastWhere_concat]
      by_cases ht : touches e = true
      · rw [if_pos ht, if_pos ht]
      · rw [if_neg ht, if_neg ht, ih]

end LastWrite

namespace SortedMap

variable {K V : Type} [LinearOrder K]

/-- An inserted entry decides what is found under its key and nothing else. -/
theorem insert_touches (k : K) (m : SortedMap K V) (e : K × V) :
    (m.insert e.1 e.2).lookup k = if decide (e.1 = k) then some e.2 else m.lookup k := by
  rw [lookup_insert]
  by_cases hk : e.1 = k
  · rw [if_pos hk, if_pos (by simpa using hk)]
  · rw [if_neg hk, if_neg (by simpa using hk)]

/-- A map built entry by entry holds the last entry under every key. -/
theorem lookup_ofList (es : List (K × V)) (k : K) :
    (ofList es).lookup k = (LastWrite.lastWhere (fun e => decide (e.1 = k)) es).map (·.2) := by
  refine (LastWrite.foldl_lastWhere (fun m : SortedMap K V => m.lookup k)
    (insert_touches k) es ∅).trans ?_
  cases LastWrite.lastWhere (fun e => decide (e.1 = k)) es with
  | none => rfl
  | some e => rfl

theorem mem_of_lookup_ofList {es : List (K × V)} {k : K} {v : V}
    (h : (ofList es).lookup k = some v) : (k, v) ∈ es := by
  rw [lookup_ofList] at h
  rcases Option.map_eq_some_iff.mp h with ⟨e, he, rfl⟩
  rcases LastWrite.lastWhere_mem he with ⟨hmem, hk⟩
  rw [← of_decide_eq_true hk]
  exact hmem

theorem lookup_ofList_ne_none {es : List (K × V)} {k : K} {v : V} (h : (k, v) ∈ es) :
    (ofList es).lookup k ≠ none := by
  rw [lookup_ofList]
  intro hnone
  have hno := LastWrite.lastWhere_eq_none_iff.mp (Option.map_eq_none_iff.mp hnone) (k, v) h
  simp at hno

/-- What is found after entries were inserted one by one: the one under the key, if there is
    just one. -/
theorem lookup_foldl_insert_of_mem {es : List (K × V)} {k : K} {v : V} (m : SortedMap K V)
    (h : (k, v) ∈ es) (hone : ∀ w, (k, w) ∈ es → w = v) :
    (es.foldl (fun m e => m.insert e.1 e.2) m).lookup k = some v := by
  rw [LastWrite.foldl_lastWhere (fun m : SortedMap K V => m.lookup k) (insert_touches k) es m]
  rcases LastWrite.exists_lastWhere (p := fun e : K × V => decide (e.1 = k)) h
    (decide_eq_true rfl) with ⟨last, hlast⟩
  rcases LastWrite.lastWhere_mem hlast with ⟨hmem, hkey⟩
  have hvalue : last.2 = v := hone last.2 (of_decide_eq_true hkey ▸ hmem)
  rw [hlast]
  exact congrArg some hvalue

/-- Where nothing was inserted under a key, what was there is found. -/
theorem lookup_foldl_insert_of_not_mem {es : List (K × V)} {k : K} (m : SortedMap K V)
    (h : ∀ v, (k, v) ∉ es) :
    (es.foldl (fun m e => m.insert e.1 e.2) m).lookup k = m.lookup k := by
  induction es generalizing m with
  | nil => rfl
  | cons e es ih =>
      have hne : e.1 ≠ k := by
        rintro rfl
        exact h e.2 List.mem_cons_self
      rw [List.foldl_cons, ih _ fun v hv => h v (List.mem_cons_of_mem e hv), lookup_insert,
        if_neg hne]

end SortedMap
