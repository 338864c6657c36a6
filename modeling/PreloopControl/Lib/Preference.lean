import Mathlib

/-!
# Preferences

The element of a list that a list of wishes prefers: the first one with the first wish, or
else the first one with the second, and so on. The preferred element is the first of those
of the least tier, and it can be found in a part of the list exactly if the part has an
element of that tier.

## Main definitions

* `preferred`: The first element with the first wish that any element has.
* `tierOf`: The first wish an element has.
* `preferredIndex`: Where the preferred element stands.

## Theorems

* `preferred_eq_none_iff`: There is none exactly if no element has a wish.
* `preferred_eq_some_iff`: The preferred element is the first one of the least tier.
* `getElem?_preferredIndex`: The preferred element stands where the index says.
* `preferred_eq_iff`: When the preferred element of a part is that of the whole.
-/

namespace Preference

variable {E : Type}

/-- The first element with the first wish that any element has. -/
def preferred (wishes : List (E → Bool)) (l : List E) : Option E :=
  wishes.findSome? fun p => l.find? p

/-- The first wish an element has. -/
def tierOf (wishes : List (E → Bool)) (e : E) : Option Nat := wishes.findIdx? fun p => p e

/-- Where the preferred element stands. -/
def preferredIndex (wishes : List (E → Bool)) (l : List E) : Option Nat :=
  wishes.findSome? fun p => l.findIdx? p

variable {wishes : List (E → Bool)} {l : List E} {e : E}

theorem tierOf_cons (p : E → Bool) (wishes : List (E → Bool)) (e : E) :
    tierOf (p :: wishes) e = if p e then some 0 else (tierOf wishes e).map (· + 1) := by
  rw [tierOf, List.findIdx?_cons]
  rfl

theorem tierOf_eq_none_iff : tierOf wishes e = none ↔ ∀ p ∈ wishes, p e = false := by
  rw [tierOf, List.findIdx?_eq_none_iff]

theorem preferred_cons (p : E → Bool) (wishes : List (E → Bool)) (l : List E) :
    preferred (p :: wishes) l = (l.find? p).or (preferred wishes l) := by
  rw [preferred, List.findSome?_cons]
  cases l.find? p with
  | none => rfl
  | some e => rfl

theorem preferred_eq_none_iff : preferred wishes l = none ↔ ∀ e ∈ l, tierOf wishes e = none := by
  rw [preferred, List.findSome?_eq_none_iff]
  constructor
  · intro h e he
    refine tierOf_eq_none_iff.mpr fun p hp => ?_
    simpa using List.find?_eq_none.mp (h p hp) e he
  · intro h p hp
    refine List.find?_eq_none.mpr fun e he => ?_
    simpa using tierOf_eq_none_iff.mp (h e he) p hp

/-- The preferred element is the first one of the least tier. -/
theorem preferred_eq_some_iff : preferred wishes l = some e ↔
    ∃ t, l.find? (fun d => tierOf wishes d = some t) = some e ∧
      ∀ d ∈ l, ∀ u, tierOf wishes d = some u → t ≤ u := by
  induction wishes with
  | nil =>
      constructor
      · intro h
        cases h
      · rintro ⟨t, hfind, -⟩
        have htier := List.find?_some hfind
        simp [tierOf] at htier
  | cons p wishes ih =>
      rw [preferred_cons]
      cases hp : l.find? p with
      | some first =>
          -- someone has the first wish
          have hzero : l.find? (fun d => tierOf (p :: wishes) d = some 0) = some first := by
            rw [← hp]
            congr 1
            funext d
            rw [tierOf_cons]
            cases hd : p d with
            | true => simp
            | false => cases htier : tierOf wishes d with
              | none => simp
              | some u => simp
          rw [Option.some_or]
          constructor
          · intro h
            exact ⟨0, hzero.trans h, fun d _ u _ => Nat.zero_le u⟩
          · rintro ⟨t, hfind, hleast⟩
            have htier : tierOf (p :: wishes) first = some 0 := by
              simpa using List.find?_some hzero
            have ht : t = 0 :=
              Nat.le_zero.mp (hleast first (List.mem_of_find?_eq_some hp) 0 htier)
            rw [ht] at hfind
            exact hzero.symm.trans hfind
      | none =>
          -- no one has the first wish, so all tiers are one higher
          have hshift : ∀ d ∈ l, tierOf (p :: wishes) d = (tierOf wishes d).map (· + 1) := by
            intro d hd
            rw [tierOf_cons, if_neg (List.find?_eq_none.mp hp d hd)]
          have hfind : ∀ t, l.find? (fun d => tierOf (p :: wishes) d = some (t + 1)) =
              l.find? fun d => tierOf wishes d = some t := by
            intro t
            refine List.find?_congr fun d hd => ?_
            rw [hshift d hd]
            cases tierOf wishes d with
            | none => simp
            | some u => simp
          rw [Option.none_or, ih]
          constructor
          · rintro ⟨t, he, hleast⟩
            refine ⟨t + 1, (hfind t).trans he, fun d hd u hu => ?_⟩
            rw [hshift d hd] at hu
            rcases Option.map_eq_some_iff.mp hu with ⟨v, hv, rfl⟩
            exact Nat.succ_le_succ (hleast d hd v hv)
          · rintro ⟨t, he, hleast⟩
            have htier : tierOf (p :: wishes) e = some t := by simpa using List.find?_some he
            rw [hshift e (List.mem_of_find?_eq_some he)] at htier
            rcases Option.map_eq_some_iff.mp htier with ⟨v, hv, rfl⟩
            refine ⟨v, (hfind v).symm.trans he, fun d hd u hu => ?_⟩
            have hle := hleast d hd (u + 1) (by rw [hshift d hd, hu]; rfl)
            omega

theorem preferred_mem (h : preferred wishes l = some e) : e ∈ l := by
  rcases preferred_eq_some_iff.mp h with ⟨t, hfind, -⟩
  exact List.mem_of_find?_eq_some hfind

theorem tierOf_preferred (h : preferred wishes l = some e) :
    ∃ t, tierOf wishes e = some t ∧ ∀ d ∈ l, ∀ u, tierOf wishes d = some u → t ≤ u := by
  rcases preferred_eq_some_iff.mp h with ⟨t, hfind, hleast⟩
  exact ⟨t, by simpa using List.find?_some hfind, hleast⟩

theorem exists_preferred (he : e ∈ l) {t : Nat} (ht : tierOf wishes e = some t) :
    ∃ d, preferred wishes l = some d := by
  cases h : preferred wishes l with
  | some d => exact ⟨d, rfl⟩
  | none =>
      rw [preferred_eq_none_iff.mp h e he] at ht
      cases ht

theorem getElem?_findIdx? (p : E → Bool) (l : List E) :
    (l.findIdx? p).bind (l[·]?) = l.find? p := by
  induction l with
  | nil => rfl
  | cons e l ih =>
      rw [List.findIdx?_cons, List.find?_cons]
      cases p e with
      | true => rfl
      | false =>
          rw [← ih]
          cases l.findIdx? p with
          | none => rfl
          | some i => rfl

/-- The preferred element stands where the index says. -/
theorem getElem?_preferredIndex (wishes : List (E → Bool)) (l : List E) :
    (preferredIndex wishes l).bind (l[·]?) = preferred wishes l := by
  induction wishes with
  | nil => rfl
  | cons p wishes ih =>
      rw [preferred_cons, ← ih, preferredIndex, List.findSome?_cons]
      have hfind := getElem?_findIdx? p l
      cases hindex : l.findIdx? p with
      | none =>
          rw [hindex] at hfind
          rw [← hfind]
          rfl
      | some i =>
          rw [hindex] at hfind
          rw [← hfind]
          have hlt : i < l.length := (List.findIdx?_eq_some_iff_getElem.mp hindex).1
          simp [hlt]

/-- The preferred element of a part is that of the whole exactly if the part has an element
    of the least tier, provided its first one of that tier is the first of all. -/
theorem preferred_eq_iff {part : List E}
    (hfirst : ∀ t c, part.find? (fun d => tierOf wishes d = some t) = some c →
      l.find? (fun d => tierOf wishes d = some t) = some c) :
    preferred wishes part = preferred wishes l ↔ ∀ d ∈ l, ∀ u, tierOf wishes d = some u →
      ∃ c ∈ part, ∃ t, tierOf wishes c = some t ∧ t ≤ u := by
  constructor
  · intro heq d hd u hu
    rcases exists_preferred hd hu with ⟨c, hc⟩
    rcases tierOf_preferred hc with ⟨t, ht, hleast⟩
    exact ⟨c, preferred_mem (heq.trans hc), t, ht, hleast d hd u hu⟩
  · intro hbest
    cases hpart : preferred wishes part with
    | none =>
        symm
        rw [preferred_eq_none_iff]
        intro d hd
        cases hu : tierOf wishes d with
        | none => rfl
        | some u =>
            rcases hbest d hd u hu with ⟨c, hc, t, ht, -⟩
            rw [preferred_eq_none_iff.mp hpart c hc] at ht
            cases ht
    | some e =>
        rcases preferred_eq_some_iff.mp hpart with ⟨t, hfind, hleast⟩
        refine (preferred_eq_some_iff.mpr ⟨t, hfirst t e hfind, fun d hd u hu => ?_⟩).symm
        rcases hbest d hd u hu with ⟨c, hc, v, hv, hle⟩
        exact (hleast c hc v hv).trans hle

end Preference
