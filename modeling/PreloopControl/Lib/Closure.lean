import Mathlib

/-!
# Closures by Sweeps

A set of keys grows over a list of rows: a row whose key is not in yet joins if a rule says
so of what has joined before. The list is swept over until a sweep adds nothing. If the rule
is monotone, the outcome is the least set with the first keys that is closed under the rule,
so that neither the order of the rows nor that rows join in the middle of a sweep matters.

## Main definitions

* `sweep`: One pass over the rows.
* `close`: Passes until one adds nothing, if there are enough of them.
* `Closed`: A set that no row has to join any more.

## Theorems

* `sweep_spec`: What one pass does.
* `exists_close`: One pass more than there are rows is enough.
* `isLeast_close`: The outcome is the least closed set.
* `close_congr`: Rows with the same members have the same outcome.
-/

namespace Closure

variable {K R : Type} [DecidableEq K]

section Sweeps

variable (key : R → K) (joins : Finset K → R → Bool)

/-- One pass over the rows: the set and whether something was added to it. -/
def sweep (rows : List R) (acc : Finset K × Bool) : Finset K × Bool :=
  rows.foldl (fun (set, added) row =>
    if key row ∈ set then (set, added)
    else if joins set row then (insert (key row) set, true)
    else (set, added)) acc

/-- Passes until one adds nothing. -/
def close : Nat → List R → Finset K → Option (Finset K)
  | 0, _, _ => none
  | passes + 1, rows, set =>
    let (set, added) := sweep key joins rows (set, false)
    if added then close passes rows set else some set

/-- No row has to join any more. -/
def Closed (rule : Set K → R → Prop) (rows : List R) (S : Set K) : Prop :=
  ∀ row ∈ rows, rule S row → key row ∈ S

/-- A test that decides a rule, under which no row is kept out by what has joined. -/
structure Decides (joins : Finset K → R → Bool) (rule : Set K → R → Prop) : Prop where
  mono : ∀ {S T : Set K} {row}, S ⊆ T → rule S row → rule T row
  iff : ∀ {set : Finset K} {row}, joins set row = true ↔ rule set row

/-- The keys of rows that are not in a set. -/
def missing (rows : List R) (set : Finset K) : Finset K := (rows.map key).toFinset \ set

end Sweeps

variable {key : R → K} {joins : Finset K → R → Bool} {rule : Set K → R → Prop}

/-- What one pass does: it adds nothing and every row was refused, or it adds keys of rows
    that every closed set has. -/
structure SweepSpec (key : R → K) (joins : Finset K → R → Bool) (rule : Set K → R → Prop)
    (rows : List R) (acc acc' : Finset K × Bool) : Prop where
  sub : acc.1 ⊆ acc'.1
  kept : acc'.2 = false → acc.2 = false ∧ acc'.1 = acc.1 ∧
    ∀ row ∈ rows, key row ∉ acc.1 → joins acc.1 row = false
  added : acc'.2 = true → acc.2 = true ∨ ∃ row ∈ rows, key row ∉ acc.1 ∧ key row ∈ acc'.1
  least : ∀ {all : List R} {S : Set K}, (∀ row ∈ rows, row ∈ all) → Closed key rule all S →
    (acc.1 : Set K) ⊆ S → (acc'.1 : Set K) ⊆ S

/-- What one pass does. -/
theorem sweep_spec (hrule : Decides joins rule) (rows : List R) (acc : Finset K × Bool) :
    SweepSpec key joins rule rows acc (sweep key joins rows acc) := by
  -- the induction is on the rows of the pass
  induction rows generalizing acc with
  | nil =>
      exact ⟨fun _ h => h, fun h => ⟨h, rfl, fun _ hrow => (nomatch hrow)⟩, fun h => .inl h,
        fun _ _ h => h⟩
  | cons row rows ih =>
      rcases acc with ⟨set, added⟩
      rw [sweep, List.foldl_cons, ← sweep]
      dsimp only
      by_cases hin : key row ∈ set
      · -- the row is in already
        rw [if_pos hin]
        rcases ih (set, added) with ⟨hsub, hkept, hadded, hleast⟩
        refine ⟨hsub, fun h => ?_, fun h => ?_, fun hall hclosed hS => ?_⟩
        · rcases hkept h with ⟨hflag, hset, hrefused⟩
          exact ⟨hflag, hset, List.forall_mem_cons.mpr ⟨fun hout => absurd hin hout, hrefused⟩⟩
        · rcases hadded h with hflag | ⟨d, hd, hnew⟩
          · exact .inl hflag
          · exact .inr ⟨d, List.mem_cons_of_mem row hd, hnew⟩
        · exact hleast (fun d hd => hall d (List.mem_cons_of_mem row hd)) hclosed hS
      · rw [if_neg hin]
        by_cases hjoin : joins set row = true
        · -- the row joins
          rw [if_pos hjoin]
          rcases ih (insert (key row) set, true) with ⟨hsub, hkept, -, hleast⟩
          have hnew : key row ∈ (sweep key joins rows (insert (key row) set, true)).1 :=
            hsub (Finset.mem_insert_self _ _)
          refine ⟨fun k hk => hsub (Finset.mem_insert_of_mem hk), fun h => ?_,
            fun _ => .inr ⟨row, List.mem_cons_self, hin, hnew⟩, fun {all S} hall hclosed hS => ?_⟩
          · cases (hkept h).1
          · refine hleast (fun d hd => hall d (List.mem_cons_of_mem row hd)) hclosed ?_
            have hrow : key row ∈ S :=
              hclosed row (hall row List.mem_cons_self) (hrule.mono hS (hrule.iff.mp hjoin))
            rw [Finset.coe_insert]
            exact Set.insert_subset hrow hS
        · -- the row is refused
          rw [if_neg hjoin]
          rcases ih (set, added) with ⟨hsub, hkept, hadded, hleast⟩
          refine ⟨hsub, fun h => ?_, fun h => ?_, fun hall hclosed hS => ?_⟩
          · rcases hkept h with ⟨hflag, hset, hrefused⟩
            exact ⟨hflag, hset, List.forall_mem_cons.mpr
              ⟨fun _ => Bool.eq_false_iff.mpr hjoin, hrefused⟩⟩
          · rcases hadded h with hflag | ⟨d, hd, hnew⟩
            · exact .inl hflag
            · exact .inr ⟨d, List.mem_cons_of_mem row hd, hnew⟩
          · exact hleast (fun d hd => hall d (List.mem_cons_of_mem row hd)) hclosed hS

/-- A pass that adds something leaves fewer keys missing. -/
theorem missing_lt (hrule : Decides joins rule) {rows : List R} {set : Finset K}
    (h : (sweep key joins rows (set, false)).2 = true) :
    (missing key rows (sweep key joins rows (set, false)).1).card <
      (missing key rows set).card := by
  have hspec : SweepSpec key joins rule rows _ _ := sweep_spec hrule rows (set, false)
  rcases hspec.added h with hflag | ⟨row, hrow, hout, hin⟩
  · cases hflag
  · refine Finset.card_lt_card ⟨Finset.sdiff_subset_sdiff (Finset.Subset.refl _) hspec.sub, ?_⟩
    intro hsub
    have hmissing : key row ∈ missing key rows set :=
      Finset.mem_sdiff.mpr ⟨List.mem_toFinset.mpr (List.mem_map_of_mem hrow), hout⟩
    exact (Finset.mem_sdiff.mp (hsub hmissing)).2 hin

/-- One pass more than there are keys to add is enough. -/
theorem exists_close_of_missing (hrule : Decides joins rule) {passes : Nat} {rows : List R}
    {set : Finset K} (h : (missing key rows set).card < passes) :
    ∃ final, close key joins passes rows set = some final := by
  induction passes generalizing set with
  | zero => omega
  | succ passes ih =>
      rw [close]
      by_cases hadded : (sweep key joins rows (set, false)).2 = true
      · have hlt := missing_lt hrule hadded
        have hbound : (missing key rows (sweep key joins rows (set, false)).1).card < passes := by
          omega
        rcases ih hbound with ⟨final, hfinal⟩
        exact ⟨final, by simp [hadded, hfinal]⟩
      · exact ⟨(sweep key joins rows (set, false)).1, by simp [hadded]⟩

/-- One pass more than there are rows is enough. -/
theorem exists_close (hrule : Decides joins rule) {passes : Nat} {rows : List R}
    (h : rows.length < passes) (set : Finset K) :
    ∃ final, close key joins passes rows set = some final := by
  refine exists_close_of_missing hrule (lt_of_le_of_lt ?_ h)
  calc (missing key rows set).card
      ≤ (rows.map key).toFinset.card := Finset.card_le_card Finset.sdiff_subset
    _ ≤ (rows.map key).length := List.toFinset_card_le _
    _ = rows.length := List.length_map _

/-- The outcome is the least closed set. -/
theorem isLeast_close (hrule : Decides joins rule) {passes : Nat} {rows : List R}
    {seeds final : Finset K} (h : close key joins passes rows seeds = some final) :
    IsLeast {S : Set K | (seeds : Set K) ⊆ S ∧ Closed key rule rows S} (final : Set K) := by
  induction passes generalizing seeds with
  | zero => cases h
  | succ passes ih =>
      rw [close] at h
      have hspec : SweepSpec key joins rule rows _ _ := sweep_spec hrule rows (seeds, false)
      by_cases hadded : (sweep key joins rows (seeds, false)).2 = true
      · -- the passes to come find the least set over what this one added
        have hlater : close key joins passes rows (sweep key joins rows (seeds, false)).1 =
            some final := by simpa [hadded] using h
        rcases ih hlater with ⟨⟨hsub, hclosed⟩, hleast⟩
        refine ⟨⟨subset_trans (Finset.coe_subset.mpr hspec.sub) hsub, hclosed⟩, ?_⟩
        rintro S ⟨hseeds, hS⟩
        exact hleast ⟨hspec.least (fun _ hd => hd) hS hseeds, hS⟩
      · -- nothing was added, so every row outside is refused
        rcases hspec.kept (Bool.eq_false_iff.mpr hadded) with ⟨-, hset, hrefused⟩
        have hfinal : (sweep key joins rows (seeds, false)).1 = final := by simpa [hadded] using h
        have hsame : final = seeds := hfinal.symm.trans hset
        subst hsame
        refine ⟨⟨subset_rfl, fun row hrow hjoin => ?_⟩, fun S hS => hS.1⟩
        by_contra hout
        have hno := hrefused row hrow hout
        rw [hrule.iff.mpr hjoin] at hno
        cases hno

/-- Rows with the same members, under tests of one rule, have the same outcome. -/
theorem close_congr {joins' : Finset K → R → Bool} (hrule : Decides joins rule)
    (hrule' : Decides joins' rule) {passes passes' : Nat} {rows rows' : List R}
    {seeds final final' : Finset K} (hrows : ∀ row, row ∈ rows' ↔ row ∈ rows)
    (h : close key joins passes rows seeds = some final)
    (h' : close key joins' passes' rows' seeds = some final') : final' = final := by
  have hleast := isLeast_close hrule h
  have hleast' := isLeast_close hrule' h'
  have hclosed : ∀ S : Set K, Closed key rule rows' S ↔ Closed key rule rows S := fun S =>
    forall_congr' fun row => imp_congr_left (hrows row)
  simp only [hclosed] at hleast'
  exact Finset.coe_injective (hleast'.unique hleast)

end Closure
