import PreloopControl.Workflow.StepNames
import PreloopControl.Properties.SecretReads

/-!
# Distinct Names of Steps

The position of a step behind its name tells it from every name that got a position before, but
not from a name an author wrote that way. So two steps have one name exactly if the name of a
step was taken, and what it would get instead is the name of an earlier step.

## Main definitions

* `candidateNames`: The names before any of them is changed.
* `Taken`: The names that steps have, told from these.

## Theorems

* `suffixed_inj`: A name with a number behind it tells the number.
* `mem_names_iff`: The names in use.
* `context_names_distinct`: When the names are distinct.
-/

namespace Preloop

namespace Workflow

open Expressions

variable {N F Id : Type}

/-! ## Numbers behind a name -/

/-- A name with a number behind it tells the number. -/
theorem suffixed_inj {a b : Text} {m n : Nat} (h : suffixed a m = suffixed b n) : m = n := by
  -- read backwards, the digits end at the first underscore
  have hrev := congrArg List.reverse h
  unfold suffixed at hrev
  simp only [List.reverse_append, List.reverse_cons, List.append_assoc,
    List.singleton_append] at hrev
  have hdigits : ∀ k : Nat, ∀ c ∈ (Nat.toDigits 10 k).reverse, decide (c ≠ '_') = true := by
    intro k c hc
    rw [decide_eq_true_iff]
    rintro rfl
    exact Nat.underscore_not_in_toDigits (List.mem_reverse.mp hc)
  have htake := congrArg (List.takeWhile fun c => decide (c ≠ '_')) hrev
  rw [List.takeWhile_append_of_pos (hdigits m), List.takeWhile_append_of_pos (hdigits n)] at htake
  simp only [ne_eq, not_true_eq_false, decide_false, Bool.false_eq_true, not_false_eq_true,
    List.takeWhile_cons_of_neg, List.append_nil, List.reverse_inj] at htake
  rw [← Nat.ofDigitChars_ten_toDigits (n := m), htake, Nat.ofDigitChars_ten_toDigits]

/-! ## The names -/

/-- The names of the steps from a position on, before any of them is changed. -/
def candidatesFrom : Nat → List (IdentifiedStep N) → NameCounters → List Text
  | _, [], _ => []
  | index, step :: steps, counters =>
    let named := contextNameOf index step counters
    named.1 :: candidatesFrom (index + 1) steps named.2

/-- The names of the steps before any of them is changed. -/
def candidateNames (steps : List (IdentifiedStep N)) : List Text := candidatesFrom 0 steps {}

/-- The name is one that a step has, told from the names before any was changed, the last one
    in front. -/
def Taken : List Text → Text → Prop
  | [], _ => False
  | candidate :: before, name =>
    name = candidate ∨ (name = suffixed candidate before.length ∧ Taken before candidate) ∨
      Taken before name

/-- The names that steps get, the last one in front. -/
def namesOf : List Text → List Text
  | [] => []
  | candidate :: before => finalName candidate before.length (namesOf before) :: namesOf before

theorem buildStepsFrom_names (engine : Engine N F) (ctx : Context N) (fileId : U32)
    (ids : Nat → Id) (steps : List (IdentifiedStep N)) : ∀ (counters : NameCounters)
      (before : List Text),
      ((buildStepsFrom engine ctx fileId ids before.length steps counters (namesOf before)).map
        TaskStep.contextName).reverse ++ (namesOf before).map some =
        (namesOf ((candidatesFrom before.length steps counters).reverse ++ before)).map some := by
  induction steps with
  | nil =>
      intro counters before
      rfl
  | cons step steps ih =>
      intro counters before
      have hrest := ih (contextNameOf before.length step counters).2
        ((contextNameOf before.length step counters).1 :: before)
      rw [List.length_cons] at hrest
      unfold candidatesFrom
      rw [List.reverse_cons, List.append_assoc, List.singleton_append, ← hrest]
      simp [buildStepsFrom, namesOf, buildTaskStep]

/-- The names in use are told from the names before any was changed. -/
theorem mem_names_iff (name : Text) (candidates : List Text) :
    name ∈ namesOf candidates ↔ Taken candidates name := by
  induction candidates generalizing name with
  | nil => exact iff_of_false List.not_mem_nil id
  | cons candidate before ih =>
      unfold namesOf Taken finalName
      rw [List.mem_cons, ih]
      -- a name that is in use is changed, one that is free is kept
      by_cases hused : (namesOf before).contains candidate = true
      · rw [if_pos hused]
        have htaken : Taken before candidate := (ih candidate).mp (List.contains_iff_mem.mp hused)
        constructor
        · rintro (rfl | hname)
          · exact Or.inr (Or.inl ⟨rfl, htaken⟩)
          · exact Or.inr (Or.inr hname)
        · rintro (rfl | ⟨hname, -⟩ | hname)
          · exact Or.inr htaken
          · exact Or.inl hname
          · exact Or.inr hname
      · rw [if_neg hused]
        have hfree : ¬ Taken before candidate := fun htaken =>
          hused (List.contains_iff_mem.mpr ((ih candidate).mpr htaken))
        constructor
        · rintro (hname | hname)
          · exact Or.inl hname
          · exact Or.inr (Or.inr hname)
        · rintro (hname | ⟨-, htaken⟩ | hname)
          · exact Or.inl hname
          · exact absurd htaken hfree
          · exact Or.inr hname

/-- A name with a later position behind it is in use only if it was one from the start. -/
theorem taken_suffixed {name : Text} {n : Nat} : ∀ {candidates : List Text}, candidates.length ≤ n →
    (Taken candidates (suffixed name n) ↔ suffixed name n ∈ candidates)
  | [], _ => iff_of_false id List.not_mem_nil
  | candidate :: before, hn => by
      rw [List.length_cons] at hn
      unfold Taken
      rw [List.mem_cons, taken_suffixed (Nat.le_of_succ_le hn)]
      constructor
      · rintro (hname | ⟨hname, -⟩ | hname)
        · exact Or.inl hname
        · -- the position of an earlier step is another one
          have hpos := suffixed_inj hname
          omega
        · exact Or.inr hname
      · rintro (hname | hname)
        · exact Or.inl hname
        · exact Or.inr (Or.inr hname)

/-- A step whose name is taken does not find what it would get instead among earlier names. -/
def Separated : List Text → Prop
  | [] => True
  | candidate :: before =>
    (Taken before candidate → suffixed candidate before.length ∉ before) ∧ Separated before

theorem nodup_namesOf (candidates : List Text) :
    (namesOf candidates).Nodup ↔ Separated candidates := by
  induction candidates with
  | nil => exact iff_of_true List.nodup_nil trivial
  | cons candidate before ih =>
      unfold namesOf Separated finalName
      rw [List.nodup_cons, ih]
      refine and_congr_left fun _ => ?_
      by_cases hused : (namesOf before).contains candidate = true
      · have htaken := (mem_names_iff candidate before).mp (List.contains_iff_mem.mp hused)
        rw [if_pos hused, mem_names_iff, taken_suffixed (Nat.le_refl _)]
        exact ⟨fun h _ => h, fun h => h htaken⟩
      · have hfree : candidate ∉ namesOf before := fun h => hused (List.contains_iff_mem.mpr h)
        rw [if_neg hused]
        exact iff_of_true hfree fun htaken => absurd ((mem_names_iff _ _).mpr htaken) hfree

/-- The condition, step by step. -/
theorem separated_iff (candidates : List Text) : Separated candidates ↔
    ∀ after candidate before, candidates = after ++ candidate :: before →
      Taken before candidate → suffixed candidate before.length ∉ before := by
  induction candidates with
  | nil =>
      refine iff_of_true trivial fun after candidate before h => ?_
      cases after <;> cases h
  | cons candidate before ih =>
      unfold Separated
      rw [ih]
      constructor
      · rintro ⟨hfirst, hrest⟩ after candidate' before' h
        cases after with
        | nil =>
            cases h
            exact hfirst
        | cons _ after =>
            cases h
            exact hrest after candidate' before' rfl
      · intro hall
        exact ⟨hall [] candidate before rfl, fun after candidate' before' h =>
          hall (candidate :: after) candidate' before' (by rw [h]; rfl)⟩

/-- The names of the steps are distinct exactly if no step whose name is taken finds its name with
    its position among the names of earlier steps. -/
theorem context_names_distinct (engine : Engine N F) (ctx : Context N) (fileId : U32)
    (ids : Nat → Id) (steps : List (IdentifiedStep N)) :
    ((buildSteps engine ctx fileId ids steps).map TaskStep.contextName).Nodup ↔
      ∀ before candidate after, candidateNames steps = before ++ candidate :: after →
        Taken before.reverse candidate → suffixed candidate before.length ∉ before := by
  have hnames := buildStepsFrom_names engine ctx fileId ids steps {} []
  have hreverse : ((buildSteps engine ctx fileId ids steps).map TaskStep.contextName).reverse =
      (namesOf (candidateNames steps).reverse).map some := by
    unfold buildSteps candidateNames
    simpa [namesOf] using hnames
  rw [← List.nodup_reverse, hreverse, List.nodup_map_iff (Option.some_injective Text),
    nodup_namesOf, separated_iff]
  constructor
  · intro hall before candidate after hsteps htaken hmem
    refine hall after.reverse candidate before.reverse ?_ htaken ?_
    · rw [hsteps]
      simp
    · rw [List.length_reverse]
      exact List.mem_reverse.mpr hmem
  · intro hall after candidate before hsteps htaken hmem
    refine hall before.reverse candidate after.reverse ?_ ?_ ?_
    · rw [← List.reverse_reverse (candidateNames steps), hsteps]
      simp
    · rwa [List.reverse_reverse]
    · rw [List.length_reverse]
      exact List.mem_reverse.mpr hmem

/-- A script behind two steps that are called like scripts. -/
def scriptSteps : List (IdentifiedStep Int) :=
  [{ id := some "__run".toList, run := some "true".toList },
    { id := some "__run_2".toList, run := some "true".toList }, { run := some "true".toList }]

/-- The script gets the name of the second of them. -/
theorem script_names_collide :
    ¬ ((buildSteps integerEngine {} 1 (fun index => index) scriptSteps).map
      TaskStep.contextName).Nodup := by
  have hnames : (buildSteps integerEngine {} 1 (fun index => index) scriptSteps).map
      TaskStep.contextName =
        [some "__run".toList, some "__run_2".toList, some "__run_2".toList] := rfl
  rw [hnames]
  decide

end Workflow

end Preloop
