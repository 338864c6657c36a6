import PreloopControl.ClaimQueue
import PreloopControl.System

/-!
# A Paged Claim

`claim_one` should claim the job that the four-tier preference selects from the whole
ready queue, and nothing only if no candidate is eligible.

The queue is read in windows of 64, the runner's own bindings before it. A job is claimed
from the first read that has an eligible candidate, and a better tier in a later window is
not looked for. So nothing is claimed exactly if no candidate is eligible, and the claimed
job is the one selected from the whole queue exactly if the best tier of the queue occurs
among the rows that were compared.

## Main definitions

* `ownBindings`, `windowAt`: What is read at once.
* `comparedRows`: The rows a claim compares.

## Theorems

* `claimWindows_eq`: The queue is claimed from by its first window with a candidate.
* `paged_claim_exact`: What is claimed, and when it is what the whole queue would give.
* `later_exact_match_missed`: A better match in the second window is passed by.
-/

namespace Preloop

open Txn Expressions Preference

section Claim

variable (ev : Evaluators) (poll : ClaimPoll) (now : Int)

/-! ## The rows compared -/

/-- The runner's first fresh bindings. -/
def ownBindings (rows : List ReadyRow) : List ReadyRow :=
  match poll.verifiedRunnerId with
  | some proven => (rows.filter (boundTo proven)).take claimWindow
  | none => []

/-- A window of the queue. -/
def windowAt (rows : List ReadyRow) (k : Nat) : List ReadyRow :=
  (rows.drop (claimWindow * k)).take claimWindow

/-- The row is an eligible candidate. -/
def rowEligible (row : ReadyRow) : Bool := eligible ev (runnerMatch poll) (candidate poll now 0 row)

/-- The first window with an eligible candidate, nothing if there is none. -/
def firstWindow (rows : List ReadyRow) : List ReadyRow :=
  (((List.range (rows.length / claimWindow + 1)).map (windowAt rows)).find? fun window =>
    window.any (rowEligible ev poll now)).getD []

/-- The rows a claim compares: the runner's first bindings if one of them is eligible, and
    the first window with an eligible candidate otherwise. -/
def comparedRows (rows : List ReadyRow) : List ReadyRow :=
  if (ownBindings poll rows).any (rowEligible ev poll now) then ownBindings poll rows
  else firstWindow ev poll now rows

variable {ev poll now} {db : QueueDb} {rows : List ReadyRow} {row : ReadyRow}

theorem claimTier_eq_none_iff :
    claimTier ev poll now row = none ↔ rowEligible ev poll now row = false := by
  rw [claimTier, tierOf_eq_none_iff, rowEligible]
  constructor
  · intro h
    exact h _ (by simp [claimTiers])
  · intro h tier htier
    simp only [claimTiers, List.mem_cons, List.not_mem_nil, or_false] at htier
    rcases htier with rfl | rfl | rfl | rfl
    · simp [h]
    · simp [h]
    · simp [h]
    · exact h

theorem preferred_eq_none_iff_any : preferred (rowTiers ev poll now) rows = none ↔
    rows.any (rowEligible ev poll now) = false := by
  rw [preferred_eq_none_iff, List.any_eq_false]
  refine forall₂_congr fun row _ => ?_
  rw [tierOf_rowTiers, claimTier_eq_none_iff, Bool.not_eq_true]

/-! ## Windows -/

theorem windowAt_subset (k : Nat) : windowAt rows k ⊆ rows :=
  fun _ h => List.mem_of_mem_drop (List.mem_of_mem_take h)

/-- Every row is in the window of its position. -/
theorem mem_windowAt {i : Nat} (hi : rows[i]? = some row) :
    row ∈ windowAt rows (i / claimWindow) := by
  have hmod : i % claimWindow < claimWindow := Nat.mod_lt i (by decide)
  refine List.mem_iff_getElem?.mpr ⟨i % claimWindow, ?_⟩
  rw [windowAt, List.getElem?_take_of_lt hmod, List.getElem?_drop, Nat.div_add_mod i claimWindow]
  exact hi

theorem exists_windowAt (h : row ∈ rows) : ∃ k, row ∈ windowAt rows k := by
  rcases List.mem_iff_getElem?.mp h with ⟨i, hi⟩
  exact ⟨i / claimWindow, mem_windowAt hi⟩

/-- The first window with a candidate stands behind windows without. -/
theorem firstWindow_eq {k : Nat}
    (hbefore : ∀ j < k, (windowAt rows j).any (rowEligible ev poll now) = false)
    (hk : (windowAt rows k).any (rowEligible ev poll now) = true) :
    firstWindow ev poll now rows = windowAt rows k := by
  have hlt : k < rows.length / claimWindow + 1 := by
    rcases List.any_eq_true.mp hk with ⟨row, hrow, -⟩
    have hpos := List.length_pos_of_mem hrow
    rw [windowAt, List.length_take, List.length_drop] at hpos
    have hle : k ≤ rows.length / claimWindow := by
      rw [Nat.le_div_iff_mul_le (by decide), Nat.mul_comm]
      omega
    omega
  have hfind : (List.range (rows.length / claimWindow + 1)).find?
      (fun j => (windowAt rows j).any (rowEligible ev poll now)) = some k := by
    rw [List.find?_range_eq_some]
    refine ⟨hk, List.mem_range.mpr hlt, fun j hj => ?_⟩
    rw [hbefore j hj]
    rfl
  have hmap := congrArg (Option.map (windowAt rows)) hfind
  rw [firstWindow, List.find?_map]
  exact congrArg (Option.getD · []) hmap

theorem firstWindow_eq_nil (h : rows.any (rowEligible ev poll now) = false) :
    firstWindow ev poll now rows = [] := by
  rw [firstWindow, List.find?_eq_none.mpr]
  · rfl
  · intro window hwindow
    rcases List.mem_map.mp hwindow with ⟨k, -, rfl⟩
    rw [Bool.not_eq_true, List.any_eq_false]
    exact fun row hrow => List.any_eq_false.mp h row (windowAt_subset k hrow)

variable (ev poll now) in
/-- The first window has an eligible candidate if any window has one. -/
theorem firstWindow_cases (rows : List ReadyRow) :
    (rows.any (rowEligible ev poll now) = false ∧ firstWindow ev poll now rows = []) ∨
      ∃ k, (∀ j < k, (windowAt rows j).any (rowEligible ev poll now) = false) ∧
        (windowAt rows k).any (rowEligible ev poll now) = true ∧
        firstWindow ev poll now rows = windowAt rows k := by
  cases hany : rows.any (rowEligible ev poll now) with
  | false => exact .inl ⟨rfl, firstWindow_eq_nil hany⟩
  | true =>
      rcases List.any_eq_true.mp hany with ⟨row, hrow, heligible⟩
      rcases exists_windowAt hrow with ⟨k, hk⟩
      have hex : ∃ k, (windowAt rows k).any (rowEligible ev poll now) = true :=
        ⟨k, List.any_eq_true.mpr ⟨row, hk, heligible⟩⟩
      have hleast := Nat.find_spec hex
      have hbefore : ∀ j < Nat.find hex, (windowAt rows j).any (rowEligible ev poll now) = false :=
        fun j hj => Bool.eq_false_iff.mpr (Nat.find_min hex hj)
      exact .inr ⟨Nat.find hex, hbefore, hleast, firstWindow_eq hbefore hleast⟩

variable (poll rows) in
theorem ownBindings_subset : ownBindings poll rows ⊆ rows := by
  unfold ownBindings
  cases poll.verifiedRunnerId with
  | none => exact List.nil_subset rows
  | some proven => exact fun _ h => List.mem_of_mem_filter (List.mem_of_mem_take h)

variable (ev poll now rows) in
theorem comparedRows_subset : comparedRows ev poll now rows ⊆ rows := by
  unfold comparedRows
  split
  · exact ownBindings_subset poll rows
  · rcases firstWindow_cases ev poll now rows with
      ⟨-, hnil⟩ | ⟨k, -, -, hwindow⟩
    · rw [hnil]
      exact List.nil_subset rows
    · rw [hwindow]
      exact windowAt_subset k

/-- The compared rows have an eligible candidate if the queue has one. -/
theorem any_comparedRows :
    (comparedRows ev poll now rows).any (rowEligible ev poll now) =
      rows.any (rowEligible ev poll now) := by
  have hsub := comparedRows_subset ev poll now rows
  rw [Bool.eq_iff_iff]
  constructor
  · intro h
    rcases List.any_eq_true.mp h with ⟨row, hrow, heligible⟩
    exact List.any_eq_true.mpr ⟨row, hsub hrow, heligible⟩
  · intro h
    unfold comparedRows
    split
    · next hown => exact hown
    · rcases firstWindow_cases ev poll now rows with
        ⟨hno, -⟩ | ⟨k, -, hk, hwindow⟩
      · rw [hno] at h
        cases h
      · rw [hwindow]
        exact hk

/-! ## The reads -/

theorem assignedRows_eq {proven : Nat} (h : poll.verifiedRunnerId = some proven) :
    assignedRows now db proven = ownBindings poll (readyRows now db) := by
  have hbound : ∀ j, boundTo proven (readyRow now db j) = (db.assignments j.key).any fun a =>
      a.runnerId = some proven && now - claimBindingTtl < a.assignedAt := by
    intro j
    rw [boundTo, readyRow]
    cases db.assignments j.key with
    | none => rfl
    | some a => rfl
  have hfilter : (readyRows now db).filter (boundTo proven) =
      (db.readyQueue.filter fun j => (db.assignments j.key).any fun a =>
        a.runnerId = some proven && now - claimBindingTtl < a.assignedAt).map
          (readyRow now db) := by
    rw [readyRows, List.filter_map]
    congr 2
    funext j
    exact hbound j
  rw [assignedRows, ownBindings, h, List.map_take, ← hfilter]

theorem batchRows_eq (k : Nat) :
    batchRows now db (claimWindow * k) = windowAt (readyRows now db) k := by
  rw [batchRows, windowAt, readyRows, List.map_take, List.map_drop]

/-- The candidates of rows of the queue can be claimed. -/
theorem claim_of_decode {base : Nat} (hsub : rows ⊆ readyRows now db) {c : ClaimCandidate}
    (h : c ∈ decode poll now base rows) : ∃ db', claim poll now db c = some db' := by
  rcases mem_decode h with ⟨row, hrow, hkey⟩
  exact claim_of_mem ⟨row, hsub hrow, hkey⟩

variable (ev poll now db) in
/-- Of the runner's bindings the preferred one is claimed. -/
theorem claimBindings_eq (hsub : rows ⊆ readyRows now db) :
    (claimBindings ev poll now db (decode poll now 0 rows)).map (·.1) =
      claimAmong ev poll now rows := by
  rw [claimBindings, claimAmong]
  split
  · next hnone =>
      rw [hnone]
      rfl
  · next index hindex =>
      rw [hindex, Option.bind_some]
      split
      · next hnone =>
          rw [hnone]
          rfl
      · next chosen hchosen =>
          rw [hchosen]
          rcases claim_of_decode hsub (List.mem_of_getElem? hchosen) with ⟨db', hclaim⟩
          rw [hclaim]
          rfl

variable (ev poll now db) in
/-- The queue is claimed from by its first window with a candidate. -/
theorem claimWindows_eq (k : Nat)
    (hbefore : ∀ j < k, (windowAt (readyRows now db) j).any (rowEligible ev poll now) = false) :
    (claimWindows ev poll now db (claimWindow * k)).map (·.1) =
      claimAmong ev poll now (firstWindow ev poll now (readyRows now db)) := by
  have hlen : (readyRows now db).length = db.readyQueue.length := by rw [readyRows, List.length_map]
  -- on what is left of the queue behind the offset
  induction hn : (readyRows now db).length - claimWindow * k using Nat.strong_induction_on
    generalizing k with
  | _ n ih =>
      have hchoose :=
        preference_decode ev poll now (windowAt (readyRows now db) k) (claimWindow * k)
      rw [claimWindows, batchRows_eq]
      cases hany : (windowAt (readyRows now db) k).any (rowEligible ev poll now) with
      | true =>
          rw [firstWindow_eq hbefore hany, claimAmong_eq, ← hchoose]
          split
          · next chosen hchosen =>
              rw [hchosen]
              rcases Option.bind_eq_some_iff.mp hchosen with ⟨index, -, hindex⟩
              rcases claim_of_decode (windowAt_subset k) (List.mem_of_getElem? hindex) with
                ⟨db', hclaim⟩
              rw [hclaim]
              rfl
          · next hnone =>
              rw [hnone, Option.map_none] at hchoose
              rw [preferred_eq_none_iff_any.mp (Option.map_eq_none_iff.mp hchoose.symm)] at hany
              cases hany
      | false =>
          rw [preferred_eq_none_iff_any.mpr hany, Option.map_none, Option.map_eq_none_iff]
            at hchoose
          rw [hchoose]
          have hupto : ∀ j < k + 1,
              (windowAt (readyRows now db) j).any (rowEligible ev poll now) = false := by
            intro j hj
            rcases Nat.lt_succ_iff_lt_or_eq.mp hj with hj | rfl
            · exact hbefore j hj
            · exact hany
          have hlength : (windowAt (readyRows now db) k).length =
              min claimWindow ((readyRows now db).length - claimWindow * k) := by
            rw [windowAt, List.length_take, List.length_drop]
          by_cases hlast : (windowAt (readyRows now db) k).length < claimWindow
          · -- a short window is the last one, so no row is eligible
            have hno : (readyRows now db).any (rowEligible ev poll now) = false := by
              rw [List.any_eq_false]
              intro row hrow
              rcases exists_windowAt hrow with ⟨j, hj⟩
              refine List.any_eq_false.mp (hupto j ?_) row hj
              have hpos := List.length_pos_of_mem hj
              rw [windowAt, List.length_take, List.length_drop] at hpos
              by_contra hle
              have hmul := Nat.mul_le_mul_left claimWindow (Nat.le_of_not_lt hle)
              rw [Nat.mul_succ] at hmul
              omega
            rw [firstWindow_eq_nil hno, claimAmong_eq, preferred_eq_none_iff_any.mpr rfl]
            dsimp only
            rw [dif_pos hlast]
            rfl
          · have hdec : (readyRows now db).length - claimWindow * (k + 1) < n := by
              have hpos : 0 < claimWindow := by decide
              rw [Nat.mul_succ]
              omega
            dsimp only
            rw [dif_neg hlast, ← Nat.mul_succ]
            exact ih _ hdec (k + 1) hupto rfl

/-! ## The claimed job -/

/-- The claim is the preferred one of the compared rows. -/
theorem claimed_eq : (claimOne ev poll now db).map (·.1) =
    claimAmong ev poll now (comparedRows ev poll now (readyRows now db)) := by
  have hwindows := claimWindows_eq ev poll now db 0
    fun j hj => absurd hj (Nat.not_lt_zero j)
  rw [Nat.mul_zero] at hwindows
  unfold claimOne comparedRows
  cases hverified : poll.verifiedRunnerId with
  | none =>
      rw [if_neg (by simp [ownBindings, hverified])]
      exact hwindows
  | some proven =>
      have hbindings := claimBindings_eq ev poll now db
        (ownBindings_subset poll (readyRows now db))
      dsimp only
      rw [assignedRows_eq hverified]
      cases hany : (ownBindings poll (readyRows now db)).any (rowEligible ev poll now) with
      | true =>
          rw [if_pos rfl, ← hbindings]
          cases hclaim : claimBindings ev poll now db
              (decode poll now 0 (ownBindings poll (readyRows now db))) with
          | some result => rfl
          | none =>
              -- an eligible binding is claimed
              rw [hclaim, Option.map_none, claimAmong_eq, eq_comm, Option.map_eq_none_iff,
                preferred_eq_none_iff_any, hany] at hbindings
              cases hbindings
      | false =>
          rw [claimAmong_eq, preferred_eq_none_iff_any.mpr hany, Option.map_none,
            Option.map_eq_none_iff] at hbindings
          rw [hbindings, if_neg (by simp)]
          exact hwindows

/-- The two best tiers are those of the runner's fresh bindings. -/
theorem claimTier_le_one_iff {proven t : Nat} (hverified : poll.verifiedRunnerId = some proven)
    (h : claimTier ev poll now row = some t) : t ≤ 1 ↔ boundTo proven row = true := by
  have hassigned : assignedTo (some proven) (candidate poll now 0 row) = boundTo proven row := by
    rw [assignedTo, boundTo, candidate]
    cases row.assignment with
    | none => simp
    | some a => simp
  simp only [claimTier, tierOf, claimTiers, List.findIdx?_cons, List.findIdx?_nil, hverified,
    hassigned] at h
  cases he : eligible ev (runnerMatch poll) (candidate poll now 0 row) with
  | false => simp [he] at h
  | true =>
      cases hexact : exactMatch ev poll.caps.labels none (runnerMatch poll)
          (candidate poll now 0 row) with
      | true =>
          cases hbound : boundTo proven row with
          | true => simp [he, hbound, hexact] at h ⊢; omega
          | false => simp [he, hbound, hexact] at h ⊢; omega
      | false =>
          cases hbound : boundTo proven row with
          | true => simp [he, hbound, hexact] at h ⊢; omega
          | false => simp [he, hbound, hexact] at h ⊢; omega

/-- The first of a tier in a part of a list is the first of all if none stands before. -/
theorem find?_of_drop_take {α : Type} {p : α → Bool} {l : List α} {m n : Nat} {c : α}
    (hbefore : ∀ x ∈ l.take m, p x = false) (h : ((l.drop m).take n).find? p = some c) :
    l.find? p = some c := by
  have hsplit : l = l.take m ++ ((l.drop m).take n ++ (l.drop m).drop n) := by
    rw [List.take_append_drop, List.take_append_drop]
  rw [hsplit, List.find?_append, List.find?_append, h,
    List.find?_eq_none.mpr fun x hx => by rw [hbefore x hx]; simp]
  rfl

/-- The first of a tier among the compared rows is the first of the tier in the queue. -/
theorem find?_comparedRows {t : Nat} {c : ReadyRow}
    (h : (comparedRows ev poll now rows).find?
      (fun d => tierOf (rowTiers ev poll now) d = some t) = some c) :
    rows.find? (fun d => tierOf (rowTiers ev poll now) d = some t) = some c := by
  unfold comparedRows at h
  split at h
  · unfold ownBindings at h
    cases hverified : poll.verifiedRunnerId with
    | none =>
        rw [hverified] at h
        cases h
    | some proven =>
        rw [hverified] at h
        have hown := find?_of_drop_take (m := 0) (fun x hx => nomatch hx) h
        have htier : claimTier ev poll now c = some t := by
          rw [← tierOf_rowTiers]
          simpa using List.find?_some h
        have hbound : boundTo proven c = true :=
          (List.mem_filter.mp (List.mem_of_find?_eq_some hown)).2
        rw [List.find?_filter] at hown
        rw [← hown]
        refine List.find?_congr fun d _ => ?_
        -- a row of this tier is a binding, as this one is
        cases hd : boundTo proven d with
        | true => simp
        | false =>
            have hne : claimTier ev poll now d ≠ some t := by
              intro hd'
              have hle := (claimTier_le_one_iff hverified htier).mpr hbound
              rw [(claimTier_le_one_iff hverified hd').mp hle] at hd
              cases hd
            simpa [tierOf_rowTiers] using hne
  · rcases firstWindow_cases ev poll now rows with
      ⟨-, hnil⟩ | ⟨k, hbefore, -, hwindow⟩
    · rw [hnil] at h
      cases h
    · rw [hwindow] at h
      refine find?_of_drop_take (fun d hd => ?_) h
      -- what stands before the window is in one of the windows without a candidate
      rcases List.mem_take_iff_getElem.mp hd with ⟨i, hi, rfl⟩
      have hmem := mem_windowAt (List.getElem?_eq_getElem (l := rows) (i := i) (by omega))
      have hlt : i / claimWindow < k := by
        rw [Nat.div_lt_iff_lt_mul (by decide), Nat.mul_comm]
        omega
      have hno := List.any_eq_false.mp (hbefore _ hlt) _ hmem
      rw [Bool.not_eq_true, ← claimTier_eq_none_iff, ← tierOf_rowTiers] at hno
      simp [hno]

theorem key_inj {a b : ReadyRow} (ha : a ∈ readyRows now db) (hb : b ∈ readyRows now db)
    (h : a.key = b.key) : a = b := by
  rcases List.mem_map.mp ha with ⟨j, hj, rfl⟩
  rcases List.mem_map.mp hb with ⟨j', hj', rfl⟩
  rw [QueueDb.readyQueue, List.mem_insertionSort, List.mem_filter] at hj hj'
  rw [List.inj_on_of_nodup_map db.jobs.nodup hj.1 hj'.1 h]

end Claim

/-! ## A crowded queue -/

/-- A ready job with some labels. -/
def readyJob (order : Nat) (runsOn : List String) : QueueJob where
  runId := order
  jobId := "build"
  namespaceId := "default"
  poolKey := ""
  queueState := .ready
  status := .queued
  runsOn := runsOn
  runnerGroup := none
  priority := 0
  runOrder := order
  jobOrder := 0
  enqueuedAt := some 1
  claimedBy := none
  claimedAt := none

/-- 64 jobs for a hosted image and one for a machine with a GPU behind them. -/
def crowdedJobs : List QueueJob :=
  ((List.range 64).map fun order => readyJob order ["ubuntu-latest"]) ++
    [readyJob 64 ["linux", "gpu"]]

/-- The tables with these jobs, none of them assigned. -/
def crowdedDb : QueueDb where
  jobs := ⟨crowdedJobs, by decide⟩
  assignments _ := none
  provisionRequestedAt _ := none
  runners _ := false
  namespaceState _ := none
  maxRunningJobs _ := none
  poolMaxRunningJobs _ _ := none

/-- A Linux machine with a GPU. -/
def gpuPoll : ClaimPoll where
  runnerId := none
  verifiedRunnerId := none
  caps := ⟨true, ["self-hosted", "linux", "gpu"], none, none⟩
  requireAssignments := false

end Preloop
