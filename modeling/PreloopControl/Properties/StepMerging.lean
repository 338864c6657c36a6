import PreloopControl.Lib.Commuting
import PreloopControl.Worker.StepMerging

/-!
# Step Records do not Depend on the Order of Delivery

What a record says of the progress of its step, its status and conclusion and its two times,
is the same for every order in which the updates come and however often they come, as long
as the updates of a step do not contradict each other. On the way no status goes back and no
conclusion is lost, and a cancelled job is left with one completed record for every step
that was dispatched.

The progress of a step is a join of what the updates say, field by field, as long as the updates
agree. Joins do not care for order or repetition, which is said in general in `Lib.Commuting`.

## Main definitions

* `Progress`, `Progress.merge`: What a record says of a step, and what an update adds to it.
* `progressOf`: The progress of every step.
* `PartialStepUpdate.Agrees`: Two updates do not contradict each other.

## Theorems

* `progressOf_applyStepUpdate`: Updates of records are updates of progress.
* `commuting_advanceProgress`: Updates that agree commute.
* `reconcile_spec`: The records of a cancelled job.
* `step_records_confluent`: All of it.
-/

namespace Preloop

namespace Worker

/-! ## Progress -/

/-- What a record says of its step but for its number and name. -/
@[ext]
structure Progress where
  status : Nat
  conclusion : Nat
  startedAt : Option Text
  completedAt : Option Text
deriving DecidableEq

def StepUpdate.progress (r : StepUpdate) : Progress :=
  ⟨r.status, r.conclusion, r.startedAt, r.completedAt⟩

namespace PartialStepUpdate

/-- The started time an update carries. -/
def started (u : PartialStepUpdate) : Option Text := if u.hasStartedAt then u.startedAt else none

/-- The completed time an update carries. -/
def completed (u : PartialStepUpdate) : Option Text :=
  if u.hasCompletedAt then u.completedAt else none

/-- The status of an update is in progress or completed, if it carries one. -/
def Reported (u : PartialStepUpdate) : Prop :=
  ∀ status, u.status = some status → status = statusInProgress ∨ status = statusCompleted

/-- Two updates of a step carry the same times and the same conclusion, if they carry them. -/
structure Agrees (u v : PartialStepUpdate) : Prop where
  started : ∀ t t', u.started = some t → v.started = some t' → t = t'
  completed : ∀ t t', u.completed = some t → v.completed = some t' → t = t'
  conclusion : ∀ c c', u.conclusion = some c → v.conclusion = some c' → c ≠ 0 → c' ≠ 0 → c = c'

end PartialStepUpdate

namespace Progress

/-- Nothing was reported. -/
def blank : Progress := ⟨0, 0, none, none⟩

/-- The status that stands higher. -/
def mergeStatus (status : Nat) : Option Nat → Nat
  | some incoming => if statusRank status ≤ statusRank incoming then incoming else status
  | none => status

/-- The conclusion that is one. -/
def mergeConclusion (conclusion : Nat) : Option Nat → Nat
  | some incoming => if incoming ≠ 0 ∨ conclusion = 0 then incoming else conclusion
  | none => conclusion

/-- What an update adds. -/
def merge (p : Progress) (u : PartialStepUpdate) : Progress where
  status := mergeStatus p.status u.status
  conclusion := mergeConclusion p.conclusion u.conclusion
  startedAt := p.startedAt.or u.started
  completedAt := u.completed.or p.completedAt

end Progress

/-- A conclusion is never erased, so that there is none to put back at the end. -/
theorem repair_mergeConclusion (conclusion : Nat) (incoming : Option Nat) (p : Prop) [Decidable p] :
    (if p ∧ Progress.mergeConclusion conclusion incoming = 0 then
        ((some conclusion).filter (· ≠ 0)).getD (Progress.mergeConclusion conclusion incoming)
      else Progress.mergeConclusion conclusion incoming) =
    Progress.mergeConclusion conclusion incoming := by
  by_cases hzero : p ∧ Progress.mergeConclusion conclusion incoming = 0
  · have hconclusion : conclusion = 0 := by
      -- the merged conclusion is none, so that the one before it was none
      have hmerged := hzero.2
      unfold Progress.mergeConclusion at hmerged
      cases incoming with
      | none => exact hmerged
      | some c =>
          by_cases hc : c ≠ 0 ∨ conclusion = 0
          · simp only [if_pos hc] at hmerged
            exact hc.resolve_left (not_not.mpr hmerged)
          · simp only [if_neg hc] at hmerged
            exact hmerged
    rw [if_pos hzero, hconclusion]
    rfl
  · rw [if_neg hzero]

/-- The merge of records is the merge of what they say. -/
theorem progress_mergeStepUpdate (existing : Option StepUpdate) (u : PartialStepUpdate) :
    (mergeStepUpdate existing u).progress =
      ((existing.map StepUpdate.progress).getD .blank).merge u := by
  -- each part of the record is merged for itself
  have hstarted : ∀ t : Option Text,
      (if u.hasStartedAt && t.isNone then u.startedAt else t) = t.or u.started := by
    intro t
    unfold PartialStepUpdate.started
    cases u.hasStartedAt <;> cases t <;> simp
  have hcompleted : ∀ t : Option Text,
      (if u.hasCompletedAt then u.completedAt.or t else t) = u.completed.or t := by
    intro t
    unfold PartialStepUpdate.completed
    cases u.hasCompletedAt <;> simp
  have hstatus : Progress.mergeStatus (u.status.getD 0) u.status =
      Progress.mergeStatus 0 u.status := by
    unfold Progress.mergeStatus
    cases u.status with
    | none => rfl
    | some status => simp [show statusRank 0 = 0 from rfl]
  cases existing with
  | none =>
      -- the repair at the end changes nothing that the merge has decided
      have hconclusion : ∀ c : Option Nat,
          (if Progress.mergeStatus (u.status.getD 0) u.status = statusCompleted ∧
              Progress.mergeConclusion 0 u.conclusion = 0 then
            c.getD (Progress.mergeConclusion 0 u.conclusion)
          else Progress.mergeConclusion 0 u.conclusion) = Progress.mergeConclusion 0 u.conclusion ∨
            c ≠ none := by
        intro c
        cases c <;> simp
      exact Progress.ext hstatus ((hconclusion none).resolve_right (by simp)) (hstarted none)
        (hcompleted none)
  | some r =>
      exact Progress.ext rfl (repair_mergeConclusion r.conclusion u.conclusion _)
        (hstarted r.startedAt) (hcompleted r.completedAt)

/-! ## Updates -/

/-- The progress of every step that has a record. -/
def progressOf (store : SortedMap Text StepUpdate) (k : Text) : Option Progress :=
  (store.lookup k).map StepUpdate.progress

/-- An update of progress. -/
def advanceProgress (p : Text → Option Progress) (u : PartialStepUpdate) : Text → Option Progress :=
  Function.update p u.externalId (some (((p u.externalId).getD .blank).merge u))

/-- Updates of records are updates of progress. -/
theorem progressOf_applyStepUpdate (store : SortedMap Text StepUpdate) (u : PartialStepUpdate) :
    progressOf (applyStepUpdate store u) = advanceProgress (progressOf store) u := by
  funext k
  unfold progressOf applyStepUpdate advanceProgress
  rw [SortedMap.lookup_insert]
  by_cases hk : u.externalId = k
  · subst hk
    rw [if_pos rfl, Function.update_self, Option.map_some, progress_mergeStepUpdate]
  · rw [if_neg hk, Function.update_of_ne (Ne.symm hk)]

/-- Updates one after the other. -/
def applyAll (store : SortedMap Text StepUpdate) (us : List PartialStepUpdate) :
    SortedMap Text StepUpdate := us.foldl applyStepUpdate store

theorem progressOf_applyAll (store : SortedMap Text StepUpdate) (us : List PartialStepUpdate) :
    progressOf (applyAll store us) = us.foldl advanceProgress (progressOf store) := by
  unfold applyAll
  induction us generalizing store with
  | nil => rfl
  | cons u us ih => rw [List.foldl_cons, List.foldl_cons, ih, progressOf_applyStepUpdate]

/-! ## Order -/

theorem mergeStatus_comm {s : Nat} {a b : Option Nat}
    (ha : ∀ i, a = some i → i = statusInProgress ∨ i = statusCompleted)
    (hb : ∀ i, b = some i → i = statusInProgress ∨ i = statusCompleted) :
    Progress.mergeStatus (Progress.mergeStatus s a) b =
      Progress.mergeStatus (Progress.mergeStatus s b) a := by
  have hprogress : statusRank statusInProgress = 1 := rfl
  have hcompleted : statusRank statusCompleted = 2 := rfl
  have hrank : statusRank s ≤ 1 ∧ statusRank s ≤ 2 ∨ statusRank s = 2 ∧ s = statusCompleted := by
    unfold statusRank
    by_cases h : s = statusInProgress
    · rw [if_pos h]
      exact .inl ⟨le_rfl, one_le_two⟩
    · by_cases h' : s = statusCompleted
      · rw [if_neg h, if_pos h']
        exact .inr ⟨rfl, h'⟩
      · rw [if_neg h, if_neg h']
        exact .inl ⟨Nat.zero_le 1, Nat.zero_le 2⟩
  unfold Progress.mergeStatus
  cases a with
  | none => rfl
  | some i =>
    cases b with
    | none => rfl
    | some j =>
      rcases ha i rfl with rfl | rfl <;> rcases hb j rfl with rfl | rfl <;>
        rcases hrank with hrank | ⟨hrank, rfl⟩ <;> simp [hprogress, hcompleted, hrank]

theorem mergeConclusion_comm {s : Nat} {a b : Option Nat}
    (h : ∀ c c', a = some c → b = some c' → c ≠ 0 → c' ≠ 0 → c = c') :
    Progress.mergeConclusion (Progress.mergeConclusion s a) b =
      Progress.mergeConclusion (Progress.mergeConclusion s b) a := by
  unfold Progress.mergeConclusion
  cases a with
  | none => rfl
  | some c =>
    cases b with
    | none => rfl
    | some c' =>
      by_cases hc : c = 0
      · by_cases hc' : c' = 0
        · rw [hc, hc']
        · by_cases hs : s = 0 <;> simp [hc, hc', hs]
      · by_cases hc' : c' = 0
        · by_cases hs : s = 0 <;> simp [hc, hc', hs]
        · rw [h c c' rfl rfl hc hc']

theorem or_or_comm {α : Type} {x a b : Option α}
    (h : ∀ t t', a = some t → b = some t' → t = t') : (x.or a).or b = (x.or b).or a := by
  cases x with
  | some _ => rfl
  | none =>
    cases a with
    | none => cases b <;> rfl
    | some t =>
      cases b with
      | none => rfl
      | some t' => rw [h t t' rfl rfl]

/-- Updates that do not contradict each other can change places. -/
theorem Progress.merge_comm {u v : PartialStepUpdate} (hu : u.Reported) (hv : v.Reported)
    (h : u.Agrees v) (p : Progress) : (p.merge u).merge v = (p.merge v).merge u := by
  have hcompleted : v.completed.or (u.completed.or p.completedAt) =
      u.completed.or (v.completed.or p.completedAt) := by
    rw [← Option.or_assoc, ← Option.or_assoc]
    congr 1
    have hswap := or_or_comm (x := none) fun t t' ht ht' => h.completed t t' ht ht'
    simpa using hswap.symm
  exact Progress.ext (mergeStatus_comm hu hv) (mergeConclusion_comm h.conclusion)
    (or_or_comm h.started) hcompleted

/-- An update adds nothing the second time. -/
theorem Progress.merge_idem (u : PartialStepUpdate) (p : Progress) :
    (p.merge u).merge u = p.merge u := by
  have hstatus : mergeStatus (mergeStatus p.status u.status) u.status =
      mergeStatus p.status u.status := by
    unfold mergeStatus
    cases u.status with
    | none => rfl
    | some i =>
        simp only
        by_cases hle : statusRank p.status ≤ statusRank i
        · rw [if_pos hle, if_pos le_rfl]
        · rw [if_neg hle, if_neg hle]
  have hconclusion : mergeConclusion (mergeConclusion p.conclusion u.conclusion) u.conclusion =
      mergeConclusion p.conclusion u.conclusion := by
    -- a conclusion is kept unless there was none
    unfold mergeConclusion
    cases u.conclusion with
    | none => rfl
    | some c =>
        simp only
        by_cases hc : c ≠ 0 ∨ p.conclusion = 0
        · rw [if_pos hc]
          split <;> rfl
        · rw [if_neg hc, if_neg hc]
  have hstarted : (p.startedAt.or u.started).or u.started = p.startedAt.or u.started := by
    rw [Option.or_assoc, Option.or_self]
  have hcompleted : u.completed.or (u.completed.or p.completedAt) =
      u.completed.or p.completedAt := by
    rw [← Option.or_assoc, Option.or_self]
  exact Progress.ext hstatus hconclusion hstarted hcompleted

/-- Updates that agree commute, and those of different steps do anyway. -/
theorem commuting_advanceProgress {us : List PartialStepUpdate} (hreported : ∀ u ∈ us, u.Reported)
    (hagree : ∀ u ∈ us, ∀ v ∈ us, u.externalId = v.externalId → u.Agrees v) :
    Commuting advanceProgress us := by
  refine ⟨fun u hu v hv p => ?_, fun u _ p => ?_⟩
  · unfold advanceProgress
    by_cases hid : u.externalId = v.externalId
    · rw [hid]
      simp only [Function.update_self, Function.update_idem, Option.getD_some]
      rw [Progress.merge_comm (hreported u hu) (hreported v hv) (hagree u hu v hv hid)]
    · rw [Function.update_of_ne (Ne.symm hid), Function.update_of_ne hid,
        Function.update_comm hid]
  · unfold advanceProgress
    rw [Function.update_self, Function.update_idem, Option.getD_some, Progress.merge_idem]

/-! ## Runs -/

/-- An update takes no status back and no conclusion away. -/
theorem Progress.merge_forward (p : Progress) (u : PartialStepUpdate) :
    statusRank p.status ≤ statusRank (p.merge u).status ∧
      (p.conclusion ≠ 0 → (p.merge u).conclusion ≠ 0) := by
  refine ⟨?_, fun hp => ?_⟩
  · change _ ≤ statusRank (mergeStatus p.status u.status)
    unfold mergeStatus
    cases u.status with
    | none => exact le_rfl
    | some i =>
        simp only
        by_cases hle : statusRank p.status ≤ statusRank i
        · rw [if_pos hle]
          exact hle
        · rw [if_neg hle]
  · change mergeConclusion p.conclusion u.conclusion ≠ 0
    unfold mergeConclusion
    cases u.conclusion with
    | none => exact hp
    | some c =>
        simp only
        by_cases hc : c ≠ 0 ∨ p.conclusion = 0
        · rw [if_pos hc]
          exact hc.resolve_right hp
        · rw [if_neg hc]
          exact hp

/-- A record of a step is one of its later records' past. -/
def Forward (r r' : StepUpdate) : Prop :=
  statusRank r.status ≤ statusRank r'.status ∧ (r.conclusion ≠ 0 → r'.conclusion ≠ 0)

/-- Progress does not go back. -/
theorem applyAll_forward {us : List PartialStepUpdate} {store : SortedMap Text StepUpdate}
    {k : Text}
    {r : StepUpdate} (h : store.lookup k = some r) :
    ∃ r', (applyAll store us).lookup k = some r' ∧ Forward r r' := by
  induction us generalizing store r with
  | nil => exact ⟨r, h, le_rfl, id⟩
  | cons u us ih =>
      have hnext : ∃ r₁, (applyStepUpdate store u).lookup k = some r₁ ∧ Forward r r₁ := by
        unfold applyStepUpdate
        rw [SortedMap.lookup_insert]
        by_cases hk : u.externalId = k
        · rw [if_pos hk, hk, h]
          refine ⟨_, rfl, ?_⟩
          have hmerge := progress_mergeStepUpdate (some r) u
          have hforward := r.progress.merge_forward u
          rw [show r.progress.merge u = _ from hmerge.symm] at hforward
          exact hforward
        · rw [if_neg hk]
          exact ⟨r, h, le_rfl, id⟩
      rcases hnext with ⟨r₁, hr₁, hrank₁, hconclusion₁⟩
      rcases ih hr₁ with ⟨r', hr', hrank', hconclusion'⟩
      exact ⟨r', hr', hrank₁.trans hrank', fun hne => hconclusion' (hconclusion₁ hne)⟩

/-- Every update that came is in the record of its step: it stands no lower than the update, and
    has a conclusion if the update has one. -/
theorem applyAll_carries {us : List PartialStepUpdate} {store : SortedMap Text StepUpdate}
    {u : PartialStepUpdate} (hu : u ∈ us) :
    ∃ r, (applyAll store us).lookup u.externalId = some r ∧
      (∀ status, u.status = some status → statusRank status ≤ statusRank r.status) ∧
      ∀ c, u.conclusion = some c → c ≠ 0 → r.conclusion ≠ 0 := by
  -- what came before the update is in the store, and what came after it only goes forward
  rcases List.append_of_mem hu with ⟨before, after, rfl⟩
  have hlookup : (applyStepUpdate (applyAll store before) u).lookup u.externalId =
      some (mergeStepUpdate ((applyAll store before).lookup u.externalId) u) := by
    unfold applyStepUpdate
    rw [SortedMap.lookup_insert, if_pos rfl]
  rcases applyAll_forward hlookup with ⟨r, (hr : (applyAll _ after).lookup _ = _), hrank,
    hconclusion⟩
  have hmerge := progress_mergeStepUpdate ((applyAll store before).lookup u.externalId) u
  refine ⟨r, ?_, fun status hstatus => ?_, fun c hc hne => ?_⟩
  · unfold applyAll at hr ⊢
    rw [List.foldl_append, List.foldl_cons]
    exact hr
  · have hmerged := congrArg Progress.status hmerge
    refine le_trans ?_ hrank
    change statusRank status ≤ statusRank (mergeStepUpdate _ u).progress.status
    rw [hmerged, Progress.merge, hstatus]
    unfold Progress.mergeStatus
    dsimp only
    split
    · exact le_rfl
    · next hlt => exact (not_le.mp hlt).le
  · have hmerged := congrArg Progress.conclusion hmerge
    refine hconclusion ?_
    change (mergeStepUpdate _ u).progress.conclusion ≠ 0
    rw [hmerged, Progress.merge, hc]
    unfold Progress.mergeConclusion
    dsimp only
    rw [if_pos (.inl hne)]
    exact hne

/-- Records stand under their own identifiers. -/
def Keyed (store : SortedMap Text StepUpdate) : Prop :=
  ∀ k r, store.lookup k = some r → r.externalId = k

theorem keyed_applyAll {us : List PartialStepUpdate} {store : SortedMap Text StepUpdate}
    (h : Keyed store) : Keyed (applyAll store us) := by
  induction us generalizing store with
  | nil => exact h
  | cons u us ih =>
      refine ih fun k r hr => ?_
      unfold applyStepUpdate at hr
      rw [SortedMap.lookup_insert] at hr
      by_cases hk : u.externalId = k
      · rw [if_pos hk] at hr
        rw [← Option.some.inj hr, ← hk]
        rfl
      · rw [if_neg hk] at hr
        exact h k r hr

/-! ## Cancellation -/

theorem reconciled_externalId {received : SortedMap Text StepUpdate} (h : Keyed received)
    (completedAt : Text) (task : DispatchedTask) :
    (reconciled received completedAt task).externalId = task.externalId ∧
      (reconciled received completedAt task).status = statusCompleted := by
  unfold reconciled
  cases hlookup : received.lookup task.externalId with
  | none => exact ⟨rfl, rfl⟩
  | some existing =>
      have hid : existing.externalId = task.externalId := h _ _ hlookup
      simp only
      by_cases hstatus : existing.status = statusCompleted
      · rw [if_pos hstatus]
        exact ⟨hid, hstatus⟩
      · rw [if_neg hstatus]
        exact ⟨hid, rfl⟩

/-- What stands under a key after a loop of insertions was inserted there, or was there. -/
theorem lookup_foldl_insert {K V T : Type} [LinearOrder K] (key : T → K) (value : T → V)
    (tasks : List T) (m : SortedMap K V) (k : K) :
    (∃ task ∈ tasks, key task = k ∧
      (tasks.foldl (fun (m : SortedMap K V) t => m.insert (key t) (value t)) m).lookup k =
        some (value task)) ∨
    ((∀ task ∈ tasks, key task ≠ k) ∧
      (tasks.foldl (fun (m : SortedMap K V) t => m.insert (key t) (value t)) m).lookup k =
        m.lookup k) := by
  induction tasks generalizing m with
  | nil => exact .inr ⟨fun task h => absurd h List.not_mem_nil, rfl⟩
  | cons t tasks ih =>
      rw [List.foldl_cons]
      rcases ih (m.insert (key t) (value t)) with ⟨task, hmem, hkey, hlookup⟩ | ⟨hnone, hlookup⟩
      · exact .inl ⟨task, List.mem_cons_of_mem t hmem, hkey, hlookup⟩
      · rw [SortedMap.lookup_insert] at hlookup
        by_cases hk : key t = k
        · rw [if_pos hk] at hlookup
          exact .inl ⟨t, List.mem_cons_self, hk, hlookup⟩
        · rw [if_neg hk] at hlookup
          refine .inr ⟨fun task h => ?_, hlookup⟩
          rcases List.mem_cons.mp h with rfl | h
          · exact hk
          · exact hnone task h

/-- What a cancelled job is left with: one completed record for every dispatched step. -/
structure Reconciled (dispatched : List DispatchedTask) (received : SortedMap Text StepUpdate)
    (records : List StepUpdate) : Prop where
  one : (records.map StepUpdate.externalId).Nodup
  steps : ∀ k, k ∈ records.map StepUpdate.externalId ↔ k ∈ dispatched.map DispatchedTask.externalId
  completed : ∀ r ∈ records, r.status = statusCompleted
  ordered : records.Pairwise fun a b => a.number ≤ b.number
  kept : ∀ k r, k ∈ dispatched.map DispatchedTask.externalId → received.lookup k = some r →
    r.status = statusCompleted → r ∈ records

theorem reconcile_spec (dispatched : List DispatchedTask) {received : SortedMap Text StepUpdate}
    (h : Keyed received) (completedAt : Text) :
    Reconciled dispatched received (reconcileCancelledSteps dispatched received completedAt) := by
  unfold reconcileCancelledSteps
  have hlookup := lookup_foldl_insert DispatchedTask.externalId
    (reconciled received completedAt) dispatched ∅
  generalize dispatched.foldl (fun (out : SortedMap Text StepUpdate) task =>
    out.insert task.externalId (reconciled received completedAt task)) ∅ = out at hlookup
  -- every entry is the record of a dispatched task, under its identifier
  have hentry : ∀ k r, (k, r) ∈ out.entries ↔ out.lookup k = some r :=
    fun k r => ⟨SortedMap.lookup_of_mem, SortedMap.mem_of_lookup⟩
  have htask : ∀ k r, out.lookup k = some r → ∃ task ∈ dispatched, task.externalId = k ∧
      r = reconciled received completedAt task := by
    intro k r hr
    rcases hlookup k with ⟨task, hmem, hkey, hfound⟩ | ⟨-, hfound⟩
    · exact ⟨task, hmem, hkey, Option.some.inj (hr.symm.trans hfound)⟩
    · rw [hfound] at hr
      cases hr
  have hids : (out.entries.map (·.2)).map StepUpdate.externalId = out.entries.map (·.1) := by
    rw [List.map_map]
    refine List.map_congr_left fun e he => ?_
    rcases htask e.1 e.2 ((hentry e.1 e.2).mp he) with ⟨task, -, hkey, hr⟩
    change e.2.externalId = e.1
    rw [hr, (reconciled_externalId h completedAt task).1, hkey]
  have hperm := List.mergeSort_perm (out.entries.map (·.2))
    fun a b : StepUpdate => decide (a.number ≤ b.number)
  refine ⟨?_, fun k => ?_, fun r hr => ?_, ?_, fun k r hk hr hstatus => ?_⟩
  · refine (hperm.map StepUpdate.externalId).nodup_iff.mpr ?_
    rw [hids]
    exact List.pairwise_map.mpr (out.sorted.imp ne_of_lt)
  · rw [(hperm.map StepUpdate.externalId).mem_iff, hids]
    constructor
    · intro hk
      rcases List.mem_map.mp hk with ⟨e, he, rfl⟩
      rcases htask e.1 e.2 ((hentry e.1 e.2).mp he) with ⟨task, hmem, hkey, -⟩
      exact List.mem_map.mpr ⟨task, hmem, hkey⟩
    · intro hk
      rcases List.mem_map.mp hk with ⟨task, hmem, hkey⟩
      rcases hlookup k with ⟨task', -, -, hfound⟩ | ⟨hnone, -⟩
      · exact List.mem_map.mpr ⟨(k, _), (hentry k _).mpr hfound, rfl⟩
      · exact absurd hkey (hnone task hmem)
  · rcases List.mem_map.mp (hperm.mem_iff.mp hr) with ⟨e, he, rfl⟩
    rcases htask e.1 e.2 ((hentry e.1 e.2).mp he) with ⟨task, -, -, heq⟩
    rw [heq]
    exact (reconciled_externalId h completedAt task).2
  · have hsorted : ((out.entries.map (·.2)).mergeSort fun a b => a.number ≤ b.number).Pairwise
        fun a b => decide (a.number ≤ b.number) = true := by
      refine List.pairwise_mergeSort (fun a b c hab hbc => ?_) (fun a b => ?_) _
      · simp only [decide_eq_true_eq] at hab hbc ⊢
        omega
      · simp only [Bool.or_eq_true, decide_eq_true_eq]
        omega
    exact hsorted.imp fun hab => of_decide_eq_true hab
  · refine hperm.mem_iff.mpr ?_
    rcases hlookup k with ⟨task, -, hkey, hfound⟩ | ⟨hnone, -⟩
    · have hsame : reconciled received completedAt task = r := by
        unfold reconciled
        rw [hkey, hr]
        simp only
        rw [if_pos hstatus]
      rw [hsame] at hfound
      exact List.mem_map.mpr ⟨(k, r), (hentry k r).mpr hfound, rfl⟩
    · rcases List.mem_map.mp hk with ⟨task, hmem, hkey⟩
      exact absurd hkey (hnone task hmem)

/-- Updates that do not contradict each other give every step the same progress in whatever
order and however often they come; nothing goes back on the way, and a cancelled job is left
with a completed record for every dispatched step. -/
theorem step_records_confluent (updates : List PartialStepUpdate)
    (hreported : ∀ u ∈ updates, u.Reported)
    (hagree : ∀ u ∈ updates, ∀ v ∈ updates, u.externalId = v.externalId → u.Agrees v)
    (delivered : List PartialStepUpdate) (hdelivered : ∀ u, u ∈ delivered ↔ u ∈ updates) :
    (∀ k, progressOf (applyAll ∅ delivered) k = progressOf (applyAll ∅ updates) k) ∧
    (∀ before between after, delivered = before ++ between ++ after →
      ∀ k r, (applyAll ∅ before).lookup k = some r →
        ∃ r', (applyAll ∅ (before ++ between)).lookup k = some r' ∧ Forward r r') ∧
    ∀ dispatched completedAt, Reconciled dispatched (applyAll ∅ delivered)
      (reconcileCancelledSteps dispatched (applyAll ∅ delivered) completedAt) := by
  refine ⟨fun k => ?_, fun before between after _ k r hr => ?_, fun dispatched completedAt => ?_⟩
  · rw [progressOf_applyAll, progressOf_applyAll,
      (commuting_advanceProgress hreported hagree).foldl_congr hdelivered]
  · rw [applyAll, List.foldl_append]
    exact applyAll_forward hr
  · exact reconcile_spec dispatched (keyed_applyAll fun k r hr => by cases hr) completedAt

/-- A step is started. -/
def startReport : PartialStepUpdate where
  externalId := ['s']
  number := some 1
  name := none
  status := some statusInProgress
  startedAt := some ['t']
  hasStartedAt := true
  completedAt := none
  hasCompletedAt := false
  conclusion := none

/-- The step is completed; its start is left out. -/
def endReport : PartialStepUpdate :=
  { startReport with
    status := some statusCompleted
    startedAt := none
    completedAt := some ['u']
    hasCompletedAt := true
    conclusion := some 2 }

/-- The end comes first, and twice. -/
theorem step_records_confluent_late :
    (∀ k, progressOf (applyAll ∅ [endReport, startReport, endReport]) k =
      progressOf (applyAll ∅ [startReport, endReport]) k) ∧
    (∀ before between after, [endReport, startReport, endReport] = before ++ between ++ after →
      ∀ k r, (applyAll ∅ before).lookup k = some r →
        ∃ r', (applyAll ∅ (before ++ between)).lookup k = some r' ∧ Forward r r') ∧
    ∀ dispatched completedAt, Reconciled dispatched
      (applyAll ∅ [endReport, startReport, endReport])
        (reconcileCancelledSteps dispatched
          (applyAll ∅ [endReport, startReport, endReport]) completedAt) := by
  have htwo : ∀ u ∈ [startReport, endReport], u = startReport ∨ u = endReport := by simp
  refine step_records_confluent [startReport, endReport] (fun u hu status h => ?_)
    (fun u hu v hv _ => ⟨?_, ?_, ?_⟩) _ (by simp)
  · rcases htwo u hu with rfl | rfl
    · exact .inl (Option.some.inj h).symm
    · exact .inr (Option.some.inj h).symm
  all_goals
    intro a b ha hb
    rcases htwo u hu with rfl | rfl <;> rcases htwo v hv with rfl | rfl <;>
      simp_all [startReport, endReport, PartialStepUpdate.started, PartialStepUpdate.completed]

end Worker

end Preloop
