import PreloopControl.Discipline.Settle
import PreloopControl.Promote

/-!
# Promotion Follows the Discipline

The sweep and the hand-over of a group. The sweep works on rows it read at the
start of a pass, and no job row is inserted or deleted inside a pass, so the
fixed part of every row is still what it was: that fact is added to the
invariant for the length of a pass.

The recursion of the program is tied here too: the hand-over of a group follows
the discipline at every depth, by induction on the bound.

## Theorems

* `acquireJobGate_spec`, `advanceJobset_spec`: The concurrency gates.
* `promoteRun_spec`: The sweep.
* `promoteNextInGroup_handsOver`: The hand-over.
-/

namespace Preloop

open Txn

/-! ## Facts no nested statement changes -/

theorem JobWrite.write_frozen (w : JobWrite) (row : Job) : (w.write row).frozen = row.frozen := by
  cases w <;> rfl

theorem Stmt.onJob_frozen (st : Stmt) (s : Db) (row : Job) :
    (st.onJob s row).frozen = row.frozen := by
  cases st with
  | job w r j =>
      simp only [Stmt.onJob]
      split
      · exact w.write_frozen row
      · rfl
  | cancelRunJobs r => simp only [Stmt.onJob]; split <;> rfl
  | expireRunJobs r => simp only [Stmt.onJob]; split <;> rfl
  | refreshRemainingNeeds r settled base => simp only [Stmt.onJob]; split <;> rfl
  | refreshRunRemainingNeeds r => simp only [Stmt.onJob]; split <;> rfl
  | resumeExpansions => simp only [Stmt.onJob]; split <;> rfl
  | _ => rfl

theorem frozen_apply {s0 s s' : Db} {st : Stmt} (hin : st.inner = true)
    (happly : st.apply s = .ok s') (h : Frozen s0 s) : Frozen s0 s' := by
  intro r j
  rcases jobs_apply happly r j with hmap | ⟨row, hins, _⟩ | ⟨r0, rfl, _⟩
  · have hfun : Job.frozen ∘ st.onJob s = Job.frozen := funext fun row => st.onJob_frozen s row
    rw [hmap, Option.map_map, hfun]
    exact h r j
  · rcases hins with rfl | rfl <;> exact absurd hin Bool.false_ne_true
  · exact absurd hin Bool.false_ne_true

/-- The job set under an id already handed out keeps its members. -/
def SetIs (id : Nat) (r : RunId) (jobIds : List JobId) (s : Db) : Prop :=
  id < s.nextJobset ∧
    ∀ set, s.jobsets.get id = some set → set.runId = r ∧ set.jobIds = jobIds

theorem setIs_apply {id : Nat} {r : RunId} {jobIds : List JobId} {s s' : Db} {st : Stmt}
    (happly : st.apply s = .ok s') (h : SetIs id r jobIds s) : SetIs id r jobIds s' := by
  obtain ⟨hlt, hset⟩ := h
  refine ⟨?_, fun set' hset' => ?_⟩
  · rcases nextJobset_apply happly with heq | ⟨_, _, _, heq⟩ <;> omega
  · rcases jobset_of_apply happly hset' with ⟨set, hget, hr, hids⟩ | ⟨_, hid, _⟩
    · rw [hr, hids]
      exact hset set hget
    · omega

/-- A gate that holds a job back is armed. -/
theorem evaluateEnvironmentGate_wait {ev : Evaluators} {lookup : EnvironmentLookup}
    {gitRef name : String} {gate gate' : Option EnvironmentGateState} {now : Int}
    (h : evaluateEnvironmentGate ev lookup gitRef name gate now = (.wait, gate')) :
    gate'.isSome = true := by
  unfold evaluateEnvironmentGate at h
  split at h
  · exact absurd (congrArg Prod.fst h) (by simp only [reduceCtorEq, not_false_eq_true])
  · dsimp only at h
    repeat' split at h
    all_goals
      first
      | (rw [Prod.mk.injEq] at h; rw [← h.2]; rfl)
      | exact absurd (congrArg Prod.fst h) (by simp only [reduceCtorEq, not_false_eq_true])

section Gates

variable {P : Pending → Db → Prop} {rr : RunId → Prop} {c : Contract Stmt Db}
variable {promoteNext : GroupKey → Option String → Cmd Unit}
variable (hpn : HandsOver rr c promoteNext) (K : KeptInside P rr c) {x : Pending}

/-! ## The concurrency gates -/

/-- What the outcome of a job's own gate says. -/
def Gated (P : Pending → Db → Prop) (x : Pending) (r : RunId) (j : JobId) : GateOutcome → Db → Prop
  | .proceed, s => P x s
  | .parked, s => P x s ∧ s.awaits (.job r j)
  | .failed status, s => status.isTerminal = true ∧ P x s

include hpn K in
theorem acquireJobGate_spec (b : Backend) (fuel : Nat) {r : RunId} {j : JobId}
    (hk : Known P rr (.job r j)) :
    Triple c (P x) (acquireJobGate b promoteNext fuel r j) (Gated P x r j) := by
  refine Triple.select fun s0 _ => ?_
  cases s0.job r j with
  | none => exact Triple.ret fun s hs => hs.2
  | some job =>
      dsimp only
      cases job.spec.concurrency with
      | none => exact Triple.ret fun s hs => hs.2
      | some raw =>
          refine Triple.select fun s1 _ => ?_
          split
          · split
            · exact Triple.ret fun s hs => ⟨rfl, hs.2.2⟩
            · refine Triple.bind ((acquire_spec K (cancelHolder_spec hpn K fuel) hk
                (F := fun _ => True)).pre fun s hs => ⟨hs.2.2, trivial⟩) fun out => ?_
              cases out with
              | acquired => exact Triple.ret fun s hs => hs.1
              | parked => exact Triple.ret fun s hs => hs
              | arrivalCancelled => exact Triple.ret fun s hs => ⟨rfl, hs.1⟩
          · exact Triple.abort

/-- What the outcome of advancing a job set says. -/
def Advanced (P : Pending → Db → Prop) (x : Pending) (r : RunId) (jobIds : List JobId) :
    Advance → Db → Prop
  | .ready, s => P x s
  | .blocked, s => P x s ∧ s.awaits (.jobSet r jobIds)
  | .fail status, s => status.isTerminal = true ∧ P x s

include hpn K in
theorem advanceGates_spec (fuel n : Nat) {set : Nat} {r : RunId} {jobIds : List JobId}
    (hset : ∀ {y s}, P y s → SetIs set r jobIds s) :
    Triple c (P x) (advanceGates promoteNext fuel n set) (Advanced P x r jobIds) := by
  -- the induction is on the gates that are left
  induction n with
  | zero => exact Triple.abort
  | succ n ih =>
      rw [advanceGates]
      refine Triple.select fun s0 _ => ?_
      cases s0.nextGate set with
      | none =>
          refine Triple.bind ((K.keep (.jobsetReady set) rfl (fun s _ => trivial)
            fun s => rfl).pre fun s hs => hs.2) fun _ => Triple.ret fun s hs => hs
      -- the next gate of the set is asked for in its turn
      | some gate =>
          refine Triple.select fun s1 hs1 => ?_
          cases hrow : s1.jobsets.get set with
          | none => exact Triple.abort
          | some row =>
              have hP : P x s1 := hs1.2
              obtain ⟨rfl, rfl⟩ := (hset hP).2 row hrow
              have hk : Known P rr (.jobSet row.runId row.jobIds) :=
                ⟨s1, ⟨x, hP⟩, .inl ⟨set, row, hrow, rfl, rfl⟩⟩
              refine Triple.select fun s2 _ => ?_
              refine Triple.bind ((acquire_spec K (cancelHolder_spec hpn K fuel) hk
                (F := fun _ => True)).pre fun s hs => ⟨hs.2.2.2, trivial⟩) fun out => ?_
              cases out with
              | acquired =>
                  refine Triple.bind ((K.keep (.acquireGate set gate.gateIndex) rfl
                    -- with the gate acquired the set goes on to the next one, else it waits or is
                    -- over
                    (fun s _ => trivial) fun s => rfl).pre fun s hs => hs.1) fun _ => ih
              | parked => exact Triple.ret fun s hs => hs
              | arrivalCancelled => exact Triple.ret fun s hs => ⟨rfl, hs.1⟩

include hpn K in
theorem advanceJobset_spec (fuel : Nat) {set : Nat} {promoted : Option GroupKey} {r : RunId}
    {jobIds : List JobId} :
    Triple c (fun s => P x s ∧ SetIs set r jobIds s)
      (advanceJobset promoteNext fuel set promoted) (Advanced P x r jobIds) := by
  have K' := K.frame (F := SetIs set r jobIds) fun _ happly hs => setIs_apply happly hs
  have hgates : Triple c (fun s => P x s ∧ SetIs set r jobIds s)
      (advanceGates promoteNext fuel fuel set) (Advanced P x r jobIds) := by
    refine (advanceGates_spec hpn K' fuel fuel fun hs => hs.2).post fun out s hs => ?_
    cases out with
    | ready => exact hs.1
    | blocked => exact ⟨hs.1.1, hs.2⟩
    | fail status => exact ⟨hs.1, hs.2.1⟩
  unfold advanceJobset
  cases promoted with
  | none => exact hgates
  | some key =>
      refine Triple.bind ?_ fun _ => hgates
      exact K.exec (.acquirePromotedGate set key.repository key.group) rfl (fun s _ _ => trivial)
        (fun s _ => rfl) fun s s' hs happly => setIs_apply happly hs

include hpn K in
theorem ensureJobset_spec (b : Backend) (fuel : Nat) {j : Job}
    (hk : Known P rr (.jobSet j.runId [j.jobId])) :
    Triple c (P x) (ensureJobset b promoteNext fuel j) (Advanced P x j.runId [j.jobId]) := by
  refine Triple.select fun s0 _ => ?_
  cases s0.run j.runId with
  | none => exact Triple.abort
  | some run =>
      dsimp only
      split
      · exact Triple.ret fun s hs => ⟨rfl, hs.2⟩
      · exact Triple.ret fun s hs => hs.2
      · next gates _ =>
          have hid : Triple c (P x) (jobsetId j.runId [j.jobId]) fun id s =>
              P x s ∧ SetIs id j.runId [j.jobId] s := by
            refine ((jobsetId_spec K hk (Ignores.any _)).pre fun s hs => ⟨hs, trivial⟩).post ?_
            rintro id s ⟨hs, _, _, set, hget, hr, hids⟩
            refine ⟨hs, (K.counters hs).jobsets id set hget, fun set' hset' => ?_⟩
            rw [hget, Option.some.injEq] at hset'
            exact hset' ▸ ⟨hr, hids⟩
          refine Triple.bind (hid.pre fun s hs => hs.2) fun id => ?_
          refine Triple.bind (Triple.forM fun gi _ => ?_) fun _ => advanceJobset_spec hpn K fuel
          obtain ⟨gate, index⟩ := gi
          exact K.exec (.insertGate ⟨id, index, gate.repository, gate.group, gate.displayName,
            gate.cancelInProgress, gate.queue, false⟩) rfl (fun s _ _ => trivial) (fun s _ => rfl)
            fun s s' hs happly => setIs_apply happly hs

end Gates

/-! ## Rows after a write -/

theorem job_after_write {w : JobWrite} {r : RunId} {j : JobId} {s s' : Db} {row' : Job}
    (happly : (Stmt.job w r j).apply s = .ok s') (hrow' : s'.job r j = some row') :
    ∃ row, s.job r j = some row ∧ row' = if w.guard row then w.write row else row := by
  rcases job_of_apply happly hrow' with ⟨row, hrow, rfl⟩ | ⟨hins, _⟩
  · refine ⟨row, hrow, ?_⟩
    have hkey : row.key = (r, j) := Table.key_of_get hrow
    simp only [Stmt.onJob, hkey, decide_true, Bool.true_and]
  · rcases hins with h | h <;> cases h

theorem job_other_write {w : JobWrite} {r r' : RunId} {j j' : JobId} {s s' : Db}
    (happly : (Stmt.job w r j).apply s = .ok s') (hne : (r', j') ≠ (r, j)) :
    s'.job r' j' = s.job r' j' := by
  rcases jobs_apply happly r' j' with hmap | ⟨row, hins, _⟩ | ⟨r0, hst, _⟩
  · rw [hmap]
    cases hrow : s.job r' j' with
    | none => rfl
    | some row =>
        have hkey : row.key = (r', j') := Table.key_of_get hrow
        simp only [Option.map_some, Stmt.onJob, hkey, decide_eq_false hne, Bool.false_and,
          Bool.false_eq_true, if_false]
  · rcases hins with h | h <;> cases h
  · cases hst

section Sweep

variable {P : Pending → Db → Prop} {rr : RunId → Prop} {c : Contract Stmt Db}
variable {promoteNext : GroupKey → Option String → Cmd Unit}
variable (hpn : HandsOver rr c promoteNext) (K : KeptInside P rr c) {x : Pending}
variable (b : Backend) (fuel : Nat)

/-- The row a pass works on, read from a database of the pass. -/
structure Candidate (P : Pending → Db → Prop) (x : Pending) (s0 : Db) (cand : Job) : Prop where
  held : P x s0
  row : s0.job cand.runId cand.jobId = some cand
  blocked : cand.queueState = .blocked
  frozen : ∀ {y s}, P y s → Frozen s0 s

theorem Candidate.swept {s0 s : Db} {cand : Job} {q : Job → Prop}
    (hc : Candidate P x s0 cand) (hq : q cand) (hs : P x s) :
    Swept P x s cand.runId cand.jobId q :=
  ⟨s0, cand, hc.held, hc.frozen hs, hc.row, hc.blocked, hq⟩

theorem Candidate.known {s0 : Db} {cand : Job} (hc : Candidate P x s0 cand) :
    Known P rr (.job cand.runId cand.jobId) :=
  .inr ⟨s0, ⟨x, hc.held⟩, .inr (.inr (.inl ⟨cand, hc.row, hc.blocked⟩))⟩

theorem Candidate.knownSet {s0 : Db} {cand : Job} (hc : Candidate P x s0 cand) :
    Known P rr (.jobSet cand.runId [cand.jobId]) :=
  ⟨s0, ⟨x, hc.held⟩, .inr (.inr (.inr ⟨cand.jobId, cand, rfl, hc.row, hc.blocked⟩))⟩

include K in
theorem Candidate.exposed {s0 : Db} {cand : Job} (hc : Candidate P x s0 cand) (h : Holder) :
    Candidate P (x.addExposed h) s0 cand :=
  ⟨K.shift (.expose x h) hc.held, hc.row, hc.blocked, hc.frozen⟩

include hpn K in
theorem sweepFail_spec {j : Job} {status : ExecutionStatus} (hst : status.isTerminal = true) :
    Triple c (P x) (sweepFail promoteNext j status)
      fun _ => P (x.addGone (.job j.runId j.jobId)) :=
  Triple.bind (settleNode_spec hpn K hst) fun _ => Triple.ret fun _ hs => hs

include hpn K in
/-- The last stage, with the job's gate possibly cleared before: the job ends
    ready, parked behind its own group or settled. -/
theorem sweepGate_spec {s0 : Db} {cand : Job} {j : Job} (hr : j.runId = cand.runId)
    (hj : j.jobId = cand.jobId) (hcall : cand.spec.reusableCall = none)
    (hmatrix : cand.spec.deferredMatrix = none) (hc : Candidate P x s0 cand) :
    Triple c (P (x.addExposed (.job j.runId j.jobId))) (sweepGate b promoteNext fuel j)
      fun _ => P x := by
  let h : Holder := .job j.runId j.jobId
  let y := x.addExposed h
  have hy : Candidate P y s0 cand := hc.exposed K h
  have hk : Known P rr h := by
    have hcand : Known P rr (.job cand.runId cand.jobId) := hc.known
    rwa [← hr, ← hj] at hcand
  have hswept : ∀ s, P y s → Swept P y s j.runId j.jobId fun row =>
      row.spec.reusableCall = none ∧ row.spec.deferredMatrix = none := by
    intro s hs
    rw [hr, hj]
    exact hy.swept ⟨hcall, hmatrix⟩ hs
  refine Triple.bind (acquireJobGate_spec hpn K b fuel hk) fun out => ?_
  cases out with
  -- the job is ready: it waits for nothing any more, so its exposure is excused
  | proceed =>
      refine Triple.bind (Q := fun _ => P x) ?_ fun _ => Triple.ret fun s hs => hs
      refine Triple.bind (Q := fun _ => P x) ?_ fun _ => emitJob_spec K (by decide)
      refine ((K.exec (.job (.enqueueReady .sweep) j.runId j.jobId) (x := y) (y := y)
        (F := fun _ => True) (G := fun s => ∀ row, s.job j.runId j.jobId = some row →
          row.queueState ≠ .held ∨ row.status.isTerminal = true) rfl
        (fun s hs _ => hswept s hs) (fun s _ => rfl) ?_).pre fun s hs => ⟨hs, trivial⟩).post
        fun _ s hs => K.shift (.excuse x h (.inr (.inr hs.2))) hs.1
      intro s s' _ happly row' hrow'
      obtain ⟨row, _, rfl⟩ := job_after_write happly hrow'
      exact .inl (by simp only [JobWrite.guard, JobWrite.write, if_true, ne_eq, reduceCtorEq,
        not_false_eq_true])
  | parked =>
      -- the job waits behind its own group, and the group has the wait that will wake it
      refine Triple.bind (Q := fun _ => P x) ?_ fun _ => Triple.ret fun s hs => hs
      refine (K.exec (.job (.park .sweepGate) j.runId j.jobId) (x := y) (y := y)
        (F := fun s => s.awaits h) (G := fun s => s.awaits h) rfl
        (fun s hs hf => ⟨hswept s hs, hf⟩) (fun s _ => rfl) ?_).post
        fun _ s hs => K.shift (.excuse x h (.inr (.inl hs.2))) hs.1
      rintro s s' ⟨id, row, hget, henc⟩ happly
      have hwaits : s'.waits = s.waits := apply_same .waits happly rfl
      exact ⟨id, row, by rw [hwaits]; exact hget,
        encodes_of_jobsets (apply_same .jobsets happly rfl) henc⟩
  | failed status =>
      -- the job failed, and a settled job is excused
      refine Triple.of_pure fun hst => (sweepFail_spec hpn K hst).post fun _ s hs => ?_
      exact K.drop (K.shift (.excuse (x.addGone h) h (.inl (List.mem_cons_self ..))) hs)

include hpn K in
theorem sweepLabels_spec {s0 : Db} {cand : Job} {j : Job} {platforms : List String}
    {runnerLabels : List (List String)} (hr : j.runId = cand.runId)
    (hj : j.jobId = cand.jobId) (hcall : cand.spec.reusableCall = none)
    (hmatrix : cand.spec.deferredMatrix = none) (hc : Candidate P x s0 cand) :
    Triple c (P (x.addExposed (.job j.runId j.jobId)))
      (sweepLabels b promoteNext fuel platforms runnerLabels j) fun _ => P x := by
  refine Triple.ite (fun _ => ?_) fun _ => sweepGate_spec hpn K b fuel hr hj hcall hmatrix hc
  refine (sweepFail_spec hpn K rfl).post fun _ s hs => ?_
  exact K.drop (K.shift (.excuse (x.addGone _) _ (.inl (List.mem_cons_self ..))) hs)

include K in
/-- Hydration writes the job's message and labels and keeps its identity. -/
theorem hydrateMessage_spec {ev : Evaluators} {graph : RunGraph} {cand : Job} :
    Triple c (P x) (hydrateMessage ev graph cand) fun out s =>
      (out.1.runId = cand.runId ∧ out.1.jobId = cand.jobId) ∧ P x s := by
  refine Triple.select fun s0 _ => ?_
  cases (s0.job cand.runId cand.jobId).bind Job.message with
  | none => exact Triple.ret fun s hs => ⟨⟨rfl, rfl⟩, hs.2⟩
  | some stored =>
      dsimp only
      -- every branch ends in the write of the message
      have hrest : ∀ (message : Message) (runsOn : List String)
          (gate : Option EnvironmentGateState) (name : Option String),
          Triple c (P x) (do
            exec (.job (.setMessage message) cand.runId cand.jobId)
            pure (({ cand with runsOn := runsOn, environmentGate := gate } : Job), name))
            fun out s => (out.1.runId = cand.runId ∧ out.1.jobId = cand.jobId) ∧ P x s :=
        fun message runsOn gate name =>
          Triple.bind (K.keep (.job (.setMessage message) cand.runId cand.jobId) rfl
            (fun s _ => trivial) fun s => rfl) fun _ => Triple.ret fun s hs => ⟨⟨rfl, rfl⟩, hs⟩
      split
      · refine Triple.bind ((K.keep (.job (.setRunsOn _) cand.runId cand.jobId) rfl
          (fun s _ => trivial) fun s => rfl).pre fun s hs => hs.2) fun _ => hrest _ _ _ _
      · exact (hrest _ _ _ _).pre fun s hs => hs.2

include K in
theorem setGate_spec {r : RunId} {j : JobId} {gate : Option EnvironmentGateState}
    (hgate : gate.isSome = true ∨ .job r j ∈ x.exposed) :
    Triple c (P x) (exec (.job (.setGate .sweep gate) r j)) fun _ s =>
      P x s ∧ ∀ row, s.job r j = some row → row.environmentGate = gate := by
  refine (K.exec (.job (.setGate .sweep gate) r j) (F := fun _ => True) rfl
    (fun s _ _ => hgate) (fun s _ => rfl) ?_).pre fun s hs => ⟨hs, trivial⟩
  intro s s' _ happly row' hrow'
  obtain ⟨row, _, rfl⟩ := job_after_write happly hrow'
  simp only [JobWrite.guard, JobWrite.write, if_true]

include hpn K in
theorem sweepJob_spec {s0 : Db} {cand : Job} {repository gitRef : String}
    {platforms : List String} {runnerLabels : List (List String)} {graph : RunGraph}
    (hcall : cand.spec.reusableCall = none) (hmatrix : cand.spec.deferredMatrix = none)
    (hc : Candidate P x s0 cand) :
    Triple c (P x) (sweepJob b promoteNext fuel repository gitRef platforms runnerLabels graph cand)
      fun _ => P x := by
  refine Triple.bind (hydrateMessage_spec K) fun out => ?_
  obtain ⟨j, name⟩ := out
  refine Triple.of_pure fun ⟨hr, hj⟩ => ?_
  let h : Holder := .job j.runId j.jobId
  have hexpose : ∀ s, P x s → P (x.addExposed h) s := fun s hs => K.shift (.expose x h) hs
  have hlabels : ∀ gate : Option EnvironmentGateState, Triple c (P (x.addExposed h))
      (sweepLabels b promoteNext fuel platforms runnerLabels { j with environmentGate := gate })
      fun _ => P x := fun gate =>
    sweepLabels_spec hpn K b fuel (j := { j with environmentGate := gate }) hr hj hcall hmatrix hc
  cases name with
  -- without an environment only the labels are left
  | none => exact (hlabels j.environmentGate).pre hexpose
  | some envName =>
      dsimp only
      split
      · next gate hwait =>
          -- the gate is written before the job is parked behind it
          have harmed := evaluateEnvironmentGate_wait hwait
          refine Triple.bind (setGate_spec K (.inl harmed)) fun _ => ?_
          refine Triple.bind (Q := fun _ => P x) ?_ fun _ => Triple.ret fun s hs => hs
          refine (K.exec (.job (.park .sweepEnvironment) j.runId j.jobId)
            (F := fun s => ∀ row, s.job j.runId j.jobId = some row → row.environmentGate = gate)
            (G := fun _ => True) rfl (fun s hs hgate => ⟨?_, fun row hrow => ?_⟩) (fun s _ => rfl)
            fun _ _ _ _ => trivial).post fun _ s hs => hs.1
          · rw [hr, hj]
            exact hc.swept ⟨hcall, hmatrix⟩ hs
          · rw [hgate row hrow]
            exact harmed
      -- a gate that failed is written and ends the job
      · refine Triple.bind
          ((setGate_spec K (x := x.addExposed h) (.inr (List.mem_cons_self ..))).pre
          hexpose) fun _ => ?_
        refine (sweepFail_spec hpn K rfl).conseq (fun s hs => hs.1) fun _ s hs => ?_
        exact K.drop (K.shift (.excuse (x.addGone h) h (.inl (List.mem_cons_self ..))) hs)
      · next gate _ =>
          -- a gate that changed is written before the labels are looked at
          split
          · exact Triple.bind ((setGate_spec K (x := x.addExposed h)
              (.inr (List.mem_cons_self ..))).pre hexpose) fun _ =>
                (hlabels gate).pre fun s hs => hs.1
          · exact (hlabels gate).pre hexpose

include hpn K in
theorem sweepCaller_spec {s0 : Db} {cand : Job} (hcall : cand.spec.reusableCall.isSome = true)
    (hc : Candidate P x s0 cand) :
    Triple c (P x) (sweepCaller b promoteNext fuel cand) fun _ => P x := by
  -- The wait row the parked caller is found behind, when it is parked.
  let W : Db → Prop := fun s => ∃ id wait r' set members, s.waits.get id = some wait ∧
    wait.holder = .jobSet r' set ∧ s.jobsets.get set = some members ∧
    members.runId = cand.runId ∧ cand.jobId ∈ members.jobIds
  have hpark : Triple c (fun s => P x s ∧ W s) (do
      exec (.job (.park .sweepJobset) cand.runId cand.jobId)
      pure { Outcome.none with settled := true }) fun _ => P x :=
    Triple.bind (K.exec (.job (.park .sweepJobset) cand.runId cand.jobId)
      (G := fun _ => True) rfl (fun s hs hw => ⟨hc.swept hcall hs, hw⟩) (fun s _ => rfl)
      fun _ _ _ _ => trivial) fun _ => Triple.ret fun s hs => hs.1
  refine Triple.select fun s1 _ => ?_
  cases hparked : s1.jobsetParked cand.runId cand.jobId with
  | true =>
      refine Triple.ret_bind (hpark.pre ?_)
      rintro s ⟨rfl, hs⟩
      refine ⟨hs, ?_⟩
      unfold Db.jobsetParked at hparked
      split at hparked
      · exact absurd hparked Bool.false_ne_true
      · next members hhead =>
          obtain ⟨hget, hcond⟩ := Table.mem_select.mp (List.mem_of_head? hhead)
          rw [Bool.and_eq_true, decide_eq_true_eq] at hcond
          obtain ⟨id, wait, hwait, hholder⟩ := Table.exists?_iff.mp hparked
          split at hholder
          · next r' set hrow =>
              obtain rfl := of_decide_eq_true hholder
              exact ⟨id, wait, r', _, members, hwait, hrow, hget, hcond.1,
                List.contains_iff_mem.mp hcond.2⟩
          · exact absurd hholder Bool.false_ne_true
  | false =>
      refine Triple.bind ((ensureJobset_spec hpn K b fuel hc.knownSet).pre fun s hs => hs.2)
        fun advanced => ?_
      cases advanced with
      | ready =>
          refine Triple.bind (Q := fun _ => P x) ?_ fun _ => Triple.ret fun s hs => hs
          refine Triple.bind (K.keep (.job (.deferExpansion .caller) cand.runId cand.jobId) rfl
            (fun s hs => hc.swept hcall hs) fun s => rfl) fun _ => emitJob_spec K (by decide)
      | blocked =>
          refine hpark.pre ?_
          rintro s ⟨hs, id, wait, hwait, henc⟩
          refine ⟨hs, ?_⟩
          cases hrow : wait.holder with
          | run r' => rw [hrow] at henc; exact henc.elim
          | job r' j' => rw [hrow] at henc; exact henc.elim
          | jobSet r' set =>
              rw [hrow] at henc
              obtain ⟨_, members, hget, hrun, hids⟩ := henc
              exact ⟨id, wait, r', set, members, hwait, hrow, hget, hrun,
                hids ▸ List.mem_singleton.mpr rfl⟩
      | fail status =>
          refine Triple.of_pure fun hst => ?_
          exact Triple.bind ((settleNode_spec hpn K hst).post fun _ s hs => K.drop hs)
            fun _ => Triple.ret fun s hs => hs

include hpn K in
theorem sweepCandidate_spec {s : Db} {cand : Job} {repository gitRef : String}
    {platforms : List String} {runnerLabels : List (List String)} {graph : RunGraph}
    (hc : Candidate P x s cand) :
    Triple c (P x)
      (sweepCandidate b promoteNext fuel repository gitRef platforms runnerLabels graph cand)
      fun _ => P x := by
  unfold sweepCandidate
  cases dependencyDecision b.eval graph cand with
  | run =>
      refine Triple.ite (fun hcall => sweepCaller_spec hpn K b fuel hcall hc) fun hcall => ?_
      refine Triple.ite (fun hmatrix => ?_) fun hmatrix => ?_
      · refine Triple.bind (Q := fun _ => P x) ?_ fun _ => Triple.ret fun s hs => hs
        refine Triple.bind (K.keep (.job (.deferExpansion .matrix) cand.runId cand.jobId) rfl
          (fun s hs => hc.swept hmatrix hs) fun s => rfl) fun _ => emitJob_spec K (by decide)
      · rw [Option.not_isSome_iff_eq_none] at hcall hmatrix
        refine Triple.select fun s1 _ => Triple.ite (fun _ => ?_) fun _ => ?_
        · exact (sweepJob_spec hpn K b fuel hcall hmatrix hc).pre fun s hs => hs.2
        · exact Triple.ret fun s hs => hs.2
  | skip =>
      exact Triple.bind ((settleNode_spec hpn K rfl).post fun _ s hs => K.drop hs) fun _ =>
        Triple.ret fun s hs => hs
  | error => exact (sweepFail_spec hpn K rfl).post fun _ s hs => K.drop hs
  | wait => exact Triple.ret fun s hs => hs

include hpn K in
theorem sweepPass_spec {s0 : Db} {r : RunId} (hs0 : P x s0) :
    Triple c (fun s => s = s0 ∧ P x s) (sweepPass b promoteNext fuel r (s0.candidates r))
      fun _ => P x := by
  have K' := K.frame (F := Frozen s0) fun hin happly hs => frozen_apply hin happly hs
  refine Triple.select fun s1 _ => Triple.select fun s2 _ => Triple.select fun s3 _ =>
    Triple.select fun s4 _ => Triple.select fun s5 _ => ?_
  refine (Triple.foldlM (I := fun _ s => P x s ∧ Frozen s0 s) fun acc cand hcand => ?_).conseq
    ?_ fun _ s hs => hs.1
  · obtain ⟨hrow, hcond⟩ := Table.mem_selectBy.mp hcand
    rw [Bool.and_eq_true, Bool.and_eq_true, decide_eq_true_eq, decide_eq_true_eq] at hcond
    refine Triple.bind (sweepCandidate_spec hpn K' b fuel (s := s0) ?_) fun _ =>
      Triple.ret fun s hs => hs
    exact ⟨⟨hs0, fun _ _ => rfl⟩, hrow, hcond.1.2, fun hs => hs.2⟩
  · rintro s ⟨_, _, _, _, _, rfl, hs⟩
    exact ⟨hs, fun _ _ => rfl⟩

include hpn K in
theorem promoteRun_spec (n : Nat) {r : RunId} :
    Triple c (P x) (promoteRun b promoteNext fuel n r) fun _ => P x := by
  induction n with
  | zero => exact Triple.abort
  | succ n ih =>
      rw [promoteRun]
      refine Triple.select fun s0 hs0 => Triple.ite (fun _ => ?_) fun _ => ?_
      · exact Triple.ret fun s hs => hs.2
      refine Triple.bind (sweepPass_spec hpn K b fuel hs0) fun out => ?_
      refine Triple.ite (fun _ => ?_) fun _ => Triple.ret fun s hs => hs
      exact Triple.bind ih fun _ => Triple.ret fun s hs => hs

/-! ## Handing a group on -/

include K in
/-- A hand-over that found nobody leaves the group free. -/
theorem notGranted_spec {key : GroupKey} {h : Holder} :
    Triple c (P (x.addFree key)) (exec (.mark (.notGranted key h))) fun _ => P x :=
  ((K.exec (.mark (.notGranted key h)) (F := fun _ => True) (G := fun _ => True) rfl
    (fun _ _ _ => trivial) (fun _ _ => rfl) fun _ _ _ _ => trivial).pre
    fun _ hs => ⟨hs, trivial⟩).post fun _ _ hs => hs.1

include K in
theorem grantJob_spec {key : GroupKey} {display : String} {waitId : Nat} {r : RunId} {j : JobId}
    (hk : Known P rr (.job r j)) (hon : OnGroup P key (.job r j)) :
    Triple c (P ((x.addFree key).addExposed (.job r j)))
      (grantJob key display waitId r j) fun _ => P x := by
  let h : Holder := .job r j
  let y := (x.addFree key).addExposed h
  refine Triple.select fun s0 _ => ?_
  -- a job that is gone or was moved on in the meantime is not granted the group
  cases hjob : s0.job r j with
  | none =>
      refine (notGranted_spec K).pre ?_
      rintro s ⟨rfl, hs⟩
      refine K.shift (.excuse (x.addFree key) h (.inr (.inr fun row hrow => ?_))) hs
      rw [hjob] at hrow
      cases hrow
  | some job =>
      refine Triple.ite (fun hstale => ?_) fun hlive => ?_
      · refine (notGranted_spec K).pre ?_
        rintro s ⟨rfl, hs⟩
        refine K.shift (.excuse (x.addFree key) h (.inr (.inr fun row hrow => ?_))) hs
        rw [hjob, Option.some.injEq] at hrow
        subst hrow
        rw [Bool.or_eq_true, decide_eq_true_eq] at hstale
        exact hstale.symm
      rw [Bool.or_eq_true, decide_eq_true_eq, not_or, not_not, Bool.not_eq_true] at hlive
      -- the group was taken again in between: back to the front of the queue
      refine Triple.select fun s1 _ => Triple.ite (fun _ => ?_) fun _ => ?_
      · refine Triple.bind ((requeueWait_spec K (x := y) hk hon (List.mem_cons_self ..)).pre
          fun s hs => hs.2.2) fun _ => ?_
        exact (notGranted_spec K).pre fun s hs =>
          K.shift (.excuse (x.addFree key) h (.inr (.inl hs.2))) hs.1
      · refine Triple.bind ((takeHold_spec K (x := x.addExposed h) hk (.inr hon)
          (Ignores.job rfl r j fun row => row = some job)).pre ?_) fun _ => ?_
        · rintro s ⟨_, rfl, hs⟩
          exact ⟨hs, hjob⟩
        -- the hold is taken in its name, and the job becomes ready
        refine Triple.bind (Q := fun _ => P x) ?_ fun _ => emitJob_spec K (by decide)
        have hkey : job.key = (r, j) := Table.key_of_get hjob
        rw [Job.key, Prod.mk.injEq] at hkey
        rw [hkey.1, hkey.2]
        refine (K.exec (.job (.enqueueReady .promoteNext) r j) (x := x.addExposed h) (y := x)
          (F := fun s => s.job r j = some job ∧ s.names key h) (G := fun _ => True) rfl
          (fun s _ hf => ?_) (fun s _ => rfl) fun _ _ _ _ => trivial).post fun _ s hs => hs.1
        exact ⟨hk, ⟨key, hf.2⟩, job, hf.1, hlive.2, hlive.1⟩

theorem heldJobs_nodup (s : Db) (r : RunId) : ((s.heldJobsOfRun r).map Job.key).Nodup := by
  have hperm : (s.heldJobsOfRun r).Perm (s.jobs.select fun j => j.runId = r &&
      j.queueState = .held && j.status = .pending && !s.covered r j.jobId) :=
    List.perm_insertionSort _ _
  refine (hperm.map Job.key).nodup_iff.mpr ?_
  exact s.jobs.nodup.sublist (List.filter_sublist.map Job.key)

theorem mem_heldJobs {s : Db} {r : RunId} {row : Job} :
    row ∈ s.heldJobsOfRun r ↔ s.job r row.jobId = some row ∧ row.queueState = .held ∧
      row.status = .pending ∧ s.covered r row.jobId = false := by
  rw [Db.heldJobsOfRun, Table.mem_selectBy, Bool.and_eq_true, Bool.and_eq_true, Bool.and_eq_true,
    decide_eq_true_eq, decide_eq_true_eq, decide_eq_true_eq, Bool.not_eq_true']
  constructor
  · rintro ⟨hget, ⟨⟨rfl, hq⟩, hst⟩, hcov⟩
    exact ⟨hget, hq, hst, hcov⟩
  · rintro ⟨hget, hq, hst, hcov⟩
    have hkey : row.key = (r, row.jobId) := Table.key_of_get hget
    have hr : row.runId = r := congrArg Prod.fst hkey
    exact ⟨by rw [hkey]; exact hget, ⟨⟨hr, hq⟩, hst⟩, hcov⟩

include hpn K in
theorem grantRun_spec {key : GroupKey} {display : String} {r : RunId}
    (hon : OnGroup P key (.run r)) :
    Triple c (P ((x.addFree key).addExposed (.run r)))
      (grantRun b promoteNext fuel key display r) fun _ => P x := by
  let h : Holder := .run r
  refine Triple.select fun s0 _ => Triple.ite (fun hnone => ?_) fun _ => ?_
  -- no row of the run is held: what is exposed waits for nothing
  · refine (notGranted_spec K).pre ?_
    rintro s ⟨rfl, hs⟩
    refine K.shift (.excuse (x.addFree key) h (.inr (.inr fun j row hrow hq hst => ?_))) hs
    by_contra hcov
    have hkey : row.key = (r, j) := Table.key_of_get hrow
    rw [Job.key, Prod.mk.injEq] at hkey
    obtain ⟨-, rfl⟩ := hkey
    have hmem : row ∈ s.heldJobsOfRun r :=
      mem_heldJobs.mpr ⟨hrow, hq, hst, eq_false_of_ne_true hcov⟩
    rw [List.isEmpty_iff.mp hnone] at hmem
    exact List.not_mem_nil hmem
  -- Rows still to come are held, and only they are held without a wait row.
  let G : List Job → Db → Prop := fun rest s =>
    (∀ row ∈ rest, s.job r row.jobId = some row ∧ row.queueState = .held ∧
      row.status = .pending) ∧ (rest.map Job.jobId).Nodup ∧
    ∀ j row, s.job r j = some row → row.queueState = .held → row.status = .pending →
      s.covered r j = true ∨ j ∈ rest.map Job.jobId
  -- at the start these are all rows that are held without a wait row
  have hstart : G (s0.heldJobsOfRun r) s0 := by
    refine ⟨fun row hrow => ?_, ?_, fun j row hrow hq hst => ?_⟩
    · obtain ⟨hget, hq, hst, _⟩ := mem_heldJobs.mp hrow
      exact ⟨hget, hq, hst⟩
    · refine List.Nodup.of_map (fun j => (r, j)) ?_
      have hkeys : (s0.heldJobsOfRun r).map Job.key =
          ((s0.heldJobsOfRun r).map Job.jobId).map fun j => (r, j) := by
        rw [List.map_map]
        refine List.map_congr_left fun row hrow => ?_
        exact Table.key_of_get (mem_heldJobs.mp hrow).1
      rw [← hkeys]
      exact heldJobs_nodup s0 r
    · by_cases hcov : s0.covered r j = true
      · exact .inl hcov
      · have hkey : row.key = (r, j) := Table.key_of_get hrow
        rw [Job.key, Prod.mk.injEq] at hkey
        obtain ⟨-, rfl⟩ := hkey
        exact .inr (List.mem_map.mpr ⟨row,
          mem_heldJobs.mpr ⟨hrow, hq, hst, eq_false_of_ne_true hcov⟩, rfl⟩)
  refine Triple.bind (Q := fun _ s => P (x.addExposed h) s ∧ G (s0.heldJobsOfRun r) s) ?_
    fun _ => ?_
  -- the hold is taken before the rows are released, and changes none of them
  · refine Triple.ret_bind
      ((K.exec (.takeHold key display (.run r)) (x := (x.addFree key).addExposed h)
      (y := x.addExposed h) (F := fun s => s = s0) (G := G (s0.heldJobsOfRun r)) rfl
      (fun s _ _ => ⟨h, rfl, trivial, .inr hon⟩) (fun s _ => rfl) ?_).pre
        fun s hs => ⟨hs.2, hs.1⟩)
    rintro s s' rfl happly
    have hjob : ∀ j, s'.job r j = s.job r j := by
      intro j
      have hjobs : s'.jobs = s.jobs := apply_same .jobs happly rfl
      rw [Db.job, hjobs]
      rfl
    have hcov : ∀ j, s'.covered r j = s.covered r j := by
      intro j
      have hwaits : s'.waits = s.waits := apply_same .waits happly rfl
      have hsets : s'.jobsets = s.jobsets := apply_same .jobsets happly rfl
      unfold Db.covered Db.standsFor
      rw [hwaits, hsets]
    obtain ⟨hrows, hnodup, hrest⟩ := hstart
    refine ⟨fun row hrow => ?_, hnodup, fun j row hrow hq hst => ?_⟩
    · rw [hjob]
      exact hrows row hrow
    · rw [hjob] at hrow
      rw [hcov]
      exact hrest j row hrow hq hst
  refine Triple.bind (Q := fun _ => P x) ?_ fun _ => ?_
  -- the loop releases one row after the other, and leaves the others as they are
  · refine (Triple.forM_rest (I := fun rest s => P (x.addExposed h) s ∧ G rest s)
      fun row rest _ => ?_).post fun _ s hs => ?_
    · refine K.exec (.job (.unpark .promoteRun) r row.jobId) rfl
        (fun s _ hG => ⟨row, hG.1 row (List.mem_cons_self ..)⟩) (fun s _ => rfl) ?_
      rintro s s' ⟨hrows, hnodup, hrest⟩ happly
      rw [List.map_cons, List.nodup_cons] at hnodup
      have hother : ∀ j, j ≠ row.jobId → s'.job r j = s.job r j := fun j hne =>
        job_other_write happly fun heq => hne (congrArg Prod.snd heq)
      refine ⟨fun row' hrow' => ?_, hnodup.2, fun j row' hrow' hq hst => ?_⟩
      · have hne : row'.jobId ≠ row.jobId := fun heq =>
          hnodup.1 (heq ▸ List.mem_map.mpr ⟨row', hrow', rfl⟩)
        rw [hother row'.jobId hne]
        exact hrows row' (List.mem_cons_of_mem row hrow')
      · by_cases hj : j = row.jobId
        · subst hj
          -- the released row is no longer held
          obtain ⟨old, _, rfl⟩ := job_after_write happly hrow'
          exact absurd hq (by simp only [JobWrite.guard, JobWrite.write, if_true, reduceCtorEq,
            not_false_eq_true])
        · rw [hother j hj] at hrow'
          have hcov : s'.covered r j = s.covered r j := by
            have hwaits : s'.waits = s.waits := apply_same .waits happly rfl
            have hsets : s'.jobsets = s.jobsets := apply_same .jobsets happly rfl
            unfold Db.covered Db.standsFor
            rw [hwaits, hsets]
          rw [hcov]
          refine (hrest j row' hrow' hq hst).imp id fun hmem => ?_
          exact (List.mem_cons.mp hmem).resolve_left hj
    -- no row is left to come, so whoever is held is covered by a wait row
    · refine K.shift (.excuse x h (.inr (.inr fun j row hrow hq hst => ?_))) hs.1
      exact (hs.2.2.2 j row hrow hq hst).resolve_right List.not_mem_nil
  refine Triple.bind (promoteRun_spec hpn K b fuel fuel) fun _ => ?_
  exact K.keep (.run .start r) rfl (fun s _ => trivial) fun s => rfl

include hpn K in
theorem grantJobset_spec {key : GroupKey} {display : String} {r : RunId} {jobIds : List JobId}
    (hk : Known P rr (.jobSet r jobIds)) (hon : OnGroup P key (.jobSet r jobIds)) :
    Triple c (fun s => P ((x.addFree key).addExposed (.jobSet r jobIds)) s ∧
        ∃ s0 id wait, Past P s0 ∧ s0.jobsets = s.jobsets ∧ s0.waits.get id = some wait ∧
          s0.holderOf wait.holder = .jobSet r jobIds)
      (grantJobset b promoteNext fuel key display r jobIds) fun _ => P x := by
  let h : Holder := .jobSet r jobIds
  refine Triple.select fun s1 _ => ?_
  cases hfind : s1.findJobset r jobIds with
  | none =>
      refine (notGranted_spec K).pre ?_
      rintro s ⟨rfl, hs, s0, id, wait, hpast, hsame, hget, hdecode⟩
      exact K.shift (.excuse (x.addFree key) h (.inr (.inr (.inr
        ⟨s0, id, wait, hpast, hsame, hget, hdecode, hfind⟩)))) hs
  | some set =>
      obtain ⟨_, set', hget, hr, hids⟩ := encodes_of_findJobset hfind
      have hset : s1.jobsets.get set.jobsetId = some set :=
        (Table.mem_select.mp (List.mem_of_head? hfind)).1
      rw [hset, Option.some.injEq] at hget
      subst hget
      refine Triple.bind ((takeHold_spec K (x := x.addExposed h)
        (F := SetIs set.jobsetId r jobIds) hk (.inr hon) fun _ happly hs =>
          setIs_apply happly hs).pre ?_)
        fun _ => ?_
      · rintro s ⟨rfl, hs, _⟩
        refine ⟨hs, (K.counters hs).jobsets set.jobsetId set hset, fun set' hset' => ?_⟩
        rw [hset, Option.some.injEq] at hset'
        exact hset' ▸ ⟨hr, hids⟩
      refine Triple.bind ((advanceJobset_spec hpn K fuel).pre fun s hs => ⟨hs.1, hs.2.1⟩)
        fun advanced => ?_
      cases advanced with
      | blocked =>
          exact Triple.ret fun s hs => K.shift (.excuse x h (.inr (.inl hs.2))) hs.1
      | fail status =>
          refine Triple.of_pure fun hst => (failJobset_spec hpn K hst).post fun _ s hs => ?_
          exact K.drop (K.shift (.excuse (x.addGone h) h (.inl (List.mem_cons_self ..))) hs)
      | ready =>
          -- Jobs of the set that were passed are not held any more.
          let I : List JobId → Db → Prop := fun rest s => P (x.addExposed h) s ∧
            ∀ j ∈ jobIds, j ∈ rest ∨ ∀ row, s.job r j = some row → row.queueState ≠ .held
          refine Triple.bind (Q := fun _ => P x) ?_ fun _ => ?_
          · refine ((Triple.forM_rest (I := I) fun j rest hj => ?_).pre
              fun s hs => ⟨hs, fun j hj => .inl hj⟩).post fun _ s hs => ?_
            · refine K.exec (.job (.unpark .promoteJobset) r j) rfl
                (fun s _ _ => ⟨jobIds, hj, hk⟩) (fun s _ => rfl) ?_
              intro s s' hrest happly i hi
              by_cases hij : i = j
              · subst hij
                refine .inr fun row' hrow' => ?_
                obtain ⟨row, _, rfl⟩ := job_after_write happly hrow'
                by_cases hheld : row.queueState = .held
                · simp only [JobWrite.guard, hheld, decide_true, if_true, JobWrite.write, ne_eq,
                    reduceCtorEq, not_false_eq_true]
                · simp only [JobWrite.guard, hheld, decide_false, Bool.false_eq_true, if_false,
                    ne_eq, not_false_eq_true]
              · rcases hrest i hi with hmem | hfree
                · exact .inl ((List.mem_cons.mp hmem).resolve_left hij)
                · rw [job_other_write happly fun heq => hij (congrArg Prod.snd heq)]
                  exact .inr hfree
            · refine K.shift (.excuse x h (.inr (.inr (.inl fun j hj => ?_)))) hs.1
              exact (hs.2 j hj).resolve_left List.not_mem_nil
          exact Triple.bind (promoteRun_spec hpn K b fuel fuel) fun _ => Triple.ret fun s hs => hs

include hpn K in
theorem promoteNextStep_spec {key : GroupKey} {display : Option String} :
    Triple c (P (x.addFree key)) (promoteNextStep b promoteNext fuel key display) fun _ => P x := by
  refine Triple.select fun s0 hs0 => ?_
  -- without a waiter the group stays free
  cases hfirst : s0.firstWaiter key with
  | none =>
      refine ((K.exec (.mark (.noWaiter key)) (x := x.addFree key) (y := x)
        (F := fun s => s = s0) (G := fun _ => True) rfl ?_ (fun s _ => rfl)
        fun _ _ _ _ => trivial).pre fun s hs => ⟨hs.2, hs.1⟩).post fun _ s hs => hs.1
      rintro s _ rfl
      exact hfirst
  | some wh =>
      obtain ⟨waitId, h⟩ := wh
      obtain ⟨wait, hget, hkey, hdecode⟩ := mem_waiters (List.mem_of_head? hfirst)
      have hpast : Past P s0 := ⟨x.addFree key, hs0⟩
      have hk : Known P rr h := hdecode ▸ known_of_wait hpast hget
      have hon : OnGroup P key h := ⟨s0, hpast, .inr ⟨waitId, wait, hget, hkey, hdecode⟩⟩
      let y := (x.addFree key).addExposed h
      -- the waiter leaves the queue before it is looked at, and is exposed until it is dealt with
      refine Triple.bind (Q := fun _ s => P y s ∧ s.jobsets = s0.jobsets) ?_ fun _ => ?_
      · refine (K.exec (.removeWaitById waitId) (x := y) (F := fun s => s = s0) rfl ?_
          (fun s _ => rfl) ?_).pre fun s hs => ⟨K.shift (.expose (x.addFree key) h) hs.2, hs.1⟩
        · rintro s _ rfl w hw
          rw [hget, Option.some.injEq] at hw
          rw [← hw, hdecode]
          exact List.mem_cons_self ..
        · rintro s s' rfl happly
          exact apply_same .jobsets happly rfl
      cases h with
      | run r => exact (grantRun_spec hpn K b fuel hon).pre fun s hs => hs.1
      | job r j => exact (grantJob_spec K hk hon).pre fun s hs => hs.1
      | jobSet r jobIds =>
          refine (grantJobset_spec hpn K b fuel hk hon).pre fun s hs => ⟨hs.1, ?_⟩
          exact ⟨s0, waitId, wait, hpast, hs.2.symm, hget, hdecode⟩

end Sweep

/-- The hand-over of a group follows the discipline at every depth. -/
theorem promoteNextInGroup_handsOver {rr : RunId → Prop} {c : Contract Stmt Db} (b : Backend)
    (fuel : Nat) : HandsOver rr c (promoteNextInGroup b fuel) := by
  induction fuel with
  | zero =>
      intro P K x key display
      exact Triple.abort
  | succ fuel ih =>
      intro P K x key display
      exact promoteNextStep_spec ih K b fuel

end Preloop
