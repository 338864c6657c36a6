import PreloopControl.Properties.ExpansionFence

/-!
# What the Rows Say

What can be relied on when a row is read, whatever commands ran before and in what order.

A row that is read twice is the same run or the same job both times: its fixed part stays,
its attempt and its generation only grow, and its id is never given to another run. A job
set keeps its members.

Within one database the columns agree. A job has a status that belongs to its queue state,
and a completed run has a verdict.

## Main definitions

* `Db.Continues`: What an earlier database knew still holds.
* `Job.inStep`: The two state columns of a job row agree.

## Theorems

* `holds_along`: From one statement to every run.
* `continues_apply`, `inStep_onJob`, `concluded_onRun`: What one statement keeps.
* `records_continue`: From any reachable database on.
* `columns_agree`, `completed_has_verdict`: In every reachable database.
-/

namespace Preloop

open Txn

variable {P : Pending → Db → Prop} {rr : RunId → Prop} {c : Contract Stmt Db} {x : Pending}
variable {s0 s s' : Db} {st : Stmt}

/-- An invariant of the statements that tidy databases allow holds along every run. -/
theorem holds_along {I : Db → Prop}
    (hstep : ∀ {x st s s'}, Site (fun _ s => s.Tidy ∧ I s) (fun _ => True)
      (.assume fun _ _ => True) x s st → s.Tidy → I s → st.apply s = .ok s' → I s')
    (hrun : Runs (fun _ _ => True) (fun _ _ => True) s s') (ht : s.Tidy) (hI : I s) : I s' := by
  have K : Kept (fun _ s => s.Tidy ∧ I s) (fun _ => True) (.assume fun _ _ => True) :=
    Kept.of_plain fun hsite ht hs _ happly => ⟨hstep hsite ht hs happly, trivial⟩
  exact (Runs.kept K (fun _ _ _ => trivial) (fun _ _ _ _ _ => trivial) hrun ⟨ht, hI⟩).2

/-! ## From one database to a later one -/

/-- The part of a run row that no statement rewrites. -/
def Run.frozen (r : Run) : String × String × String × String × Option String ×
    Option EventOrder × Option TrustTier × Json × Json :=
  (r.namespaceId, r.repository, r.workflowPath, r.gitRef, r.webhookDeliveryId, r.eventOrder,
    r.trustTier, r.vars, r.inputs)

theorem onRun_frozen (st : Stmt) (s : Db) (row : Run) :
    (st.onRun s row).frozen = row.frozen ∧ row.attempt ≤ (st.onRun s row).attempt := by
  cases st with
  | run w r =>
      simp only [Stmt.onRun]
      split
      · -- only a rerun writes the attempt, and it counts it up
        cases w with
        | rerun => exact ⟨rfl, Nat.le_succ _⟩
        | _ => exact ⟨rfl, Nat.le_refl _⟩
      · exact ⟨rfl, Nat.le_refl _⟩
  | summarize site r =>
      simp only [Stmt.onRun, Db.summarizeRow]
      split
      · split
        · exact ⟨rfl, Nat.le_refl _⟩
        · split
          · exact ⟨rfl, Nat.le_refl _⟩
          · split <;> exact ⟨rfl, Nat.le_refl _⟩
      · exact ⟨rfl, Nat.le_refl _⟩
  | _ => exact ⟨rfl, Nat.le_refl _⟩

/-- What an earlier database knew still holds: a run under an id handed out before is that
    run, its jobs are there as long as it is, and a job set has the members it had. -/
structure Db.Continues (s0 s : Db) : Prop where
  next : s0.nextRun ≤ s.nextRun
  runs : ∀ {r row}, s.run r = some row → r < s0.nextRun →
    ∃ row0, s0.run r = some row0 ∧ row.frozen = row0.frozen ∧ row0.attempt ≤ row.attempt
  jobs : ∀ {r j row0}, s0.job r j = some row0 → s.runExists r = true →
    ∃ row, s.job r j = some row ∧ row.frozen = row0.frozen ∧
      row0.expandGeneration ≤ row.expandGeneration
  jobsets : ∀ {id set0}, s0.jobsets.get id = some set0 → SetIs id set0.runId set0.jobIds s

theorem Db.Continues.refl (hs : s.Counters) : s.Continues s where
  next := Nat.le_refl _
  runs h _ := ⟨_, h, rfl, Nat.le_refl _⟩
  jobs h _ := ⟨_, h, rfl, Nat.le_refl _⟩
  jobsets h := ⟨hs.jobsets _ _ h, fun set hset => by
    rw [h] at hset
    cases hset
    exact ⟨rfl, rfl⟩⟩

theorem continues_apply (h0 : s0.Counters) (hsite : Site P rr c x s st) (hs : s0.Continues s)
    (happly : st.apply s = .ok s') : s0.Continues s' where
  next := Nat.le_trans hs.next (nextRun_grows hsite happly)
  runs := by
    intro r row' hrow' hknown
    rcases run_of_apply happly hrow' with ⟨row, hrow, rfl⟩ | ⟨rfl, _, hr⟩
    · obtain ⟨row0, hrow0, hfrozen, hattempt⟩ := hs.runs hrow hknown
      obtain ⟨hkept, hgrows⟩ := onRun_frozen st s row
      exact ⟨row0, hrow0, hkept.trans hfrozen, Nat.le_trans hattempt hgrows⟩
    · -- a new run gets an id that was not handed out before
      have hnew : row'.runId = s.nextRun := hsite.2.1
      rw [← hr, hnew] at hknown
      exact absurd hs.next (Nat.not_le.mpr hknown)
  jobs := by
    intro r j row0 hrow0 hexists'
    -- the run was there with the job, so a run that is missing later does not come back
    obtain ⟨run0, hrun0⟩ := Option.isSome_iff_exists.mp (h0.jobs r j row0 hrow0)
    have hknown : r < s.nextRun := Nat.lt_of_lt_of_le (h0.runs r run0 hrun0) hs.next
    have hexists : s.runExists r = true := by
      by_contra hgone
      rw [Bool.not_eq_true] at hgone
      rw [missing_stays hsite hknown happly hgone] at hexists'
      cases hexists'
    obtain ⟨row, hrow, hfrozen, hgeneration⟩ := hs.jobs hrow0 hexists
    rcases job_apply happly hrow with hrow' | ⟨rfl, _⟩
    · exact ⟨_, hrow', (st.onJob_frozen s row).trans hfrozen,
        Nat.le_trans hgeneration (generation_onJob st s row)⟩
    · rw [runExists_deleteRun happly] at hexists'
      cases hexists'
  jobsets h := setIs_apply happly (hs.jobsets h)

/-- From a reachable database on: a run id names the same run for ever, the jobs of a run stay
    until it is deleted and keep their fixed part, attempts and generations only grow, and job
    sets keep their members. -/
theorem records_continue (hreach : s.Reachable)
    (hrun : Runs (fun _ _ => True) (fun _ _ => True) s s') : s.Continues s' := by
  have ht := tidy_of_reachable hreach
  exact holds_along (fun hsite _ hs happly => continues_apply ht.counters hsite hs happly) hrun ht
    (.refl ht.counters)

/-- A run of one job is submitted and then cancelled. -/
theorem cancelled_run : ∃ s s' : Db, s.Reachable ∧
    Runs (fun _ _ => True) (fun _ _ => True) s s' ∧
    (∃ row, s.job 0 "build" = some row ∧ row.queueState = .ready) ∧
    ∃ run, s'.run 0 = some run ∧ run.status = .completed := by
  have hall : (Call.runAll (fun _ _ => true)
      ((SubmitRun.plain [.plain "build" [] .plain]).calls 0) Db.init).any (fun s =>
        ((s.job 0 "build").any fun row => row.queueState = .ready) &&
          (Call.runAll (fun _ _ => true) [(Command.cancelRun 0).call] s).any fun s' =>
            (s'.run 0).any fun run => run.status = .completed) = true := by decide_cbv
  obtain ⟨s, hs, h⟩ := (Option.any_eq_true _ _).mp hall
  rw [Bool.and_eq_true] at h
  obtain ⟨row, hrow, hready⟩ := (Option.any_eq_true _ _).mp h.1
  obtain ⟨s', hs', h'⟩ := (Option.any_eq_true _ _).mp h.2
  obtain ⟨run, hrun, hdone⟩ := (Option.any_eq_true _ _).mp h'
  exact ⟨s, s', run_of_runAll (fun _ _ _ => trivial) (fun _ _ _ => trivial) hs,
    run_of_runAll (fun _ _ _ => trivial) (fun _ _ _ => trivial) hs',
    ⟨row, hrow, of_decide_eq_true hready⟩, run, hrun, of_decide_eq_true hdone⟩

theorem records_continue_of_cancelled : ∃ s s' : Db, s.Reachable ∧ s.Continues s' ∧
    (∃ row, s.job 0 "build" = some row) ∧ s'.runCompleted 0 = true := by
  obtain ⟨s, s', hreach, hrun, ⟨row, hrow, _⟩, run', hrun', hdone⟩ := cancelled_run
  exact ⟨s, s', hreach, records_continue hreach hrun, ⟨row, hrow⟩,
    runCompleted_eq.mpr ⟨run', hrun', hdone⟩⟩

/-! ## The columns of a row -/

/-- The status of a job row is one that belongs to its queue state. -/
def Job.inStep (j : Job) : Bool :=
  match j.queueState with
  | .ready => j.status = .queued
  | .claimed => j.status = .inProgress
  | .held => j.status = .pending
  | .blocked => j.status = .queued || j.status = .pending
  | .none | .pendingExpansion | .expanding => true

/-- A job outside the queue has no status to keep to. -/
theorem Job.inStep_of_none {j : Job} (h : j.queueState = .none) : j.inStep = true := by
  rw [Job.inStep, h]

theorem Job.inStep_of_blocked {j : Job} (h : j.queueState = .blocked)
    (hterm : j.status.isTerminal = false) (hidle : j.status ≠ .inProgress) : j.inStep = true := by
  rw [Job.inStep, h]
  cases hst : j.status with
  | queued | pending => rfl
  | inProgress => exact absurd hst hidle
  | success | failure | skipped | cancelled =>
      rw [hst] at hterm
      cases hterm

theorem Job.inStep_of_held {j : Job} (h : j.queueState = .held) (hst : j.status = .pending) :
    j.inStep = true := by
  rw [Job.inStep, h, hst]
  rfl

theorem inStep_write {r : RunId} {j : JobId} {w : JobWrite} {row : Job}
    (hsite : JobSite P rr x s r j w) (h : row.inStep = true) : (w.write row).inStep = true := by
  cases w with
  | reset status queueState needs gate =>
      -- the one write that takes its columns from the plan of a rerun
      obtain ⟨_, _, hterm, hidle, ⟨hq, hst, _⟩ | hq | hq⟩ := hsite
      · exact Job.inStep_of_held hq hst
      · exact Job.inStep_of_blocked hq hterm hidle
      · exact Job.inStep_of_none hq
  -- these write both columns
  | finish | starve | gateFailed | expandedMatrix | startCaller | fold | restartCaller
  | resetConcluded | deferExpansion | leaseExpansion | enqueueReady | park | unpark | claim
  | requeue => rfl
  -- and these neither
  | bumpGeneration | setGate | setOutputs | setRunsOn | setMessage | setTemplate
  | setConditionContext | setReusableMeta => exact h

theorem inStep_onJob (hsite : Site P rr c x s st) {row : Job} (h : row.inStep = true) :
    (st.onJob s row).inStep = true := by
  cases st with
  | job w r0 j0 =>
      simp only [Stmt.onJob]
      split
      · exact inStep_write hsite h
      · exact h
  | cancelRunJobs | expireRunJobs | resumeExpansions =>
      simp only [Stmt.onJob]
      split
      · rfl
      · exact h
  | refreshRemainingNeeds | refreshRunRemainingNeeds =>
      simp only [Stmt.onJob]
      split <;> exact h
  | _ => exact h

theorem inStep_insert {row : Job} (hsite : Site P rr c x s st) (hins : st.insertsJob row) :
    row.inStep = true := by
  rcases hins with rfl | rfl
  · rcases hsite.2.2 with ⟨_, hq⟩ | ⟨hst, hq, _⟩ | ⟨hterm, hidle, hq | hq, _⟩ | ⟨hst, hq, _⟩
    · exact Job.inStep_of_none hq
    · exact Job.inStep_of_held hq hst
    · exact Job.inStep_of_blocked hq hterm hidle
    · exact Job.inStep_of_none hq
    · exact Job.inStep_of_blocked hq (by rw [hst]; rfl)
        (by rw [hst]; exact ExecutionStatus.noConfusion)
  · exact Job.inStep_of_none hsite.2.2.2.2.1

/-- In every reachable database a job that is ready is queued, a claimed one is in progress, a
    held one is pending and a blocked one is queued or pending. -/
theorem columns_agree (hreach : s.Reachable) {r : RunId} {j : JobId} {row : Job}
    (hrow : s.job r j = some row) : row.inStep = true := by
  refine holds_along (I := fun s => ∀ r j row, s.job r j = some row → row.inStep = true)
    (fun hsite _ hs happly r j row' hrow' => ?_) hreach tidy_init (fun _ _ _ h => nomatch h)
    r j row hrow
  rcases job_of_apply happly hrow' with ⟨row, hrow, rfl⟩ | ⟨hins, _⟩
  · exact inStep_onJob hsite (hs r j row hrow)
  · exact inStep_insert hsite hins

theorem columns_agree_of_submitted : ∃ s : Db, s.Reachable ∧
    ∃ row, s.job 0 "build" = some row ∧ row.queueState = .ready ∧ row.status = .queued := by
  obtain ⟨s, -, hreach, -, ⟨row, hrow, hready⟩, -⟩ := cancelled_run
  have hstep := columns_agree hreach hrow
  rw [Job.inStep, hready] at hstep
  exact ⟨s, hreach, row, hrow, hready, of_decide_eq_true hstep⟩

/-- A run row that is completed has a verdict. -/
def Run.concluded (row : Run) : Prop :=
  row.status = .completed → ∃ verdict, row.conclusion = some verdict ∧ verdict.isTerminal = true

theorem concluded_onRun (st : Stmt) (s : Db) {row : Run} (h : row.concluded) :
    (st.onRun s row).concluded := by
  cases st with
  | run w r =>
      simp only [Stmt.onRun]
      split
      · cases w with
        -- what completes a run writes its verdict with it
        | cancel | expireFork | poison | arrivalCancelled => exact fun _ => ⟨_, rfl, rfl⟩
        | start | accept | rerun => exact fun h => RunStatus.noConfusion h
        | clearFork | clearGroup | setGroup | setFork => exact h
      · exact h
  | summarize site r =>
      simp only [Stmt.onRun]
      split
      · intro hdone
        -- a summary either gives the verdict or leaves a completed row as it is
        rcases summarizeRow_status s r row with ⟨hc, _, hcon⟩ | ⟨_, hiff, hcon⟩
        · exact ⟨_, hcon, hc.1⟩
        · rw [hcon]
          exact h (hiff.mp hdone)
      · exact h
  | _ => exact h

/-- In every reachable database a completed run has a verdict. -/
theorem completed_has_verdict (hreach : s.Reachable) {r : RunId} {run : Run}
    (hrun : s.run r = some run) (hdone : run.status = .completed) :
    ∃ verdict, run.conclusion = some verdict ∧ verdict.isTerminal = true := by
  refine holds_along (I := fun s => ∀ r row, s.run r = some row → row.concluded)
    (fun hsite _ hs happly r row' hrow' => ?_) hreach tidy_init (fun _ _ h => nomatch h)
    r run hrun hdone
  rcases run_of_apply happly hrow' with ⟨row, hrow, rfl⟩ | ⟨rfl, _⟩
  · exact concluded_onRun _ _ (hs r row hrow)
  · intro hdone
    rw [hsite.2.2.2] at hdone
    cases hdone

theorem completed_has_verdict_of_cancelled : ∃ s : Db, s.Reachable ∧ ∃ run, s.run 0 = some run ∧
    run.status = .completed ∧
      ∃ verdict, run.conclusion = some verdict ∧ verdict.isTerminal = true := by
  obtain ⟨s, s', hreach, hrun, -, run', hrun', hdone⟩ := cancelled_run
  have hreach' : s'.Reachable := hreach.trans hrun
  exact ⟨s', hreach', run', hrun', hdone, completed_has_verdict hreach' hrun' hdone⟩

end Preloop
