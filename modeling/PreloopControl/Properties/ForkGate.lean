import PreloopControl.Properties.Finality

/-!
# The Fork Approval Gate

A run submitted for a fork pull request whose approval is pending must not run
anything before it is approved. The flag stands on the run row, and every path
that releases a parked job has to look at it.

Nothing of such a run is ever on its way: its jobs are parked or settled, so no
job of it is swept, no job or job set of it holds or awaits a group, and no node
of it is leased. What is left are the paths that take parked jobs out: the
release of parked jobs looks at the flag, the hand-over of the run's own group
does not, and a rerun puts the jobs wherever it likes.

## Main definitions

* `submittedForked`: The run is submitted with its approval pending and is never
  approved.
* `gateConsulted`: Its group is not handed to it while the approval is pending,
  and no job of it is parked once the flag is gone.
* `Db.ForkGated`: Nothing of the run is on its way.

## Theorems

* `fork_gate_holds`: As long as the run is not started again, none of its jobs
  is ready, claimed or in progress.
* `rerun_bypasses_fork_gate`: A rerun of the cancelled run makes its job ready.
-/

namespace Preloop

open Txn

/-- The run awaits the approval of a fork pull request. -/
def Db.forkPending (s : Db) (r : RunId) : Bool := (s.run r).any Run.forkApprovalPending

/-- The run is inserted with its approval pending and is never approved. -/
def submittedForked (r0 : RunId) : Stmt → Bool
  | .insertRun row => row.runId ≠ r0 || row.forkApprovalPending
  | .run (.setFork pending _ _) r => r ≠ r0 || pending
  | _ => true

/-- No group is handed to a run whose approval is pending, and a job of the run
    is only parked while it is. -/
def gateConsulted (r0 : RunId) : Stmt → Db → Bool
  | .job (.unpark .promoteRun) r _, s => r ≠ r0 || !s.forkPending r
  | .insertJob row, s => row.runId ≠ r0 || row.queueState ≠ .held || s.forkPending r0
  | _, _ => true

/-- The contract for one run. -/
def forkContract (r0 : RunId) : Contract Stmt Db :=
  .assume fun st s => submittedForked r0 st = true ∧ gateConsulted r0 st s = true

/-- Nothing of the run is on its way: its jobs are parked behind the flag or off
    the queue, and only the run itself may hold or await a group. -/
structure Db.ForkGated (r0 : RunId) (s : Db) : Prop where
  idle : ∀ {j row}, s.job r0 j = some row →
    (row.queueState = .held ∨ row.queueState = .none) ∧ row.status ≠ .inProgress
  held : ∀ {j row}, s.job r0 j = some row → row.queueState = .held → s.forkPending r0 = true
  submits : ∀ {sub}, s.submits.get r0 = some sub → sub.forkApprovalPending = true
  jobsets : ∀ {id set}, s.jobsets.get id = some set → set.runId ≠ r0
  holds : ∀ {key row}, s.holds.get key = some row → row.holder.runId = r0 → row.holder = .run r0
  waits : ∀ {id row}, s.waits.get id = some row → row.holder.runId = r0 → row.holder = .run r0
  leases : ∀ {lease}, lease ∈ s.leases → lease.runId ≠ r0

section Gated

variable {r0 : RunId} {x : Pending} {s s' : Db} {st : Stmt} {j : JobId}

/-- The invariant of the discipline for one run. -/
abbrev Gatekept (r0 : RunId) (_ : Pending) (s : Db) : Prop := s.Tidy ∧ s.ForkGated r0

theorem not_blocked (hs : s.ForkGated r0) {row : Job} (hrow : s.job r0 j = some row)
    {q : QueueState} (hq : q ≠ .held ∧ q ≠ .none) : row.queueState ≠ q := by
  rintro rfl
  rcases (hs.idle hrow).1 with h | h
  · exact hq.1 h
  · exact hq.2 h

theorem not_submitted {q : Submit → Prop} (hq : ∀ sub, q sub → sub.forkApprovalPending = false) :
    ¬Submitted (Gatekept r0) r0 q := by
  rintro ⟨s0, sub, hs0, hsub, hsat⟩
  exact absurd (hs0.2.submits hsub) (by rw [hq sub hsat]; exact Bool.false_ne_true)

theorem not_leased : ¬Leased (Gatekept r0) r0 j := by
  rintro ⟨s0, lease, hs0, hmem, hr, _⟩
  exact hs0.2.leases hmem hr

theorem not_swept {q : Job → Prop} : ¬Swept (Gatekept r0) x s r0 j q := by
  rintro ⟨s0, row, hs0, _, hrow, hblocked, _⟩
  exact not_blocked hs0.2 hrow (by decide) hblocked

/-- No job of the run is known to the hand-over of a group. -/
theorem not_known_job : ¬Known (Gatekept r0) (· ≠ r0) (.job r0 j) := by
  rintro (h | ⟨s0, ⟨y, hs0⟩, h⟩)
  · exact h rfl
  · rcases h with ⟨key, row, hrow, heq⟩ | ⟨id, row, hrow, heq⟩ | ⟨row, hrow, hq⟩ |
      ⟨sub, hsub, hfork⟩
    · exact absurd (heq.symm.trans (hs0.2.holds hrow (by rw [heq]; rfl))) HolderRow.noConfusion
    · exact absurd (heq.symm.trans (hs0.2.waits hrow (by rw [heq]; rfl))) HolderRow.noConfusion
    · exact not_blocked hs0.2 hrow (by decide) hq
    · exact absurd (hs0.2.submits hsub) (by rw [hfork]; exact Bool.false_ne_true)

theorem holderOf_run {s0 : Db} {row : HolderRow} {jobIds : List JobId}
    (h : s0.holderOf row = .jobSet r0 jobIds) (hrow : row.runId = r0 → row = .run r0) : False := by
  have hr : row.runId = r0 := by
    rw [← holderOf_runId s0 row, h]
    rfl
  rw [hrow hr] at h
  exact Holder.noConfusion h

theorem not_known_jobSet {jobIds : List JobId} :
    ¬Known (Gatekept r0) (· ≠ r0) (.jobSet r0 jobIds) := by
  rintro ⟨s0, ⟨y, hs0⟩, h⟩
  rcases h with ⟨id, set, hset, hr, _⟩ | ⟨key, row, hrow, heq⟩ | ⟨id, row, hrow, heq⟩ |
    ⟨j, row, _, hrow, hq⟩
  · exact hs0.2.jobsets hset hr
  · exact holderOf_run heq (hs0.2.holds hrow)
  · exact holderOf_run heq (hs0.2.waits hrow)
  · exact not_blocked hs0.2 hrow (by decide) hq

/-- A holder of the run that takes or awaits a group is the run itself. -/
theorem holder_is_run {row : HolderRow} (hr : row.runId = r0)
    (h : ∃ h, s.encodes h row ∧ Known (Gatekept r0) (· ≠ r0) h) : row = .run r0 := by
  obtain ⟨h, henc, hk⟩ := h
  cases row with
  | run r => exact congrArg HolderRow.run hr
  | job r j =>
      cases h with
      | job r' j' =>
          obtain ⟨rfl, rfl⟩ := henc
          change r = r0 at hr
          subst hr
          exact absurd hk not_known_job
      | run | jobSet => exact absurd henc id
  | jobSet r id =>
      cases h with
      | jobSet r' jobIds =>
          obtain ⟨rfl, _⟩ := henc
          change r = r0 at hr
          subst hr
          exact absurd hk not_known_jobSet
      | run | job => exact absurd henc (fun h => h)

variable {c : Contract Stmt Db}

/-- A write to a job of the run leaves it parked or off the queue. -/
theorem idle_write {w : JobWrite} {row : Job}
    (hsite : JobSite (Gatekept r0) (· ≠ r0) x s r0 j w) (hs : s.ForkGated r0)
    (hrely : gateConsulted r0 (.job w r0 j) s = true) (hrow : s.job r0 j = some row)
    (hguard : w.guard row = true) :
    ((w.write row).queueState = .held ∧ row.queueState = .held ∨ (w.write row).queueState = .none) ∧
      (w.write row).status ≠ .inProgress := by
  have hopen : ∀ {status : ExecutionStatus}, status.isTerminal = true → status ≠ .inProgress := by
    rintro status h rfl
    exact absurd h Bool.false_ne_true
  -- writes that end the job take it off the queue
  cases w with
  | finish site status => exact ⟨.inr rfl, hopen hsite⟩
  | fold status outputs => exact ⟨.inr rfl, hopen hsite.2⟩
  | gateFailed status => exact ⟨.inr rfl, hopen hsite.2.1⟩
  | starve => exact ⟨.inr rfl, ExecutionStatus.noConfusion⟩
  | expandedMatrix => exact absurd hsite.2 not_leased
  | startCaller => exact absurd hsite.2 not_leased
  -- an entry into the queue names a run whose gate was passed, which this one is not
  | enqueueReady site =>
      cases site with
      | promoteNext => exact absurd hsite.1 not_known_job
      | sweep => exact absurd hsite not_swept
      | submit => exact absurd hsite.2 (not_submitted fun _ h => h.2)
      | rerun => exact absurd rfl hsite.2
  | park site =>
      cases site with
      | sweepJobset => exact absurd hsite.1 not_swept
      | sweepEnvironment => exact absurd hsite.1 not_swept
      | sweepGate => exact absurd hsite.1 not_swept
      | submit => exact absurd hsite.2.1 (not_submitted fun _ h => h.2)
      | rerun => exact absurd rfl hsite.2.1
  -- a row is only released by a run that is not pending, or by its approval
  | unpark site =>
      cases site with
      | promoteRun =>
          obtain ⟨row', hrow', hheld, _⟩ := hsite
          have hflag := hs.held hrow' hheld
          simp only [gateConsulted, ne_eq, not_true_eq_false, decide_false, Bool.false_or, hflag,
            Bool.not_true, Bool.false_eq_true] at hrely
      | promoteJobset =>
          obtain ⟨jobIds, _, hk⟩ := hsite
          exact absurd hk not_known_jobSet
      | releaseParked =>
          -- the approval found the flag down, but the rows it releases are held under it
          obtain ⟨s0, run, row0, ⟨y, hs0⟩, hrun, happroved, hrow0, hheld⟩ := hsite
          have hflag := hs0.2.held hrow0 hheld
          rw [Db.forkPending, hrun, Option.any_some, happroved] at hflag
          exact absurd hflag Bool.false_ne_true
  -- no sweep of the run has come this far
  | deferExpansion site =>
      cases site with
      | caller => exact absurd hsite not_swept
      | matrix => exact absurd hsite not_swept
  -- these writes ask for a row in a state that no row of a gated run has
  | leaseExpansion =>
      exact absurd (of_decide_eq_true hguard) (not_blocked hs hrow (by decide))
  | claim => exact absurd (of_decide_eq_true hguard) (not_blocked hs hrow (by decide))
  | requeue =>
      obtain ⟨_, row', hrow', hclaimed⟩ := hsite
      exact absurd hclaimed (not_blocked hs hrow' (by decide))
  | restartCaller => exact absurd rfl hsite.2
  | reset => exact absurd rfl hsite.2.1
  | resetConcluded => exact absurd rfl hsite.2.1
  -- the other writes leave status and place in the queue alone
  | bumpGeneration | setGate | setOutputs | setRunsOn | setMessage | setTemplate
  | setConditionContext | setReusableMeta =>
      obtain ⟨hq, hst⟩ := hs.idle hrow
      exact ⟨hq.imp (fun h => ⟨h, h⟩) id, hst⟩

/-- A job of the run that a statement rewrites stays parked or goes off the
    queue. -/
theorem idle_onJob {row : Job} (hsite : Site (Gatekept r0) (· ≠ r0) c x s st)
    (hs : s.ForkGated r0) (hrely : gateConsulted r0 st s = true) (hrow : s.job r0 j = some row) :
    ((st.onJob s row).queueState = .held ∧ row.queueState = .held ∨
      (st.onJob s row).queueState = .none) ∧ (st.onJob s row).status ≠ .inProgress := by
  have hkey : row.key = (r0, j) := Table.key_of_get hrow
  -- what the statement does not touch is as idle as before
  have hkeep : (row.queueState = .held ∧ row.queueState = .held ∨ row.queueState = .none) ∧
      row.status ≠ .inProgress :=
    ⟨(hs.idle hrow).1.imp (fun h => ⟨h, h⟩) id, (hs.idle hrow).2⟩
  cases st with
  | job w r1 j1 =>
      simp only [Stmt.onJob]
      split
      · next hcond =>
          rw [Bool.and_eq_true, decide_eq_true_eq, hkey, Prod.mk.injEq] at hcond
          obtain ⟨⟨rfl, rfl⟩, hguard⟩ := hcond
          exact idle_write hsite hs hrely hrow hguard
      · exact hkeep
  | cancelRunJobs | expireRunJobs =>
      simp only [Stmt.onJob]
      split
      · exact ⟨.inr rfl, ExecutionStatus.noConfusion⟩
      · exact hkeep
  | refreshRemainingNeeds | refreshRunRemainingNeeds =>
      simp only [Stmt.onJob]
      split
      · exact hkeep
      · exact hkeep
  | resumeExpansions =>
      simp only [Stmt.onJob]
      split
      · next h => exact absurd h (not_blocked hs hrow (by decide))
      · exact hkeep
  | _ => exact hkeep

theorem idle_insert {row : Job} (hsite : Site (Gatekept r0) (· ≠ r0) c x s st)
    (hins : st.insertsJob row) (hr : row.runId = r0) (hrely : gateConsulted r0 st s = true) :
    (row.queueState = .held ∧ s.forkPending r0 = true ∨ row.queueState = .none) ∧
      row.status ≠ .inProgress := by
  rcases hins with rfl | rfl
  · obtain ⟨_, _, hcases⟩ := hsite
    rw [hr] at hcases
    rcases hcases with ⟨hterm, hq⟩ | ⟨hst, hq, _⟩ | ⟨_, _, _, _, hsub⟩ | ⟨_, _, _, hlease⟩
    · refine ⟨.inr hq, fun h => ?_⟩
      rw [h] at hterm
      exact absurd hterm Bool.false_ne_true
    · simp only [gateConsulted, hr, hq, ne_eq, not_true_eq_false, decide_false,
        Bool.false_or] at hrely
      exact ⟨.inl ⟨hq, hrely⟩, by rw [hst]; exact ExecutionStatus.noConfusion⟩
    · exact absurd hsub (not_submitted fun _ h => h.2)
    · exact absurd hlease not_leased
  · obtain ⟨_, ⟨_, hlease⟩, _⟩ := hsite
    rw [hr] at hlease
    exact absurd hlease not_leased

/-- The flag falls only with the jobs of the run settled, or with the run. -/
theorem forkPending_apply (hsite : Site (Gatekept r0) (· ≠ r0) c x s st)
    (hrely : submittedForked r0 st = true) (happly : st.apply s = .ok s')
    (h : s.forkPending r0 = true) :
    s'.forkPending r0 = true ∨ s.allSettled r0 ∨ st = .deleteRun r0 := by
  obtain ⟨run, hrun, hflag⟩ := (Option.any_eq_true _ _).mp h
  have hkey : run.runId = r0 := Table.key_of_get hrun
  -- the run is still there, and the statement rewrote its row
  rcases run_apply happly hrun with hrun' | ⟨hdel, _⟩
  · have hkeep : (st.onRun s run).forkApprovalPending = true → s'.forkPending r0 = true := by
      intro h
      rw [Db.forkPending, hrun', Option.any_some]
      exact h
    cases st with
    | run w r =>
        by_cases hcond : (decide (run.runId = r) && w.guard run) = true
        · have hcond' := hcond
          rw [Bool.and_eq_true, decide_eq_true_eq, hkey] at hcond'
          obtain ⟨rfl, _⟩ := hcond'
          simp only [Stmt.onRun, hcond, if_true] at hkeep
          cases w with
          | expireFork => exact .inr (.inl hsite.2)
          | clearFork => exact .inr (.inl hsite)
          | setFork pending requestedAt approvedAt =>
              simp only [submittedForked, ne_eq, not_true_eq_false, decide_false,
                Bool.false_or] at hrely
              exact .inl (hkeep hrely)
          | _ => exact .inl (hkeep hflag)
        · simp only [Stmt.onRun, hcond, Bool.false_eq_true, if_false] at hkeep
          exact .inl (hkeep hflag)
    -- a summary does not touch the flag
    | summarize site r =>
        refine .inl (hkeep ?_)
        simp only [Stmt.onRun]
        split
        · simp only [Db.summarizeRow]
          split
          · exact hflag
          · split
            · exact hflag
            · split <;> exact hflag
        · exact hflag
    | _ => exact .inl (hkeep hflag)
  · exact .inr (.inr hdel)

theorem forkGated_apply (hsite : Site (Gatekept r0) (· ≠ r0) (forkContract r0) x s st)
    (ht : s.Tidy) (hs : s.ForkGated r0) (hrely : (forkContract r0).rely st s)
    (happly : st.apply s = .ok s') : s'.ForkGated r0 where
  idle := by
    intro j row' hrow'
    rcases job_of_apply happly hrow' with ⟨row, hrow, rfl⟩ | ⟨hins, _, hr, _⟩
    · obtain ⟨hq, hst⟩ := idle_onJob hsite hs hrely.2 hrow
      exact ⟨hq.imp And.left id, hst⟩
    · obtain ⟨hq, hst⟩ := idle_insert hsite hins hr hrely.2
      exact ⟨hq.imp And.left id, hst⟩
  held := by
    intro j row' hrow' hheld
    have hflag : s.forkPending r0 = true := by
      rcases job_of_apply happly hrow' with ⟨row, hrow, rfl⟩ | ⟨hins, _, hr, _⟩
      · rcases (idle_onJob hsite hs hrely.2 hrow).1 with ⟨_, h⟩ | h
        · exact hs.held hrow h
        · exact absurd (hheld.symm.trans h) QueueState.noConfusion
      · rcases (idle_insert hsite hins hr hrely.2).1 with ⟨_, h⟩ | h
        · exact h
        · exact absurd (hheld.symm.trans h) QueueState.noConfusion
    -- what a statement leaves of the flag: it stays up, its rows are settled, or the run is gone
    rcases forkPending_apply hsite hrely.1 happly hflag with h | hsettled | rfl
    · exact h
    · -- The rows of a run whose flag falls are settled, and a settled row is not held.
      rcases job_of_apply happly hrow' with ⟨row, hrow, rfl⟩ | ⟨hins, _, hr, _⟩
      · rcases (idle_onJob hsite hs hrely.2 hrow).1 with ⟨_, h⟩ | h
        · have hidle := ht.none_of_terminal hrow (hsettled j row hrow)
          exact absurd hidle (by rw [Job.waiting, h]; decide)
        · exact absurd (hheld.symm.trans h) QueueState.noConfusion
      · have hsame : s'.runs = s.runs := by
          rcases hins with rfl | rfl
          · exact apply_same .runs happly rfl
          · exact apply_same .runs happly rfl
        rw [Db.forkPending, Db.run, hsame]
        exact hflag
    · have hr : row'.runId = r0 := congrArg Prod.fst (Table.key_of_get hrow')
      simp only [Stmt.apply, Except.ok.injEq] at happly
      subst happly
      rw [Db.job, Table.get_deleteWhere, Option.filter_eq_some_iff] at hrow'
      exact absurd hrow'.2 (by simp only [hr, decide_true, Bool.not_true, Bool.false_eq_true,
        not_false_eq_true])
  submits := by
    intro sub hsub
    -- a submission that is kept repeats the flag of the run it was opened for
    rcases submit_of_apply happly hsub with hsub | ⟨rfl, hr⟩
    · exact hs.submits hsub
    · rcases hsite.2 with ⟨s0, row, _, hins, hrow, hfork⟩ | ⟨s0, sub0, hs0, hsub0, _, hfork⟩
      · have hins := hins.1
        rw [submittedForked, hrow, hr] at hins
        simp only [ne_eq, not_true_eq_false, decide_false, Bool.false_or] at hins
        rw [← hfork]
        exact hins
      · rw [hfork]
        exact hs0.2.submits (hr ▸ hsub0)
  jobsets := by
    -- no set of the run's jobs was known before, so none can be inserted
    intro id set' hset' hr
    rcases jobset_of_apply happly hset' with ⟨set, hset, hrun, _⟩ | ⟨rfl, _⟩
    · exact hs.jobsets hset (hrun.symm.trans hr)
    · have hk : Known (Gatekept r0) (· ≠ r0) (.jobSet set'.runId set'.jobIds) := hsite
      rw [hr] at hk
      exact not_known_jobSet hk
  holds := by
    -- only the run itself holds or waits for a group
    intro key row hrow hr
    rcases hold_of_apply happly hrow with ⟨hrow, _⟩ | ⟨display, rfl, _⟩
    · exact hs.holds hrow hr
    · exact holder_is_run hr (hsite.imp fun _ hh => ⟨hh.1, hh.2.1⟩)
  waits := by
    intro id row hrow hr
    rcases wait_of_apply happly hrow with ⟨hrow, _⟩ | ⟨rfl | rfl, _⟩
    · exact hs.waits hrow hr
    · exact holder_is_run hr (hsite.imp fun _ hh => ⟨hh.1, hh.2.1⟩)
    · exact holder_is_run hr (hsite.2.imp fun _ hh => ⟨hh.1, hh.2.1⟩)
  leases := by
    -- a lease needs a row that waits for its expansion, and none does
    intro lease hmem hr
    rcases lease_of_apply happly hmem with hmem | rfl
    · exact hs.leases hmem hr
    · obtain ⟨_, row, hrow, hq⟩ := hsite
      rw [hr] at hrow
      exact not_blocked hs hrow (by decide) hq.1

end Gated

theorem forkGated_kept (r0 : RunId) : Kept (Gatekept r0) (· ≠ r0) (forkContract r0) :=
  Kept.of_plain fun hsite ht hs hrely happly =>
    ⟨forkGated_apply hsite ht hs hrely happly, trivial⟩

theorem forkGated_init (r0 : RunId) : Db.init.ForkGated r0 where
  idle h := absurd h (by simp only [Db.init, Db.job, Table.get_empty, reduceCtorEq,
    not_false_eq_true])
  held h := absurd h (by simp only [Db.init, Db.job, Table.get_empty, reduceCtorEq,
    not_false_eq_true])
  submits h := absurd h (by simp only [Db.init, Table.get_empty, reduceCtorEq, not_false_eq_true])
  jobsets h := absurd h (by simp only [Db.init, Table.get_empty, reduceCtorEq, not_false_eq_true])
  holds h := absurd h (by simp only [Db.init, Table.get_empty, reduceCtorEq, not_false_eq_true])
  waits h := absurd h (by simp only [Db.init, Table.get_empty, reduceCtorEq, not_false_eq_true])
  leases h := absurd h List.not_mem_nil

/-- A run submitted with its approval pending, never approved and not started
    again has no job that is ready, claimed or in progress. -/
theorem fork_gate_holds {r : RunId} {s : Db}
    (hrun : Runs (Call.notRerun r)
      (fun st s => submittedForked r st = true ∧ gateConsulted r st s = true) Db.init s)
    {j : JobId} {row : Job} (hrow : s.job r j = some row) : row.active = false := by
  have hgated : s.Tidy ∧ s.ForkGated r :=
    Runs.kept (forkGated_kept r) (fun _ _ h => h) (fun _ _ h => h) hrun
      ⟨tidy_init, forkGated_init r⟩
  obtain ⟨hq, hst⟩ := hgated.2.idle hrow
  rcases hq with hq | hq
  · simp only [Job.active, hq, hst, reduceCtorEq, decide_false, Bool.or_self]
  · simp only [Job.active, hq, hst, reduceCtorEq, decide_false, Bool.or_self]

/-- A submission for a fork pull request that awaits its approval. -/
def forkedRun : SubmitRun :=
  { SubmitRun.plain [.plain "build" [] .plain] with
    forkApprovalPending := true, forkApprovalRequestedAt := some 0 }

theorem forkedRun_parked : ∃ s row,
    Runs (Call.notRerun 0)
      (fun st s => submittedForked 0 st = true ∧ gateConsulted 0 st s = true) Db.init s ∧
    s.job 0 "build" = some row ∧ row.queueState = .held ∧ row.active = false := by
  have hall : (Call.runAll (fun st s => submittedForked 0 st && gateConsulted 0 st s)
      (forkedRun.calls 0 ++ [(Command.promoteReadyJobs none).call]) Db.init).any (fun s =>
      (s.job 0 "build").any fun row => row.queueState = .held) = true := by decide_cbv
  obtain ⟨s, hs, h⟩ := (Option.any_eq_true _ _).mp hall
  obtain ⟨row, hrow, hq⟩ := (Option.any_eq_true _ _).mp h
  have hrun : Runs (Call.notRerun 0)
      (fun st s => submittedForked 0 st = true ∧ gateConsulted 0 st s = true) Db.init s := by
    refine run_of_runAll (fun call hcall _ rerun hrerun => ?_) ?_ hs
    · simp only [SubmitRun.calls, List.cons_append, List.nil_append, List.mem_cons,
        List.not_mem_nil, or_false] at hcall
      rcases hcall with rfl | rfl | rfl | rfl <;> exact absurd hrerun Command.noConfusion
    · intro st s htest
      exact Bool.and_eq_true_iff.mp htest
  exact ⟨s, row, hrun, hrow, of_decide_eq_true hq, fork_gate_holds hrun hrow⟩

/-- The parked run is cancelled and started again. -/
def cancelledForkCalls : List Call :=
  forkedRun.calls 0 ++
    [(Command.cancelRun 0).call, (Command.rerunRun (.plain 0)).call]

theorem rerun_bypasses_fork_gate : ∃ s row,
    Runs (fun _ _ => True) (fun st _ => submittedForked 0 st = true) Db.init s ∧
    s.job 0 "build" = some row ∧ row.queueState = .ready := by
  have hall : (Call.runAll (fun st _ => submittedForked 0 st) cancelledForkCalls Db.init).any
      (fun s => (s.job 0 "build").any fun row => row.queueState = .ready) = true := by
    decide_cbv
  obtain ⟨s, hs, h⟩ := (Option.any_eq_true _ _).mp hall
  obtain ⟨row, hrow, hq⟩ := (Option.any_eq_true _ _).mp h
  exact ⟨s, row, run_of_runAll (fun _ _ _ => trivial) (fun _ _ h => h) hs, hrow,
    of_decide_eq_true hq⟩

end Preloop
