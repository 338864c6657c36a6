import PreloopControl.Discipline.Invariant

/-!
# Nothing Runs in a Completed Run

A submission is a head, chunks and a last phase, each a transaction of its own,
and the run can be completed between any two of them. Once it is completed no
job of it may be visible to a runner.

The invariant behind it is about statuses and not about the queue: in a
completed run every job is settled, expanded matrix parents apart, which are
never dispatched. A settled row does not wait (`Db.Tidy`), so it is not ready.

The program does not keep the invariant by itself. A chunk inserts its jobs
whatever became of the run, a failed submission is marked completed over the
jobs it had already inserted, and writes on rows that were read earlier in the
transaction bring settled rows back. `entersOpen` says that none of these
happens to one run. What happens to the others does not matter.

## Main definitions

* `entersOpen`: The jobs of a run enter it while it is open, and no statement opens one
  of a completed run.

## Theorems

* `quiet_of_entersOpen`: Under that condition nothing is ready or claimed in a
  completed run.
* `chunk_revives_cancelled_run`: Without it a chunk makes a job of a cancelled
  run ready.
-/

namespace Preloop

open Txn

/-- The row is not settled, if it is there. -/
def Db.unsettledRow (s : Db) (r : RunId) (j : JobId) : Bool :=
  (s.job r j).all fun row => !row.status.isTerminal

/-- While the run is completed no job of it is made ready or reset, none is inserted
    unsettled, and parking and starting a caller meet unsettled rows; no matrix parent is
    made ready; a failed submission that completes the run left no open job behind. -/
def entersOpen (r0 : RunId) : Stmt → Db → Bool
  | .job (.enqueueReady _) r j, s =>
    r ≠ r0 || (s.job r j).all fun row => !s.runCompleted r && row.kind ≠ .matrixParent
  | .job (.park _) r j, s => r ≠ r0 || !s.runCompleted r || s.unsettledRow r j
  | .job .startCaller r j, s => r ≠ r0 || !s.runCompleted r || s.unsettledRow r j
  | .job (.reset ..) r _, s => r ≠ r0 || !s.runCompleted r
  | .job .restartCaller r _, s => r ≠ r0 || !s.runCompleted r
  | .insertJob row, s => row.runId ≠ r0 || row.status.isTerminal || !s.runCompleted row.runId
  | .run .poison r, s =>
    r ≠ r0 || s.runCompleted r ||
      (s.jobsOf r).all fun j => j.status.isTerminal || j.kind = .matrixParent
  | _, _ => true

/-- Once the run is completed every job of it is settled or a matrix parent, and no matrix
    parent of it is offered to runners. -/
structure Db.Closed (s : Db) (r : RunId) : Prop where
  settled : ∀ {j row}, s.runCompleted r = true → s.job r j = some row →
    row.status.isTerminal = true ∨ row.kind = .matrixParent
  offered : ∀ {j row}, s.job r j = some row →
    row.queueState = .ready ∨ row.queueState = .claimed → row.kind ≠ .matrixParent

section Closed

variable {rr : RunId → Prop} {x : Pending} {s s' : Db} {st : Stmt} {r0 : RunId}

theorem unsettledRow_eq {r : RunId} {j : JobId} {row : Job} (h : s.unsettledRow r j = true)
    (hrow : s.job r j = some row) : row.status.isTerminal = false := by
  rw [Db.unsettledRow, hrow, Option.all_some, Bool.not_eq_true'] at h
  exact h

theorem onJob_kind (st : Stmt) (s : Db) (row : Job) : (st.onJob s row).kind = row.kind :=
  congrArg Prod.fst (st.onJob_frozen s row)

/-- A row a statement leaves ready or claimed was so before, or was put there
    from a row that is no matrix parent. -/
theorem offered_onJob {P : Pending → Db → Prop} {c : Contract Stmt Db}
    (hsite : Site P rr c x s st) (hs : s.Closed r0) (hrely : entersOpen r0 st s = true)
    {j : JobId} {row : Job} (hrow : s.job r0 j = some row)
    (h : (st.onJob s row).queueState = .ready ∨ (st.onJob s row).queueState = .claimed) :
    row.kind ≠ .matrixParent := by
  have hkey : row.key = (r0, j) := Table.key_of_get hrow
  cases st with
  -- only four writes leave a row ready or claimed: made ready, claimed, put back, or untouched
  | job w r1 j0 =>
      simp only [Stmt.onJob] at h
      split at h
      · next hcond =>
          rw [Bool.and_eq_true, decide_eq_true_eq, hkey, Prod.mk.injEq] at hcond
          obtain ⟨⟨rfl, rfl⟩, hguard⟩ := hcond
          cases w with
          | enqueueReady site =>
              simp only [entersOpen, hrow, Option.all_some, ne_eq, not_true_eq_false,
                decide_false, Bool.false_or, Bool.and_eq_true, decide_eq_true_eq] at hrely
              exact hrely.2
          | claim => exact hs.offered hrow (.inl (of_decide_eq_true hguard))
          | requeue =>
              obtain ⟨_, row', hrow', hclaimed⟩ := hsite
              rw [hrow, Option.some.injEq] at hrow'
              exact hs.offered hrow (.inr (hrow' ▸ hclaimed))
          | reset status queueState needs gate =>
              obtain ⟨_, _, _, _, ⟨hq, _⟩ | hq | hq⟩ := hsite <;>
                simp only [JobWrite.write, hq, reduceCtorEq, or_self] at h
          | bumpGeneration | setGate | setOutputs | setRunsOn | setMessage | setTemplate
          | setConditionContext | setReusableMeta => exact hs.offered hrow h
          | _ => simp only [JobWrite.write, reduceCtorEq, or_self] at h
      · exact hs.offered hrow h
  | cancelRunJobs | expireRunJobs | resumeExpansions =>
      simp only [Stmt.onJob] at h
      split at h
      · simp only [reduceCtorEq, or_self] at h
      · exact hs.offered hrow h
  | refreshRemainingNeeds | refreshRunRemainingNeeds =>
      simp only [Stmt.onJob] at h
      split at h
      · exact hs.offered hrow h
      · exact hs.offered hrow h
  | _ => exact hs.offered hrow h

theorem offered_insert {P : Pending → Db → Prop} {c : Contract Stmt Db} {row : Job}
    (hsite : Site P rr c x s st) (hins : st.insertsJob row) :
    row.queueState ≠ .ready ∧ row.queueState ≠ .claimed := by
  rcases hins with rfl | rfl
  · rcases hsite.2.2 with ⟨_, hq⟩ | ⟨_, hq, _⟩ | ⟨_, _, hq | hq, _⟩ | ⟨_, hq, _⟩ <;>
      rw [hq] <;> exact ⟨QueueState.noConfusion, QueueState.noConfusion⟩
  · rw [hsite.2.2.2.2.1]
    exact ⟨QueueState.noConfusion, QueueState.noConfusion⟩

/-- In a run that was completed before, no statement opens a settled row. -/
theorem settled_stays {P : Pending → Db → Prop} {c : Contract Stmt Db}
    (hsite : Site P rr c x s st) (ht : s.Tidy) (hrely : entersOpen r0 st s = true)
    {j : JobId} {row : Job} (hdone : s.runCompleted r0 = true) (hrow : s.job r0 j = some row)
    (hterm : row.status.isTerminal = true) : (st.onJob s row).status.isTerminal = true := by
  rcases settled_onJob hsite ht hrow hterm with ⟨hst, _⟩ | ⟨w, rfl, hblind⟩
  · rw [hst]
    exact hterm
  · have hkey : row.key = (r0, j) := Table.key_of_get hrow
    -- the writes that do not look at the status; the condition speaks of the first three kinds
    cases w with
    | park | startCaller =>
        simp only [entersOpen, ne_eq, not_true_eq_false, decide_false, hdone, Bool.not_true,
          Bool.false_or] at hrely
        exact absurd hterm (by rw [unsettledRow_eq hrely hrow]; exact Bool.false_ne_true)
    | enqueueReady =>
        simp only [entersOpen, ne_eq, not_true_eq_false, decide_false, hrow, Option.all_some,
          hdone, Bool.not_true, Bool.false_and, Bool.or_self, Bool.false_eq_true] at hrely
    | reset | restartCaller =>
        simp only [entersOpen, ne_eq, not_true_eq_false, decide_false, hdone, Bool.not_true,
          Bool.or_self, Bool.false_eq_true] at hrely
    | fold status outputs =>
        simp only [Stmt.onJob, hkey, decide_true, JobWrite.guard, Bool.and_self, if_true,
          JobWrite.write]
        exact hsite.2
    | gateFailed status =>
        simp only [Stmt.onJob, hkey, decide_true, JobWrite.guard, Bool.and_self, if_true,
          JobWrite.write]
        exact hsite.2.1
    | resetConcluded status =>
        simp only [Stmt.onJob, hkey, decide_true, JobWrite.guard, Bool.and_self, if_true,
          JobWrite.write]
        exact hsite.2.2
    | _ => exact absurd hblind Bool.false_ne_true

/-- A row that does not count for its run is a matrix parent. -/
theorem kind_of_not_leaf {row : Job} (h : s.isLeaf row = false) : row.kind = .matrixParent := by
  rw [Db.isLeaf, Bool.not_eq_false', Bool.and_eq_true, decide_eq_true_eq] at h
  exact h.1

/-- A run that is being completed has only settled jobs, matrix parents apart. -/
theorem settled_of_completing
    (hsite : Site (fun _ s => s.Tidy ∧ s.Closed r0) rr
      (.assume fun st s => entersOpen r0 st s = true) x s st)
    (hrely : entersOpen r0 st s = true) (hopen : s.runCompleted r0 = false)
    (hends : (∃ w, st = .run w r0 ∧ w.ends = true) ∨
      ∃ site, st = .summarize site r0 ∧ s.concludes r0)
    {j : JobId} {row : Job} (hrow : s.job r0 j = some row) :
    row.status.isTerminal = true ∨ row.kind = .matrixParent := by
  rcases hends with ⟨w, rfl, hends⟩ | ⟨site, rfl, hterm, _⟩
  -- cancellation and expiry have settled the jobs before they complete the run
  · cases w with
    | cancel => exact .inl (hsite.2 j row hrow)
    | expireFork => exact .inl (hsite.2 j row hrow)
    | poison =>
        simp only [entersOpen, ne_eq, not_true_eq_false, decide_false, hopen, Bool.false_or,
          List.all_eq_true, Bool.or_eq_true, decide_eq_true_eq] at hrely
        have hkey : row.key = (r0, j) := Table.key_of_get hrow
        have hr : row.runId = r0 := congrArg Prod.fst hkey
        exact hrely row (Table.mem_select.mpr ⟨hkey ▸ hrow, decide_eq_true hr⟩)
    -- a cancelled arrival inserted its jobs settled, or none of them was open before
    | arrivalCancelled =>
        obtain ⟨_, _, _, hrows⟩ := hsite
        rcases hrows j row hrow with ⟨hterm, _⟩ | ⟨s0, row0, hs0, hdone, hrow0, hst, _, hfrozen⟩
        · exact .inl hterm
        · have hkind : row.kind = row0.kind := congrArg Prod.fst hfrozen
          rw [hst, hkind]
          exact hs0.2.settled hdone hrow0
    | _ => exact absurd hends Bool.false_ne_true
  -- a summary completes the run when every leaf is settled, and what is no leaf is a parent
  · rw [summary_isTerminal, List.all_eq_true] at hterm
    have hkey : row.key = (r0, j) := Table.key_of_get hrow
    have hj : row.jobId = j := congrArg Prod.snd hkey
    cases hleaf : s.isLeaf row with
    | true => exact .inl (hterm row (mem_runGraph.mpr ⟨hj ▸ hrow, hleaf⟩))
    | false => exact .inr (kind_of_not_leaf hleaf)

theorem closed_apply
    (hsite : Site (fun _ s => s.Tidy ∧ s.Closed r0) rr
      (.assume fun st s => entersOpen r0 st s = true) x s st) (ht : s.Tidy) (hs : s.Closed r0)
    (hrely : entersOpen r0 st s = true) (happly : st.apply s = .ok s') : s'.Closed r0 where
  settled := by
    intro j row' hdone' hrow'
    rcases job_of_apply happly hrow' with ⟨row, hrow, rfl⟩ | ⟨hins, _, hr, _⟩
    · rw [onJob_kind]
      cases hdone : s.runCompleted r0 with
      | true =>
          rcases hs.settled hdone hrow with hterm | hkind
          · exact .inl (settled_stays hsite ht hrely hdone hrow hterm)
          · exact .inr hkind
      | false =>
          -- The statement writes a run row, so the job rows are as they were.
          have hends := (completed_apply hsite happly hdone').resolve_left (by
            rw [hdone]
            exact Bool.false_ne_true)
          have hsame : st.onJob s row = row := by
            rcases hends with ⟨w, rfl, _⟩ | ⟨site, rfl, _⟩ <;> rfl
          rw [hsame]
          exact settled_of_completing hsite hrely hdone hends hrow
    · rcases hins with rfl | rfl
      · rcases completed_apply hsite happly hdone' with hdone | ⟨w, h, _⟩ | ⟨site, h, _⟩
        · simp only [entersOpen, hr, ne_eq, not_true_eq_false, decide_false, Bool.false_or, hdone,
            Bool.not_true, Bool.or_false] at hrely
          exact .inl hrely
        · exact absurd h Stmt.noConfusion
        · exact absurd h Stmt.noConfusion
      · exact .inr hsite.2.2.1
  offered := by
    intro j row' hrow' hoffered
    rcases job_of_apply happly hrow' with ⟨row, hrow, rfl⟩ | ⟨hins, _⟩
    · rw [onJob_kind]
      exact offered_onJob hsite hs hrely hrow hoffered
    · obtain ⟨hready, hclaimed⟩ := offered_insert hsite hins
      exact absurd hoffered (not_or.mpr ⟨hready, hclaimed⟩)

end Closed

theorem closed_kept (r0 : RunId) : Kept (fun _ s => s.Tidy ∧ s.Closed r0) (fun _ => True)
    (.assume fun st s => entersOpen r0 st s = true) :=
  Kept.of_plain fun hsite ht hs hrely happly => ⟨closed_apply hsite ht hs hrely happly, trivial⟩

theorem closed_init (r : RunId) : Db.init.Closed r where
  settled _ h := absurd h (by simp only [Db.init, Db.job, Table.get_empty, reduceCtorEq,
    not_false_eq_true])
  offered h := absurd h (by simp only [Db.init, Db.job, Table.get_empty, reduceCtorEq,
    not_false_eq_true])

/-- Whatever the interleaving of the phases of a run's submission with other commands:
    once the run is completed, none of its jobs is ready or claimed. -/
theorem quiet_of_entersOpen {s : Db} {r : RunId}
    (hrun : Runs (fun _ _ => True) (fun st s => entersOpen r st s = true) Db.init s)
    (hdone : s.runCompleted r = true) {j : JobId} {row : Job} (hrow : s.job r j = some row) :
    row.queueState ≠ .ready ∧ row.queueState ≠ .claimed := by
  obtain ⟨ht, hs⟩ := Runs.kept (closed_kept r) (fun _ _ h => h) (fun _ _ _ _ _ => trivial) hrun
    ⟨tidy_init, closed_init r⟩
  have hidle : ¬(row.queueState = .ready ∨ row.queueState = .claimed) := by
    intro hoffered
    have hterm := (hs.settled hdone hrow).resolve_right (hs.offered hrow hoffered)
    have hwait := ht.none_of_terminal hrow hterm
    rcases hoffered with h | h
    · exact absurd hwait (by rw [Job.waiting, h]; decide)
    · exact absurd hwait (by rw [Job.waiting, h]; decide)
  exact not_or.mp hidle

/-- The report of a job of the first run that succeeded. -/
def reportSuccess (j : JobId) (agentJobId : Option String) : Command :=
  .completeJob ⟨0, j, agentJobId, .success, [], rfl⟩

/-- A run of one job that is submitted, dispatched and reported. -/
def oneJobCalls : List Call :=
  (SubmitRun.plain [.plain "build" [] .plain]).calls 0 ++
    [(Command.putRunner ⟨1, ["self-hosted"]⟩).call, (Command.openSession "s" 1).call,
      (Command.poll "s" 0 "build").call,
      (reportSuccess "build" none).call]

theorem quiet_after_oneJobCalls : ∃ s, Runs (fun _ _ => True)
    (fun st s => entersOpen 0 st s = true) Db.init s ∧ s.runCompleted 0 = true ∧
    ∃ row, s.job 0 "build" = some row ∧ row.queueState ≠ .ready ∧ row.queueState ≠ .claimed := by
  have hall : (Call.runAll (entersOpen 0) oneJobCalls Db.init).any (fun s =>
      s.runCompleted 0 && (s.job 0 "build").isSome) = true := by decide_cbv
  obtain ⟨s, hs, hdone⟩ := (Option.any_eq_true _ _).mp hall
  rw [Bool.and_eq_true] at hdone
  obtain ⟨row, hrow⟩ := Option.isSome_iff_exists.mp hdone.2
  have hrun : Runs (fun _ _ => True) (fun st s => entersOpen 0 st s = true) Db.init s :=
    run_of_runAll (fun _ _ _ => trivial) (fun _ _ h => h) hs
  exact ⟨s, hrun, hdone.1, row, hrow, quiet_of_entersOpen hrun hdone.1 hrow⟩

/-- The head of a submission commits, the run is cancelled, and the chunk then
    makes its job ready. -/
def cancelledChunkCalls : List Call :=
  [(Command.submitHead (.plain [.plain "build" [] .plain])).call, (Command.cancelRun 0).call,
    (Command.submitChunk 0).call]

theorem chunk_revives_cancelled_run : ∃ s : Db, s.Reachable ∧ s.runCompleted 0 = true ∧
    ∃ row, s.job 0 "build" = some row ∧ row.queueState = .ready := by
  have hall : (Call.runAll (fun _ _ => true) cancelledChunkCalls Db.init).any (fun s =>
      s.runCompleted 0 && (s.job 0 "build").any fun row => row.queueState = .ready) = true := by
    decide_cbv
  obtain ⟨s, hs, hbad⟩ := (Option.any_eq_true _ _).mp hall
  rw [Bool.and_eq_true] at hbad
  obtain ⟨row, hrow, hready⟩ := (Option.any_eq_true _ _).mp hbad.2
  exact ⟨s, run_of_runAll (fun _ _ _ => trivial) (fun _ _ _ => trivial) hs, hbad.1, row, hrow,
    of_decide_eq_true hready⟩

end Preloop
