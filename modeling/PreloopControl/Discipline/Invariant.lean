import PreloopControl.Discipline.Commands

/-!
# Invariants of Whole Runs

From the statements to the runs. An invariant of the discipline that holds at
the start holds in every database a run reaches (`Runs.kept`), and what it
guarantees of statements holds of the log of every call (`Kept.log`).

Two facts are invariants without any condition, and every other invariant is
proved next to them (`Kept.of_tidy`): ids already handed out stay below the
counters, and a row that waits for a runner or for a slot is not settled. The
second is what the conditions in the `WHERE` clauses rest on, since they look at
the queue state and not at the status.

## Main definitions

* `Job.waiting`: The row is blocked, held, ready or claimed.
* `Db.Tidy`: The unconditional facts.

## Theorems

* `Runs.kept`, `Kept.log`: From statements to runs and to logs.
* `tidy_apply`: Every statement at its site keeps the unconditional facts.
* `Kept.of_tidy`: An invariant next to the unconditional facts.
-/

namespace Preloop

open Txn

section Runs

variable {P : Pending → Db → Prop} {rr : RunId → Prop} {c : Contract Stmt Db}
variable {pre : Call → Db → Prop} {ok : Stmt → Db → Prop}

theorem Runs.kept (K : Kept P rr c) (hok : ∀ st s, ok st s → c.rely st s)
    (hrr : ∀ call s, pre call s → ∀ rerun, call.command = .rerunRun rerun → rr rerun.runId)
    {s s' : Db} (h : Runs pre ok s s') (hs : P .none s) : P .none s' := by
  refine Txn.Run.invariant hok (fun call => Triple.start fun s0 hs0 => ?_) h hs
  exact (Call.exec_spec K call (hrr call s0 hs0.1)).pre fun s hs => hs.2.2

/-- What the discipline guarantees of a statement holds of every call's log. -/
theorem Kept.log (K : Kept P rr c) {call : Call}
    (hrr : ∀ rerun, call.command = .rerunRun rerun → rr rerun.runId) {s s' : Db}
    {t : List (Stmt × Db)} (hs : P .none s) (hexec : call.exec s = .ok ((), s', t))
    (hlog : ∀ e ∈ t, c.rely e.1 e.2) : ∀ e ∈ t, c.guar e.1 e.2 :=
  (Call.exec_spec K call hrr s () s' t hs hexec hlog).2

end Runs

/-- The row waits: for its needs, for a slot, for a runner or on a runner. -/
def Job.waiting (j : Job) : Bool :=
  j.queueState = .blocked || j.queueState = .held || j.queueState = .ready ||
    j.queueState = .claimed

theorem Job.waiting_of_none {j : Job} (h : j.queueState = .none) : j.waiting = false := by
  rw [Job.waiting, h]
  rfl

/-- Ids are below the counters, and a waiting row is not settled. -/
structure Db.Tidy (s : Db) : Prop where
  counters : s.Counters
  waiting : ∀ {r j row}, s.job r j = some row → row.waiting = true → row.status.isTerminal = false

theorem Db.Tidy.none_of_terminal {s : Db} (hs : s.Tidy) {r : RunId} {j : JobId} {row : Job}
    (hrow : s.job r j = some row) (hterm : row.status.isTerminal = true) : row.waiting = false := by
  cases hw : row.waiting with
  | false => rfl
  | true => exact absurd hterm (by rw [hs.waiting hrow hw]; exact Bool.false_ne_true)

section Tidy

variable {P : Pending → Db → Prop} {rr : RunId → Prop} {c : Contract Stmt Db}
variable {x : Pending} {s s' : Db} {st : Stmt}

theorem counters_apply (hsite : Site P rr c x s st) (hs : s.Counters)
    (happly : st.apply s = .ok s') : s'.Counters where
  runs := by
    -- a row was there before, or it is the one that took the number
    intro r row' hrow'
    rcases run_of_apply happly hrow' with ⟨row, hrow, _⟩ | ⟨rfl, _, hr⟩
    · have hlt := hs.runs r row hrow
      rcases nextRun_apply happly with heq | ⟨new, rfl, heq⟩
      · rw [heq]
        exact hlt
      · rw [heq, hsite.2.1]
        exact Nat.lt_succ_of_lt hlt
    · rcases nextRun_apply happly with heq | ⟨new, hnew, heq⟩
      · obtain ⟨t, _, rfl⟩ := inserted_eq_ok happly
        change r < row'.runId + 1
        rw [hr]
        exact Nat.lt_succ_self r
      · rw [Stmt.insertRun.injEq] at hnew
        rw [heq, ← hnew, hr]
        exact Nat.lt_succ_self r
  jobs := by
    intro r j row' hrow'
    -- a job's run is there: only the deletion of the run takes it, and its jobs with it
    rcases job_of_apply happly hrow' with ⟨row, hrow, _⟩ | ⟨hins, _, _, _, hrun⟩
    · by_cases hdel : st = .deleteRun r
      · subst hdel
        have hr : row'.runId = r := congrArg Prod.fst (Table.key_of_get hrow')
        simp only [Stmt.apply, Except.ok.injEq] at happly
        subst happly
        rw [Db.job, Table.get_deleteWhere, Option.filter_eq_some_iff] at hrow'
        exact absurd hrow'.2 (by simp only [hr, decide_true, Bool.not_true, Bool.false_eq_true,
          not_false_eq_true])
      · obtain ⟨run, hrun⟩ := Option.isSome_iff_exists.mp (hs.jobs r j row hrow)
        rcases run_apply happly hrun with h | ⟨h, _⟩
        · rw [Db.runExists, h]
          rfl
        · exact absurd h hdel
    · refine runExists_apply ?_ happly hrun
      rintro r0 rfl
      rcases hins with h | h <;> exact absurd h Stmt.noConfusion
  jobsets := by
    intro id set' hset'
    rcases jobset_of_apply happly hset' with ⟨set, hset, _⟩ | ⟨rfl, hid, hnone⟩
    · have hlt := hs.jobsets id set hset
      rcases nextJobset_apply happly with heq | ⟨r, jobIds, _, heq⟩
      · rw [heq]
        exact hlt
      · rw [heq]
        exact Nat.lt_succ_of_lt hlt
    · simp only [Stmt.apply, hnone] at happly
      split at happly
      · obtain ⟨t, _, rfl⟩ := inserted_eq_ok happly
        rw [hid]
        exact Nat.lt_succ_self _
      · cases happly

/-- A write at its site leaves a row that waits only if it is not settled. -/
theorem waiting_write {r : RunId} {j : JobId} {w : JobWrite} {row : Job}
    (hsite : JobSite P rr x s r j w)
    (hrow : row.waiting = true → row.status.isTerminal = false)
    (h : (w.write row).waiting = true) : (w.write row).status.isTerminal = false := by
  cases w with
  | reset status queueState needs gate => exact hsite.2.2.1
  | finish | starve | gateFailed | expandedMatrix | startCaller | fold | restartCaller
  | resetConcluded => exact absurd h (by rw [Job.waiting_of_none rfl]; exact Bool.false_ne_true)
  | deferExpansion | leaseExpansion => exact absurd h Bool.false_ne_true
  | enqueueReady | park | unpark | claim | requeue => rfl
  | bumpGeneration | setGate | setOutputs | setRunsOn | setMessage | setTemplate
  | setConditionContext | setReusableMeta => exact hrow h

theorem waiting_insert {row : Job} (hsite : Site P rr c x s st) (hins : st.insertsJob row)
    (h : row.waiting = true) : row.status.isTerminal = false := by
  rcases hins with rfl | rfl
  · rcases hsite.2.2 with ⟨_, hq⟩ | ⟨hst, _⟩ | ⟨hst, _⟩ | ⟨hst, _⟩
    · exact absurd h (by rw [Job.waiting_of_none hq]; exact Bool.false_ne_true)
    · rw [hst]
      rfl
    · exact hst
    · rw [hst]
      rfl
  · rw [hsite.2.2.2.1]
    rfl

theorem tidy_apply (hsite : Site P rr c x s st) (hs : s.Tidy)
    (happly : st.apply s = .ok s') : s'.Tidy where
  counters := counters_apply hsite hs.counters happly
  -- an old row waits as it did, unless the statement set its state; a new one by its insertion
  waiting := by
    intro r j row' hrow' hwait
    rcases job_of_apply happly hrow' with ⟨row, hrow, rfl⟩ | ⟨hins, _⟩
    · have hold := hs.waiting hrow
      cases st with
      | job w r0 j0 =>
          simp only [Stmt.onJob] at hwait ⊢
          split at hwait
          · next hcond =>
              rw [if_pos hcond]
              exact waiting_write hsite hold hwait
          · next hcond =>
              rw [if_neg hcond]
              exact hold hwait
      | cancelRunJobs | expireRunJobs =>
          simp only [Stmt.onJob] at hwait ⊢
          split at hwait
          · exact absurd hwait Bool.false_ne_true
          · next hcond =>
              rw [if_neg hcond]
              exact hold hwait
      | refreshRemainingNeeds | refreshRunRemainingNeeds =>
          simp only [Stmt.onJob] at hwait ⊢
          split at hwait
          · next hcond =>
              rw [if_pos hcond]
              exact hold hwait
          · next hcond =>
              rw [if_neg hcond]
              exact hold hwait
      | resumeExpansions =>
          simp only [Stmt.onJob] at hwait ⊢
          split at hwait
          · exact absurd hwait Bool.false_ne_true
          · next hcond =>
              rw [if_neg hcond]
              exact hold hwait
      | _ => exact hold hwait
    · exact waiting_insert hsite hins hwait

/-! ## What a statement can do to a settled row -/

/-- The writes that do not look at the status and do not only touch rows that
    wait: what they meet was read earlier. -/
def JobWrite.blind : JobWrite → Bool
  | .enqueueReady site => site ≠ .promoteNext
  | .park _ | .startCaller | .fold _ _ | .gateFailed _ | .reset .. | .restartCaller
  | .resetConcluded _ => true
  | _ => false

/-- A settled row keeps its verdict and stays off the queue, unless a blind
    write meets it. -/
theorem settled_onJob (hsite : Site P rr c x s st) (hs : s.Tidy) {r : RunId} {j : JobId} {row : Job}
    (hrow : s.job r j = some row) (hterm : row.status.isTerminal = true) :
    ((st.onJob s row).status = row.status ∧ (st.onJob s row).waiting = false) ∨
      ∃ w, st = .job w r j ∧ w.blind = true := by
  have hidle : row.waiting = false := hs.none_of_terminal hrow hterm
  have hkey : row.key = (r, j) := Table.key_of_get hrow
  -- the row is off the queue, so no write that asks for a place in it can meet it
  have hnot : ∀ q : QueueState, (q = .blocked ∨ q = .held ∨ q = .ready ∨ q = .claimed) →
      row.queueState ≠ q := by
    rintro q hq rfl
    refine Bool.false_ne_true (hidle.symm.trans ?_)
    rcases hq with h | h | h | h <;> rw [Job.waiting, h] <;> rfl
  have hsame : ∀ row', row' = row → row'.status = row.status ∧ row'.waiting = false :=
    fun row' h => by rw [h]; exact ⟨rfl, hidle⟩
  cases st with
  | job w r0 j0 =>
      simp only [Stmt.onJob]
      split
      · next hcond =>
          rw [Bool.and_eq_true, decide_eq_true_eq, hkey, Prod.mk.injEq] at hcond
          obtain ⟨⟨rfl, rfl⟩, hguard⟩ := hcond
          cases w with
          -- the write asks for an open row
          | finish => exact absurd hguard (by simp only [JobWrite.guard, hterm, Bool.not_true,
              Bool.false_eq_true, not_false_eq_true])
          | unpark site =>
              cases site with
              | promoteRun =>
                  -- the write asks for a held row
                  obtain ⟨row', hrow', hheld, _⟩ := hsite
                  rw [hrow, Option.some.injEq] at hrow'
                  exact absurd (hrow' ▸ hheld) (hnot .held (by decide))
              | promoteJobset => exact absurd (of_decide_eq_true hguard) (hnot .held (by decide))
              | releaseParked => exact absurd (of_decide_eq_true hguard) (hnot .held (by decide))
          | claim => exact absurd (of_decide_eq_true hguard) (hnot .ready (by decide))
          | starve => exact absurd (of_decide_eq_true hguard) (hnot .ready (by decide))
          -- the write asks for a claimed row
          | requeue =>
              obtain ⟨_, row', hrow', hclaimed⟩ := hsite
              rw [hrow, Option.some.injEq] at hrow'
              exact absurd (hrow' ▸ hclaimed) (hnot .claimed (by decide))
          | enqueueReady site =>
              cases site with
              | promoteNext =>
                  obtain ⟨_, _, row', hrow', hheld, _⟩ := hsite
                  rw [hrow, Option.some.injEq] at hrow'
                  exact absurd (hrow' ▸ hheld) (hnot .held (by decide))
              -- other entries into the queue do not look at the status
              | _ => exact .inr ⟨_, rfl, rfl⟩
          | park | startCaller | fold | gateFailed | reset | restartCaller | resetConcluded =>
              exact .inr ⟨_, rfl, rfl⟩
          | deferExpansion | leaseExpansion | expandedMatrix => exact .inl ⟨rfl, rfl⟩
          | bumpGeneration | setGate | setOutputs | setRunsOn | setMessage | setTemplate
          | setConditionContext | setReusableMeta => exact .inl ⟨rfl, hidle⟩
      · exact .inl ⟨rfl, hidle⟩
  -- the whole-run writes skip settled rows
  | cancelRunJobs | expireRunJobs =>
      refine .inl (hsame _ ?_)
      simp only [Stmt.onJob, hterm, Bool.not_true, Bool.and_false, Bool.false_eq_true, if_false]
  | refreshRemainingNeeds | refreshRunRemainingNeeds =>
      simp only [Stmt.onJob]
      split
      · exact .inl ⟨rfl, hidle⟩
      · exact .inl ⟨rfl, hidle⟩
  | resumeExpansions =>
      simp only [Stmt.onJob]
      split
      · exact .inl ⟨rfl, rfl⟩
      · exact .inl ⟨rfl, hidle⟩
  | _ => exact .inl ⟨rfl, hidle⟩

/-! ## What a statement can do to a run row -/

theorem runCompleted_eq {s : Db} {r : RunId} :
    s.runCompleted r = true ↔ ∃ row, s.run r = some row ∧ row.status = .completed := by
  rw [Db.runCompleted, Option.any_eq_true]
  simp only [decide_eq_true_eq]

/-- A summary completes a run when it has leaves and all of them are settled. -/
def Db.concludes (s : Db) (r : RunId) : Prop :=
  (s.summary r).isTerminal = true ∧ s.runGraph r ≠ []

theorem summarizeRow_status (s : Db) (r : RunId) (row : Run) :
    (s.concludes r ∧ (s.summarizeRow r row).status = .completed ∧
      (s.summarizeRow r row).conclusion = some (s.summary r)) ∨
    (¬s.concludes r ∧ ((s.summarizeRow r row).status = .completed ↔ row.status = .completed) ∧
      (s.summarizeRow r row).conclusion = row.conclusion) := by
  have hempty : ((s.runGraph r).map Job.status).isEmpty = (s.runGraph r).isEmpty := by
    cases s.runGraph r <;> rfl
  unfold Db.summarizeRow Db.concludes Db.summary
  simp only [hempty]
  split
  · next h =>
      rw [Bool.and_eq_true, Bool.not_eq_true', List.isEmpty_eq_false_iff] at h
      exact .inl ⟨h, rfl, rfl⟩
  · next h =>
      rw [Bool.and_eq_true, Bool.not_eq_true', List.isEmpty_eq_false_iff] at h
      refine .inr ⟨h, ?_⟩
      split
      · exact ⟨Iff.rfl, rfl⟩
      · next hopen =>
          split
          · exact ⟨⟨fun h => RunStatus.noConfusion h, fun h => absurd h hopen⟩, rfl⟩
          · exact ⟨⟨fun h => RunStatus.noConfusion h, fun h => absurd h hopen⟩, rfl⟩

/-- The run writes that complete a run. -/
def RunWrite.ends : RunWrite → Bool
  | .cancel | .expireFork | .poison | .arrivalCancelled => true
  | _ => false

/-- How a run comes to be completed. -/
theorem completed_apply (hsite : Site P rr c x s st) (happly : st.apply s = .ok s') {r : RunId}
    (h : s'.runCompleted r = true) :
    s.runCompleted r = true ∨ (∃ w, st = .run w r ∧ w.ends = true) ∨
      ∃ site, st = .summarize site r ∧ s.concludes r := by
  obtain ⟨row', hrow', hdone⟩ := runCompleted_eq.mp h
  -- the row was there and the statement completed it, or it was inserted open
  rcases run_of_apply happly hrow' with ⟨row, hrow, rfl⟩ | ⟨rfl, _⟩
  · have hkey : row.runId = r := Table.key_of_get hrow
    have hkeep : row.status = .completed → s.runCompleted r = true :=
      fun h => runCompleted_eq.mpr ⟨row, hrow, h⟩
    cases st with
    | run w r0 =>
        simp only [Stmt.onRun] at hdone
        split at hdone
        · next hcond =>
            rw [Bool.and_eq_true, decide_eq_true_eq, hkey] at hcond
            obtain ⟨rfl, _⟩ := hcond
            cases w with
            | cancel | expireFork | poison | arrivalCancelled => exact .inr (.inl ⟨_, rfl, rfl⟩)
            | start | accept | rerun => exact RunStatus.noConfusion hdone
            | clearFork | clearGroup | setGroup | setFork => exact .inl (hkeep hdone)
        · exact .inl (hkeep hdone)
    | summarize site r0 =>
        simp only [Stmt.onRun] at hdone
        split at hdone
        · next hr =>
            rw [hkey] at hr
            subst hr
            rcases summarizeRow_status s r row with ⟨hc, _⟩ | ⟨_, hiff, _⟩
            · exact .inr (.inr ⟨site, rfl, hc⟩)
            · exact .inl (hkeep (hiff.mp hdone))
        · exact .inl (hkeep hdone)
    | _ => exact .inl (hkeep hdone)
  · exact absurd (hsite.2.2.2.symm.trans hdone) (by decide)

/-- An invariant next to the unconditional facts. -/
theorem Kept.of_tidy {I : Pending → Db → Prop} {c : Contract Stmt Db}
    (hshift : ∀ {x y s}, Shift (fun x s => s.Tidy ∧ I x s) s x y → s.Tidy → I x s → I y s)
    (hstep : ∀ {x y st s s'}, Site (fun x s => s.Tidy ∧ I x s) rr c x s st → Moves s x y st →
      s.Tidy → I x s → c.rely st s → st.apply s = .ok s' → I y s' ∧ c.guar st s) :
    Kept (fun x s => s.Tidy ∧ I x s) rr c where
  counters h := h.1.counters
  shift hs h := ⟨h.1, hshift hs h.1 h.2⟩
  step _ hsite hmove h hrely happly := by
    obtain ⟨hI, hg⟩ := hstep hsite hmove h.1 h.2 hrely happly
    exact ⟨⟨tidy_apply hsite h.1 happly, hI⟩, hg⟩
  outer _ hsite hmove h hrely happly := by
    obtain ⟨hI, hg⟩ := hstep hsite hmove h.1 h.2 hrely happly
    exact ⟨⟨tidy_apply hsite h.1 happly, hI⟩, hg⟩

/-- An invariant that does not look at the open list. -/
theorem Kept.of_plain {I : Db → Prop} {c : Contract Stmt Db}
    (hstep : ∀ {x st s s'}, Site (fun _ s => s.Tidy ∧ I s) rr c x s st → s.Tidy → I s →
      c.rely st s → st.apply s = .ok s' → I s' ∧ c.guar st s) :
    Kept (fun _ s => s.Tidy ∧ I s) rr c :=
  Kept.of_tidy (fun _ _ hI => hI) fun hsite _ hs hI hrely happly =>
    hstep hsite hs hI hrely happly

theorem tidy_init : Db.init.Tidy where
  counters := {
    runs := fun _ _ h =>
      absurd h (by simp only [Db.init, Db.run, Table.get_empty, reduceCtorEq, not_false_eq_true])
    jobs := fun _ _ _ h =>
      absurd h (by simp only [Db.init, Db.job, Table.get_empty, reduceCtorEq, not_false_eq_true])
    jobsets := fun _ _ h =>
      absurd h (by simp only [Db.init, Table.get_empty, reduceCtorEq, not_false_eq_true]) }
  waiting h := absurd h
    (by simp only [Db.init, Db.job, Table.get_empty, reduceCtorEq, not_false_eq_true])

end Tidy

end Preloop
