import PreloopControl.Properties.Finality

/-!
# One Completion Event for Each Attempt

The outbox carries a `run.completed` event for every attempt of a run that has
ended, written in the transaction that ended it. Between commands that is a
count: a run has as many events as it has ended attempts.

Inside a transaction the count is off by what the transaction still owes. The
open list says how much: `settle_node` completes the run row first and announces
it after the groups of the run went to their next holders, and anything may
happen in between. The invariant is therefore indexed by the open list, and the
second summary of a settlement, the one after fail-fast, takes the place of the
first. The third one repeats the second.

Paths that complete a run row and never announce it, and paths that announce a
run again, are what `announcesOnce` rules out for one run. It asks nothing of a
summary that is not terminal and so neither completes a run nor announces one,
except that fail-fast may not take back a terminal one.

## Main definitions

* `Run.ended`: The attempts of a run that have ended.
* `Db.announcements`: The completion events of a run.
* `announcesOnce`: What completes the run is announced, and what announces it
  completes it.

## Theorems

* `announced_once`: Under that condition the counts agree, and an event is only
  written while the run row is completed.
* `late_report_announces_twice`: A late report on a cancelled job announces the
  completion of its run again.
-/

namespace Preloop

open Txn

/-- The attempts that have ended: all, or all but the current one. -/
def Run.ended (run : Run) : Nat :=
  if run.status = .completed then run.attempt else run.attempt - 1

/-- The completion events written for a run. -/
def Db.announcements (s : Db) (r : RunId) : Nat :=
  s.outbox.countP fun event => event.topic = .runCompleted && event.runId = r

/-- A terminal summary that is announced meets the run open and completes it, unless the
    one before it in the same settlement did; once a summary of a settlement was terminal,
    so is the one after fail-fast; a summary that is not announced does not complete the
    run; a failed submission, which is announced in any case, meets it open. -/
def announcesOnce (r0 : RunId) : Stmt → Db → Bool
  | .summarize .settleNode r, s | .summarize (.finalize false) r, s =>
    r ≠ r0 || !(s.summary r).isTerminal || (!s.runCompleted r && !(s.runGraph r).isEmpty)
  | .summarize (.failFast concluded) r, s =>
    r ≠ r0 || if (s.summary r).isTerminal
      then !(s.runGraph r).isEmpty && (concluded || !s.runCompleted r) else !concluded
  | .summarize .settleAgain _, _ => true
  | .summarize _ r, s => r ≠ r0 || !decide (s.concludes r) || s.runCompleted r
  | .run .poison r, s => r ≠ r0 || s.runLive r
  | _, _ => true

/-- The announcements of a run that a transaction owes. -/
def Pending.due (x : Pending) (r : RunId) : Nat := x.owed.count (r, true)

/-- The counts of one run inside a transaction. -/
structure Accounted (r0 : RunId) (x : Pending) (s : Db) : Prop where
  positive : ∀ {run}, s.run r0 = some run → 0 < run.attempt
  count : ∀ {run}, s.run r0 = some run → s.announcements r0 + x.due r0 = run.ended
  owed : x.due r0 ≠ 0 → s.runCompleted r0 = true
  single : x.due r0 ≤ 1
  fresh : s.announcements r0 ≠ 0 → r0 < s.nextRun

/-- The contract: the condition is assumed, and an event meets the run completed. -/
def announceContract (r0 : RunId) : Contract Stmt Db where
  rely st s := announcesOnce r0 st s = true
  guar
    | .emit event, s =>
      event.topic = .runCompleted → event.runId = r0 → s.runCompleted r0 = true
    | _, _ => True

section Accounted

variable {x y : Pending} {s s' : Db} {st : Stmt} {r0 : RunId}

/-- Only the statements about runs and the outbox change what is owed. -/
theorem moves_owed (hmove : Moves s x y st) (hruns : .runs ∉ st.writes)
    (houtbox : .outbox ∉ st.writes) : y.owed = x.owed := by
  cases st with
  | job w r j =>
      cases w with
      | finish | fold =>
          rw [show y = _ from hmove]
          rfl
      | enqueueReady site =>
          cases site with
          | promoteNext => exact (congrArg Pending.owed hmove).symm
          | _ => exact congrArg Pending.owed hmove
      | _ => exact congrArg Pending.owed hmove
  | cancelRunJobs | expireRunJobs =>
      rw [show y = _ from hmove]
      rfl
  | takeHold => exact (congrArg Pending.owed hmove).symm
  | releaseHold site key row =>
      rw [show y = _ from hmove]
      split <;> rfl
  | mark m =>
      cases m with
      | notGranted => exact (congrArg Pending.owed hmove).symm
      | noWaiter => exact (congrArg Pending.owed hmove).symm
      | arrives | displaces => exact congrArg Pending.owed hmove
  | run | summarize | emit => exact absurd List.mem_cons_self (by assumption)
  | _ => exact congrArg Pending.owed hmove

theorem announcements_same (h : s'.outbox = s.outbox) (r : RunId) :
    s'.announcements r = s.announcements r := by
  rw [Db.announcements, h, Db.announcements]

theorem due_same (h : y.owed = x.owed) (r : RunId) : y.due r = x.due r := by
  rw [Pending.due, h, Pending.due]

theorem due_addOwed (r r' : RunId) : (x.addOwed r).due r' = x.due r' + if r' = r then 1 else 0 := by
  change List.count (r', true) ((r, true) :: x.owed) = _
  by_cases h : r' = r
  · subst h
    rw [List.count_cons_self, if_pos rfl, Pending.due]
  · rw [if_neg h, List.count_cons_of_ne]
    · rfl
    · intro heq
      exact h (congrArg Prod.fst heq).symm

theorem due_conclude (r r' : RunId) (summary : ExecutionStatus) : (x.conclude r summary).due r' =
    x.due r' + if r' = r ∧ summary.isTerminal = true then 1 else 0 := by
  change List.count (r', true) ((r, summary.isTerminal) :: x.owed) = _
  by_cases h : r' = r ∧ summary.isTerminal = true
  · obtain ⟨rfl, hterm⟩ := h
    rw [hterm, List.count_cons_self, if_pos ⟨rfl, rfl⟩, Pending.due]
  · rw [if_neg h, List.count_cons_of_ne]
    · rfl
    · intro heq
      rw [Prod.mk.injEq] at heq
      exact h ⟨heq.1.symm, heq.2⟩

theorem ended_open {run : Run} (h : run.status ≠ .completed) (hpos : 0 < run.attempt) :
    run.ended + 1 = run.attempt := by
  rw [Run.ended, if_neg h]
  exact Nat.sub_add_cancel hpos

theorem ended_completed {run : Run} (h : run.status = .completed) : run.ended = run.attempt := by
  rw [Run.ended, if_pos h]

theorem open_run (h : s.runCompleted r0 = false) {run : Run} (hrun : s.run r0 = some run) :
    run.status ≠ .completed := by
  intro hst
  exact absurd h (by rw [runCompleted_eq.mpr ⟨run, hrun, hst⟩]; decide)

/-- Nothing is due for an open run, and its current attempt is the only one that was not
    announced. -/
theorem accounted_open (hs : Accounted r0 x s) (h : s.runCompleted r0 = false) :
    x.due r0 = 0 ∧ ∀ {run}, s.run r0 = some run → s.announcements r0 + 1 = run.attempt := by
  have hdue : x.due r0 = 0 := by
    by_contra hne
    exact absurd (hs.owed hne) (by rw [h]; exact Bool.false_ne_true)
  refine ⟨hdue, fun {run} hrun => ?_⟩
  have hcount := hs.count hrun
  rw [hdue, Nat.add_zero] at hcount
  rw [hcount, ended_open (open_run h hrun) (hs.positive hrun)]

theorem accounted_completed (hs : Accounted r0 x s) (h : s.runCompleted r0 = true) {run : Run}
    (hrun : s.run r0 = some run) : s.announcements r0 + x.due r0 = run.attempt := by
  obtain ⟨run', hrun', hst⟩ := runCompleted_eq.mp h
  rw [hrun, Option.some.injEq] at hrun'
  rw [hs.count hrun, ended_completed (hrun' ▸ hst)]

theorem accounted_shift {P : Pending → Db → Prop} (hshift : Shift P s x y)
    (hs : Accounted r0 x s) : Accounted r0 y s := by
  cases hshift with
  | unowed x r =>
      have hdue : Pending.due { y with owed := (r, false) :: y.owed } r0 = y.due r0 :=
        List.count_cons_of_ne (by simp only [ne_eq, Prod.mk.injEq, Bool.false_eq_true, and_false,
          not_false_eq_true])
      exact ⟨hs.positive, hdue ▸ hs.count, hdue ▸ hs.owed, hdue ▸ hs.single, hs.fresh⟩
  | _ => exact ⟨hs.positive, hs.count, hs.owed, hs.single, hs.fresh⟩

/-- The account after a statement that rewrites the run row and leaves the outbox alone. -/
theorem accounted_row (hs : Accounted r0 x s) (happly : st.apply s = .ok s')
    (houtbox : s'.outbox = s.outbox) (hins : ∀ row, st ≠ .insertRun row)
    (hdel : ∀ r, st ≠ .deleteRun r)
    (hpos : ∀ {run}, s.run r0 = some run → 0 < (st.onRun s run).attempt)
    (hcount : ∀ {run}, s.run r0 = some run →
      s.announcements r0 + y.due r0 = (st.onRun s run).ended)
    (hdone : y.due r0 ≠ 0 → ∃ run, s.run r0 = some run ∧ (st.onRun s run).status = .completed)
    (hsingle : y.due r0 ≤ 1) : Accounted r0 y s' := by
  have hrow : ∀ {run'}, s'.run r0 = some run' →
      ∃ run, s.run r0 = some run ∧ run' = st.onRun s run := by
    intro run' h
    rcases run_of_apply happly h with hold | ⟨hnew, _⟩
    · exact hold
    · exact absurd hnew (hins _)
  have hnext : s'.nextRun = s.nextRun :=
    (nextRun_apply happly).resolve_right fun ⟨row, hnew, _⟩ => hins row hnew
  refine ⟨fun h => ?_, fun h => ?_, fun h => ?_, hsingle, fun h => ?_⟩
  · obtain ⟨run, hrun, rfl⟩ := hrow h
    exact hpos hrun
  · obtain ⟨run, hrun, rfl⟩ := hrow h
    rw [announcements_same houtbox]
    exact hcount hrun
  · obtain ⟨run, hrun, hst⟩ := hdone h
    have hback := (run_apply happly hrun).resolve_right fun hgone => hdel r0 hgone.1
    exact runCompleted_eq.mpr ⟨_, hback, hst⟩
  · rw [hnext]
    exact hs.fresh (announcements_same houtbox r0 ▸ h)

/-- A statement that keeps the attempt of the run and whether it is completed. -/
theorem accounted_same (hs : Accounted r0 x s) (happly : st.apply s = .ok s')
    (houtbox : s'.outbox = s.outbox) (hins : ∀ row, st ≠ .insertRun row)
    (hdel : ∀ r, st ≠ .deleteRun r) (hdue : y.due r0 = x.due r0)
    (hon : ∀ {run}, s.run r0 = some run → (st.onRun s run).attempt = run.attempt ∧
      ((st.onRun s run).status = .completed ↔ run.status = .completed)) : Accounted r0 y s' := by
  refine accounted_row hs happly houtbox hins hdel (fun h => ?_) (fun {run} h => ?_) (fun h => ?_)
    (hdue ▸ hs.single)
  · rw [(hon h).1]
    exact hs.positive h
  · rw [hdue, hs.count h, Run.ended, Run.ended, (hon h).1]
    by_cases hst : run.status = .completed
    · rw [if_pos hst, if_pos ((hon h).2.mpr hst)]
    · rw [if_neg hst, if_neg fun h' => hst ((hon h).2.mp h')]
  · obtain ⟨run, hrun, hst⟩ := runCompleted_eq.mp (hs.owed (hdue ▸ h))
    exact ⟨run, hrun, (hon hrun).2.mpr hst⟩

/-! ## Run writes -/

theorem onRun_write {w : RunWrite} {r : RunId} {run : Run} (hrun : s.run r = some run) :
    (Stmt.run w r).onRun s run = if w.guard run then w.write run else run := by
  have hkey : run.runId = r := Table.key_of_get hrun
  simp only [Stmt.onRun, hkey, decide_true, Bool.true_and]

/-- A run that is not completed and becomes so is owed an announcement. -/
theorem accounted_end {w : RunWrite} (hs : Accounted r0 x s)
    (happly : (Stmt.run w r0).apply s = .ok s') (hexists : s.runExists r0 = true)
    (hopen : s.runCompleted r0 = false)
    (hwrite : ∀ run, run.status ≠ .completed → w.guard run = true ∧
      (w.write run).status = .completed ∧ (w.write run).attempt = run.attempt) :
    Accounted r0 (x.addOwed r0) s' := by
  obtain ⟨hzero, hcount⟩ := accounted_open hs hopen
  have hon : ∀ {run}, s.run r0 = some run →
      ((Stmt.run w r0).onRun s run).status = .completed ∧
        ((Stmt.run w r0).onRun s run).attempt = run.attempt := by
    intro run hrun
    obtain ⟨hguard, hdone, hattempt⟩ := hwrite run (open_run hopen hrun)
    rw [onRun_write hrun, if_pos hguard]
    exact ⟨hdone, hattempt⟩
  have hdue : (x.addOwed r0).due r0 = 1 := by rw [due_addOwed, hzero, if_pos rfl]
  refine accounted_row hs happly (apply_same .outbox happly rfl) (fun _ => Stmt.noConfusion)
    (fun _ => Stmt.noConfusion) (fun h => ?_) (fun h => ?_) (fun _ => ?_) (Nat.le_of_eq hdue)
  · rw [(hon h).2]
    exact hs.positive h
  · rw [hdue, ended_completed (hon h).1, (hon h).2, hcount h]
  · obtain ⟨run, hrun⟩ := Option.isSome_iff_exists.mp hexists
    exact ⟨run, hrun, (hon hrun).1⟩

/-- A run write that neither ends nor starts an attempt. -/
theorem accounted_keep {r : RunId} {w : RunWrite} (hs : Accounted r0 x s)
    (happly : (Stmt.run w r).apply s = .ok s')
    (hwrite : ∀ run, s.run r0 = some run → r0 = r → w.guard run = true →
      (w.write run).attempt = run.attempt ∧
        ((w.write run).status = .completed ↔ run.status = .completed)) : Accounted r0 x s' := by
  refine accounted_same hs happly (apply_same .outbox happly rfl) (fun _ => Stmt.noConfusion)
    (fun _ => Stmt.noConfusion) rfl fun {run} hrun => ?_
  have hkey : run.runId = r0 := Table.key_of_get hrun
  simp only [Stmt.onRun, hkey]
  split
  · next hcond =>
      rw [Bool.and_eq_true, decide_eq_true_eq] at hcond
      exact hwrite run hrun hcond.1 hcond.2
  · exact ⟨rfl, Iff.rfl⟩

/-- A run write on another run. -/
theorem accounted_other {r : RunId} {w : RunWrite} (hs : Accounted r0 x s) (hne : r ≠ r0)
    (happly : (Stmt.run w r).apply s = .ok s') (hdue : y.due r0 = x.due r0) :
    Accounted r0 y s' := by
  have hx : Accounted r0 x s' := accounted_keep hs happly fun _ _ heq => absurd heq.symm hne
  exact ⟨hx.positive, hdue ▸ hx.count, hdue ▸ hx.owed, hdue ▸ hx.single, hx.fresh⟩

theorem runCompleted_of_not_live {r : RunId} (h : s.runLive r = true) :
    s.runExists r = true ∧ s.runCompleted r = false := by
  obtain ⟨run, hrun, hst⟩ := (Option.any_eq_true _ _).mp h
  refine ⟨by rw [Db.runExists, hrun]; rfl, ?_⟩
  rw [Db.runCompleted, hrun, Option.any_some]
  simpa only [ne_eq, decide_not, Bool.not_eq_true', decide_eq_false_iff_not] using hst

theorem exists_of_concludes {r : RunId} (ht : s.Tidy) (h : s.concludes r) :
    s.runExists r = true := by
  obtain ⟨d, hd⟩ := List.exists_mem_of_ne_nil _ h.2
  exact ht.counters.jobs r d.jobId d (mem_runGraph.mp hd).1

variable {rr : RunId → Prop}

theorem accounted_runWrite {r : RunId} {w : RunWrite}
    (hsite : Site (fun x s => s.Tidy ∧ Accounted r0 x s) rr (announceContract r0) x s (.run w r))
    (hmove : Moves s x y (.run w r)) (hs : Accounted r0 x s)
    (hrely : announcesOnce r0 (.run w r) s = true) (happly : (Stmt.run w r).apply s = .ok s') :
    Accounted r0 y s' := by
  have hadd : r ≠ r0 → (x.addOwed r).due r0 = x.due r0 := by
    intro hne
    rw [due_addOwed, if_neg (Ne.symm hne), Nat.add_zero]
  cases w with
  | cancel | expireFork =>
      rw [show y = _ from hmove]
      by_cases hr : r = r0
      · subst hr
        by_cases hdone : s.runCompleted r = true
        · rw [if_pos hdone]
          refine accounted_keep hs happly fun run hrun _ hguard => ?_
          obtain ⟨run', hrun', hst⟩ := runCompleted_eq.mp hdone
          rw [hrun, Option.some.injEq] at hrun'
          exact absurd (hrun' ▸ hst) (of_decide_eq_true hguard)
        · rw [if_neg hdone]
          exact accounted_end hs happly hsite.1 (Bool.eq_false_iff.mpr hdone)
            fun run hst => ⟨decide_eq_true hst, rfl, rfl⟩
      · refine accounted_other hs hr happly ?_
        split
        · rfl
        · exact hadd hr
  | poison =>
      rw [show y = _ from hmove]
      by_cases hr : r = r0
      · subst hr
        simp only [announcesOnce, ne_eq, not_true_eq_false, decide_false, Bool.false_or] at hrely
        obtain ⟨hexists, hopen⟩ := runCompleted_of_not_live hrely
        exact accounted_end hs happly hexists hopen fun run hst => ⟨decide_eq_true hst, rfl, rfl⟩
      · exact accounted_other hs hr happly (hadd hr)
  | arrivalCancelled =>
      rw [show y = _ from hmove]
      by_cases hr : r = r0
      · subst hr
        exact accounted_end hs happly hsite.2.1 hsite.2.2.1 fun run _ => ⟨rfl, rfl, rfl⟩
      · exact accounted_other hs hr happly (hadd hr)
  | rerun github =>
      obtain ⟨rfl, _, hdone⟩ := hsite
      rw [show y = _ from hmove]
      by_cases hr : r = r0
      · subst hr
        -- All attempts have ended, and a new one begins.
        refine accounted_row hs happly (apply_same .outbox happly rfl) (fun _ => Stmt.noConfusion)
          (fun _ => Stmt.noConfusion) (fun h => ?_) (fun h => ?_) (fun h => absurd rfl h)
          (Nat.zero_le 1)
        · rw [onRun_write h]
          exact Nat.succ_pos _
        · rw [onRun_write h, accounted_completed hs hdone h]
          rfl
      · exact accounted_other hs hr happly rfl
  | start | accept =>
      rw [show y = _ from hmove]
      refine accounted_keep hs happly fun run _ _ hguard =>
        ⟨rfl, iff_of_false RunStatus.noConfusion ?_⟩
      intro hst
      exact absurd hguard (by simp only [RunWrite.guard, hst, ne_eq, reduceCtorEq,
        not_true_eq_false, decide_false, Bool.false_eq_true, not_false_eq_true])
  | clearFork | clearGroup | setGroup | setFork =>
      rw [show y = _ from hmove]
      exact accounted_keep hs happly fun run _ _ _ => ⟨rfl, Iff.rfl⟩

/-! ## Summaries -/

/-- The run row after a summary, by whether it completes the run. -/
theorem onRun_summarize {site : SummarizeSite} {run : Run} (hrun : s.run r0 = some run) :
    ((Stmt.summarize site r0).onRun s run).attempt = run.attempt ∧
      ((s.concludes r0 ∧ ((Stmt.summarize site r0).onRun s run).status = .completed) ∨
        (¬s.concludes r0 ∧ (((Stmt.summarize site r0).onRun s run).status = .completed ↔
          run.status = .completed))) := by
  have hkey : run.runId = r0 := Table.key_of_get hrun
  simp only [Stmt.onRun, hkey, if_true]
  refine ⟨?_, (summarizeRow_status s r0 run).imp (fun h => ⟨h.1, h.2.1⟩) fun h => ⟨h.1, h.2.1⟩⟩
  simp only [Db.summarizeRow]
  split
  · rfl
  · split
    · rfl
    · split <;> rfl

/-- A summary that completes the run, by what was announced before it. -/
theorem accounted_concludes {site : SummarizeSite} (ht : s.Tidy) (hs : Accounted r0 x s)
    (happly : (Stmt.summarize site r0).apply s = .ok s') (hc : s.concludes r0)
    (hcount : ∀ {run}, s.run r0 = some run → s.announcements r0 + y.due r0 = run.attempt)
    (hsingle : y.due r0 ≤ 1) : Accounted r0 y s' := by
  have hdone : ∀ {run}, s.run r0 = some run →
      ((Stmt.summarize site r0).onRun s run).status = .completed :=
    fun hrun => ((onRun_summarize hrun).2.resolve_right fun h => h.1 hc).2
  refine accounted_row hs happly (apply_same .outbox happly rfl) (fun _ => Stmt.noConfusion)
    (fun _ => Stmt.noConfusion) (fun h => ?_) (fun h => ?_) (fun _ => ?_) hsingle
  · rw [(onRun_summarize h).1]
    exact hs.positive h
  · rw [ended_completed (hdone h), (onRun_summarize h).1, hcount h]
  · obtain ⟨run, hrun⟩ := Option.isSome_iff_exists.mp (exists_of_concludes ht hc)
    exact ⟨run, hrun, hdone hrun⟩

/-- A summary that does not complete the run, or finds it completed. -/
theorem accounted_silent {site : SummarizeSite} (ht : s.Tidy) (hs : Accounted r0 x s)
    (happly : (Stmt.summarize site r0).apply s = .ok s') (hdue : y.due r0 = x.due r0)
    (hdone : s.concludes r0 → s.runCompleted r0 = true) : Accounted r0 y s' := by
  by_cases hc : s.concludes r0
  · refine accounted_concludes ht hs happly hc (fun h => ?_) (hdue ▸ hs.single)
    rw [hdue]
    exact accounted_completed hs (hdone hc) h
  · exact accounted_same hs happly (apply_same .outbox happly rfl) (fun _ => Stmt.noConfusion)
      (fun _ => Stmt.noConfusion) hdue fun h =>
        ⟨(onRun_summarize h).1, ((onRun_summarize h).2.resolve_left fun h' => hc h'.1).2⟩

/-- A summary that is announced if it is terminal, and then finds the run open. -/
theorem accounted_conclude {site : SummarizeSite} (ht : s.Tidy) (hs : Accounted r0 x s)
    (happly : (Stmt.summarize site r0).apply s = .ok s')
    (hfirst : (s.summary r0).isTerminal = true →
      s.runCompleted r0 = false ∧ s.runGraph r0 ≠ []) :
    Accounted r0 (x.conclude r0 (s.summary r0)) s' := by
  by_cases hterm : (s.summary r0).isTerminal = true
  · obtain ⟨hopen, hgraph⟩ := hfirst hterm
    obtain ⟨hzero, hcount⟩ := accounted_open hs hopen
    have hdue : (x.conclude r0 (s.summary r0)).due r0 = 1 := by
      rw [due_conclude, hzero, if_pos ⟨rfl, hterm⟩]
    refine accounted_concludes ht hs happly ⟨hterm, hgraph⟩ (fun h => ?_) (Nat.le_of_eq hdue)
    rw [hdue]
    exact hcount h
  · refine accounted_silent ht hs happly ?_ fun hc => absurd hc.1 hterm
    rw [due_conclude, if_neg fun h => hterm h.2, Nat.add_zero]

/-- The summary after fail-fast takes the place of the one before it. -/
theorem accounted_again {site : SummarizeSite} {z : Pending} {first : ExecutionStatus}
    (ht : s.Tidy) (hs : Accounted r0 (z.conclude r0 first) s)
    (happly : (Stmt.summarize site r0).apply s = .ok s')
    (hagain : (s.summary r0).isTerminal = true → s.runGraph r0 ≠ [] ∧
      (first.isTerminal = true ∨ s.runCompleted r0 = false))
    (hkeep : (s.summary r0).isTerminal = false → first.isTerminal = false) :
    Accounted r0 (z.conclude r0 (s.summary r0)) s' := by
  by_cases hsame : first.isTerminal = (s.summary r0).isTerminal
  · have hdue : (z.conclude r0 (s.summary r0)).due r0 = (z.conclude r0 first).due r0 := by
      rw [due_conclude, due_conclude, hsame]
    refine accounted_silent ht hs happly hdue fun hc => hs.owed ?_
    rw [due_conclude, if_pos ⟨rfl, hsame.trans hc.1⟩]
    exact Nat.succ_ne_zero _
  · -- Only the later summary is terminal, and it completes the run.
    cases hterm : (s.summary r0).isTerminal with
    | false => exact absurd (hkeep hterm) fun h => hsame (h.trans hterm.symm)
    | true =>
        obtain ⟨hgraph, hopen⟩ := hagain hterm
        have hfirst : first.isTerminal ≠ true := fun h => hsame (h.trans hterm.symm)
        obtain ⟨hzero, hcount⟩ := accounted_open hs (hopen.resolve_left hfirst)
        rw [due_conclude, if_neg fun h => hfirst h.2, Nat.add_zero] at hzero
        have hdue : (z.conclude r0 (s.summary r0)).due r0 = 1 := by
          rw [due_conclude, hzero, if_pos ⟨rfl, hterm⟩]
        refine accounted_concludes ht hs happly ⟨hterm, hgraph⟩ (fun h => ?_) (Nat.le_of_eq hdue)
        rw [hdue]
        exact hcount h

/-- A summary of another run. -/
theorem accounted_elsewhere {site : SummarizeSite} {r : RunId} (hs : Accounted r0 x s)
    (hne : r ≠ r0) (hmove : Moves s x y (.summarize site r))
    (happly : (Stmt.summarize site r).apply s = .ok s') : Accounted r0 y s' := by
  have hconclude : ∀ (z : Pending) (summary : ExecutionStatus),
      (z.conclude r summary).due r0 = z.due r0 := by
    intro z summary
    rw [due_conclude, if_neg fun h => hne h.1.symm, Nat.add_zero]
  have hdue : y.due r0 = x.due r0 := by
    cases site with
    | settleNode => rw [show y = _ from hmove, hconclude]
    | settleAgain | failFast =>
        obtain ⟨z, before, rfl, rfl⟩ := hmove
        rw [hconclude, hconclude]
    | finalize sweepSettled =>
        cases sweepSettled with
        | false => rw [show y = _ from hmove, hconclude]
        | true => rw [show y = _ from hmove, due_same (Pending.settle_owed ..)]
    | failJobset | cancelJob | complete | rerun | starve =>
        rw [show y = _ from hmove, due_same (Pending.settle_owed ..)]
  refine accounted_same hs happly (apply_same .outbox happly rfl) (fun _ => Stmt.noConfusion)
    (fun _ => Stmt.noConfusion) hdue fun {run} hrun => ?_
  have hkey : run.runId = r0 := Table.key_of_get hrun
  simp only [Stmt.onRun, hkey, if_neg (Ne.symm hne), and_self]

theorem accounted_summary {r : RunId} {site : SummarizeSite}
    (hsite : Site (fun x s => s.Tidy ∧ Accounted r0 x s) rr (announceContract r0) x s
      (.summarize site r))
    (hmove : Moves s x y (.summarize site r)) (ht : s.Tidy) (hs : Accounted r0 x s)
    (hrely : announcesOnce r0 (.summarize site r) s = true)
    (happly : (Stmt.summarize site r).apply s = .ok s') : Accounted r0 y s' := by
  by_cases hr : r = r0
  · subst hr
    have hsilent : y = x.settle r (s.summary r) →
        (decide (r ≠ r) || !decide (s.concludes r) || s.runCompleted r) = true →
        Accounted r y s' := by
      rintro rfl hrely
      simp only [ne_eq, not_true_eq_false, decide_false, Bool.false_or, Bool.or_eq_true,
        Bool.not_eq_true', decide_eq_false_iff_not] at hrely
      exact accounted_silent ht hs happly (due_same (Pending.settle_owed ..) r) fun hc =>
        hrely.resolve_left fun h => h hc
    cases site with
    | settleNode =>
        rw [show y = _ from hmove]
        simp only [announcesOnce, ne_eq, not_true_eq_false, decide_false, Bool.false_or,
          Bool.or_eq_true, Bool.and_eq_true, Bool.not_eq_true', List.isEmpty_eq_false_iff] at hrely
        exact accounted_conclude ht hs happly fun hterm =>
          hrely.resolve_left (by rw [hterm]; decide)
    | finalize sweepSettled =>
        cases sweepSettled with
        | false =>
            rw [show y = _ from hmove]
            simp only [announcesOnce, ne_eq, not_true_eq_false, decide_false, Bool.false_or,
              Bool.or_eq_true, Bool.and_eq_true, Bool.not_eq_true',
              List.isEmpty_eq_false_iff] at hrely
            exact accounted_conclude ht hs happly fun hterm =>
              hrely.resolve_left (by rw [hterm]; decide)
        | true => exact hsilent hmove hrely
    | settleAgain =>
        -- Nothing happened since the summary after the siblings.
        obtain ⟨z, rfl⟩ := hsite
        obtain ⟨z', before, hx, rfl⟩ := hmove
        obtain ⟨_, rfl⟩ := Pending.conclude_inj hx
        refine accounted_silent ht hs happly rfl fun hc => hs.owed ?_
        rw [due_conclude, if_pos ⟨rfl, hc.1⟩]
        exact Nat.succ_ne_zero _
    | failFast concluded =>
        obtain ⟨z, first, rfl, rfl⟩ := hsite
        obtain ⟨z', before, hx, rfl⟩ := hmove
        obtain ⟨_, rfl⟩ := Pending.conclude_inj hx
        simp only [announcesOnce, ne_eq, not_true_eq_false, decide_false, Bool.false_or] at hrely
        refine accounted_again ht hs happly (fun hterm => ?_) fun hterm => ?_
        · rw [if_pos hterm, Bool.and_eq_true, Bool.or_eq_true, Bool.not_eq_true',
            Bool.not_eq_true', List.isEmpty_eq_false_iff] at hrely
          exact hrely
        · rw [if_neg (by rw [hterm]; exact Bool.false_ne_true), Bool.not_eq_true'] at hrely
          exact hrely
    | failJobset | cancelJob | complete | rerun | starve => exact hsilent hmove hrely
  · exact accounted_elsewhere hs hr hmove happly

theorem accounted_emit {event : OutboxEvent} (hmove : Moves s x y (.emit event))
    (ht : s.Tidy) (hs : Accounted r0 x s) (happly : (Stmt.emit event).apply s = .ok s') :
    Accounted r0 y s' ∧ (announceContract r0).guar (.emit event) s := by
  simp only [Stmt.apply, Except.ok.injEq] at happly
  subst happly
  simp only [Moves] at hmove
  have hcountP : Db.announcements { s with outbox := s.outbox ++ [event] } r0 =
      s.announcements r0 + if event.topic = .runCompleted ∧ event.runId = r0 then 1 else 0 := by
    simp only [Db.announcements, List.countP_append, List.countP_cons, List.countP_nil,
      Nat.zero_add, Bool.and_eq_true, decide_eq_true_eq]
  -- An event of another kind or of another run changes none of the counts.
  have hother : ¬(event.topic = .runCompleted ∧ event.runId = r0) → y.due r0 = x.due r0 →
      Accounted r0 y { s with outbox := s.outbox ++ [event] } := by
    intro hevent hdue
    rw [if_neg hevent, Nat.add_zero] at hcountP
    refine ⟨hs.positive, fun h => ?_, fun h => hs.owed (hdue ▸ h), hdue ▸ hs.single, fun h => ?_⟩
    · rw [hcountP, hdue]
      exact hs.count h
    · exact hs.fresh (hcountP ▸ h)
  split at hmove
  · next htopic =>
      subst hmove
      by_cases hr : event.runId = r0
      · subst hr
        have hdue := due_addOwed (x := y) event.runId event.runId
        rw [if_pos rfl] at hdue
        have hdone : s.runCompleted event.runId = true :=
          hs.owed (by rw [hdue]; exact Nat.succ_ne_zero _)
        have hzero : y.due event.runId = 0 := by
          have hsingle := hs.single
          omega
        rw [if_pos ⟨htopic, rfl⟩] at hcountP
        refine ⟨⟨hs.positive, fun h => ?_, fun h => absurd hzero h, by omega, fun _ => ?_⟩,
          fun _ _ => hdone⟩
        · have hcount := hs.count h
          rw [hcountP]
          omega
        · obtain ⟨run, hrun, _⟩ := runCompleted_eq.mp hdone
          exact ht.counters.runs _ run hrun
      · refine ⟨hother (fun h => hr h.2) ?_, fun _ h => absurd h hr⟩
        rw [due_addOwed, if_neg (Ne.symm hr), Nat.add_zero]
  · next htopic =>
      subst hmove
      exact ⟨hother (fun h => htopic h.1) rfl, fun h => absurd h htopic⟩

theorem accounted_insertRun {row : Run} (hid : row.runId = s.nextRun) (hattempt : row.attempt = 1)
    (hstatus : row.status = .queued) (hs : Accounted r0 .none s)
    (happly : (Stmt.insertRun row).apply s = .ok s') : Accounted r0 .none s' := by
  have houtbox : s'.outbox = s.outbox := apply_same .outbox happly rfl
  have hnext : s.nextRun ≤ s'.nextRun := by
    obtain ⟨t, _, rfl⟩ := inserted_eq_ok happly
    change s.nextRun ≤ row.runId + 1
    rw [hid]
    exact Nat.le_succ _
  -- the only new run is the one that was inserted, and its number was not given before
  have hnew : ∀ {run}, s'.run r0 = some run → s.run r0 = some run ∨ run = row ∧ r0 = row.runId := by
    intro run h
    rcases run_of_apply happly h with ⟨run, hrun, rfl⟩ | ⟨heq, _, hr⟩
    · exact .inl hrun
    · rw [Stmt.insertRun.injEq] at heq
      exact .inr ⟨heq.symm, by rw [← hr, heq]⟩
  refine ⟨fun h => ?_, fun h => ?_, fun h => absurd rfl h, Nat.zero_le 1, fun h => ?_⟩
  · rcases hnew h with hold | ⟨rfl, _⟩
    · exact hs.positive hold
    · rw [hattempt]
      exact Nat.one_pos
  · rw [announcements_same houtbox]
    rcases hnew h with hold | ⟨rfl, hr⟩
    · exact hs.count hold
    -- nothing was announced under a number that was not given yet
    · have hzero : s.announcements r0 = 0 := by
        by_contra hne
        exact absurd (hs.fresh hne) (by rw [hr, hid]; exact Nat.lt_irrefl _)
      rw [hzero, Run.ended, if_neg (by rw [hstatus]; decide), hattempt]
      rfl
  · exact Nat.lt_of_lt_of_le (hs.fresh (announcements_same houtbox r0 ▸ h)) hnext

theorem accounted_apply
    (hsite : Site (fun x s => s.Tidy ∧ Accounted r0 x s) rr (announceContract r0) x s st)
    (hmove : Moves s x y st) (ht : s.Tidy) (hs : Accounted r0 x s)
    (hrely : announcesOnce r0 st s = true) (happly : st.apply s = .ok s') :
    Accounted r0 y s' ∧ (announceContract r0).guar st s := by
  -- only these statements touch runs or the outbox
  cases st with
  | run w r => exact ⟨accounted_runWrite hsite hmove hs hrely happly, trivial⟩
  | summarize site r => exact ⟨accounted_summary hsite hmove ht hs hrely happly, trivial⟩
  | emit event => exact accounted_emit hmove ht hs happly
  | insertRun row =>
      obtain ⟨rfl, hid, hattempt, hstatus⟩ := hsite
      rw [show y = _ from hmove]
      exact ⟨accounted_insertRun hid hattempt hstatus hs happly, trivial⟩
  -- the run goes with its row, and what it announced stays in the outbox
  | deleteRun r =>
      obtain ⟨rfl, _⟩ := hsite
      rw [show y = _ from hmove]
      have houtbox : s'.outbox = s.outbox := apply_same .outbox happly rfl
      have hrow : ∀ {run}, s'.run r0 = some run → s.run r0 = some run := by
        intro run h
        rcases run_of_apply happly h with ⟨_, hrun, rfl⟩ | ⟨h, _⟩
        · exact hrun
        · exact absurd h Stmt.noConfusion
      have hnext : s'.nextRun = s.nextRun :=
        (nextRun_apply happly).resolve_right fun ⟨_, h, _⟩ => Stmt.noConfusion h
      refine ⟨⟨fun h => hs.positive (hrow h), fun h => ?_, fun h => absurd rfl h, Nat.zero_le 1,
        fun h => ?_⟩, trivial⟩
      · rw [announcements_same houtbox]
        exact hs.count (hrow h)
      · rw [hnext]
        exact hs.fresh (announcements_same houtbox r0 ▸ h)
  | _ =>
      exact ⟨accounted_same hs happly (apply_same .outbox happly rfl) (fun _ => Stmt.noConfusion)
        (fun _ => Stmt.noConfusion)
        (due_same (moves_owed hmove (by simp [Stmt.writes]) (by simp [Stmt.writes])) r0)
        fun _ => ⟨rfl, Iff.rfl⟩, trivial⟩

end Accounted

theorem accounted_kept (r : RunId) :
    Kept (fun x s => s.Tidy ∧ Accounted r x s) (fun _ => True) (announceContract r) :=
  Kept.of_tidy (fun hshift _ hs => accounted_shift hshift hs)
    fun hsite hmove ht hs hrely happly => accounted_apply hsite hmove ht hs hrely happly

theorem accounted_init (r : RunId) : Accounted r .none Db.init where
  positive h := absurd h (by simp only [Db.init, Db.run, Table.get_empty, reduceCtorEq,
    not_false_eq_true])
  count h := absurd h (by simp only [Db.init, Db.run, Table.get_empty, reduceCtorEq,
    not_false_eq_true])
  owed h := absurd rfl h
  single := Nat.zero_le 1
  fresh h := absurd rfl h

/-- In every database a run of the system reaches, a run has one completion event for each of
    its ended attempts and none for an attempt that has not ended; and whatever call comes
    next writes such an event only while the run row is completed. -/
theorem announced_once {s : Db} {r : RunId}
    (hrun : Runs (fun _ _ => True) (fun st s => announcesOnce r st s = true) Db.init s) :
    (∀ run, s.run r = some run → s.announcements r = run.ended) ∧
    ∀ (call : Call) s' t, call.exec s = .ok ((), s', t) →
      (∀ e ∈ t, announcesOnce r e.1 e.2 = true) →
      ∀ e ∈ t, ∀ event, e.1 = .emit event → event.topic = .runCompleted → event.runId = r →
        e.2.runCompleted r = true := by
  have hkept := Runs.kept (accounted_kept r) (fun _ _ h => h) (fun _ _ _ _ _ => trivial) hrun
    ⟨tidy_init, accounted_init r⟩
  refine ⟨fun run h => hkept.2.count h, fun call s' t hexec hlog e he event hevent htopic => ?_⟩
  have hguar := (accounted_kept r).log (fun _ _ => trivial) hkept hexec hlog e he
  rw [hevent] at hguar
  exact hguar htopic

theorem announced_oneJobCalls : ∃ s, Runs (fun _ _ => True)
    (fun st s => announcesOnce 0 st s = true) Db.init s ∧
    ∃ run, s.run 0 = some run ∧ run.status = .completed ∧ s.announcements 0 = run.ended := by
  have hall : (Call.runAll (announcesOnce 0) oneJobCalls Db.init).any (fun s =>
      (s.run 0).any fun run => run.status = .completed) = true := by decide_cbv
  obtain ⟨s, hs, hdone⟩ := (Option.any_eq_true _ _).mp hall
  obtain ⟨run, hrun, hst⟩ := (Option.any_eq_true _ _).mp hdone
  have hruns : Runs (fun _ _ => True) (fun st s => announcesOnce 0 st s = true) Db.init s :=
    run_of_runAll (fun _ _ _ => trivial) (fun _ _ h => h) hs
  exact ⟨s, hruns, run, hrun, of_decide_eq_true hst, (announced_once hruns).1 run hrun⟩

/-- A running job is cancelled with its run, and its runner reports later. -/
def lateReportCalls : List Call :=
  (SubmitRun.plain [.plain "build" [] .plain]).calls 0 ++
    [(Command.putRunner ⟨1, ["self-hosted"]⟩).call, (Command.openSession "s" 1).call,
      (Command.poll "s" 0 "build").call, (Command.cancelRun 0).call,
      (reportSuccess "build" (some "build")).call]

theorem late_report_announces_twice : ∃ s : Db, s.Reachable ∧
    ∃ run, s.run 0 = some run ∧ run.attempt = 1 ∧ s.announcements 0 = 2 := by
  have hall : (Call.runAll (fun _ _ => true) lateReportCalls Db.init).any (fun s =>
      (s.run 0).any fun run => run.attempt = 1 && s.announcements 0 = 2) = true := by
    decide_cbv
  obtain ⟨s, hs, h⟩ := (Option.any_eq_true _ _).mp hall
  obtain ⟨run, hrun, h⟩ := (Option.any_eq_true _ _).mp h
  rw [Bool.and_eq_true, decide_eq_true_eq, decide_eq_true_eq] at h
  exact ⟨s, run_of_runAll (fun _ _ _ => trivial) (fun _ _ _ => trivial) hs, run, hrun, h.1, h.2⟩

end Preloop
