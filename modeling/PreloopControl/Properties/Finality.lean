import PreloopControl.Properties.Atomicity

/-!
# Verdicts Are Final

Within one attempt of a run, a job that has a verdict keeps it and a completed
run keeps its conclusion.

`finish_job_row` carries the law in its `WHERE` clause, and so do all writes
that look at the queue state. The others are blind (`JobWrite.blind`): they
update a row by its key, on the strength of something read earlier in the
transaction, and in between fail-fast, a displaced holder or a hand-over may
have settled the row. A summary is blind too: it recomputes the conclusion of a
run that already has one.

## Main definitions

* `keepsVerdicts`: No blind write meets a settled row of the run, and no summary
  disagrees with a conclusion already there.
* `Db.FinalSince`: The verdicts of an earlier database still stand.

## Theorems

* `verdicts_final`: Along a run that does not start the run again, they do.
* `expansion_restarts_cancelled_caller`: A caller that fail-fast cancelled is in
  progress again once its build is applied.
-/

namespace Preloop

open Txn

instance (s : Db) (r : RunId) : Decidable (s.concludes r) := inferInstanceAs (Decidable (_ ∧ _))

/-- No blind write meets a settled row of the run, and no summary of it disagrees
    with the conclusion it already has. -/
def keepsVerdicts (r0 : RunId) : Stmt → Db → Bool
  | .job w r j, s => r ≠ r0 || !w.blind || s.unsettledRow r j
  | .summarize _ r, s => r ≠ r0 || (s.run r).all fun run =>
      run.status ≠ .completed || !decide (s.concludes r) || run.conclusion = some (s.summary r)
  | _, _ => true

/-- The verdicts a run had in an earlier database still stand, unless the run is
    deleted. -/
structure Db.FinalSince (r : RunId) (s0 s : Db) : Prop where
  known : r < s.nextRun
  jobs : ∀ {j row0}, s0.job r j = some row0 → row0.status.isTerminal = true →
    (∃ row, s.job r j = some row ∧ row.status = row0.status) ∨ s.runExists r = false
  run : ∀ {run0}, s0.run r = some run0 → run0.status = .completed →
    (∃ run, s.run r = some run ∧ run.status = .completed ∧ run.conclusion = run0.conclusion) ∨
      s.runExists r = false

section Final

variable {P : Pending → Db → Prop} {r0 : RunId} {c : Contract Stmt Db} {x : Pending}
variable {s0 s s' : Db} {st : Stmt}

/-- A deleted run does not come back. -/
theorem missing_stays {rr : RunId → Prop} {r : RunId} (hsite : Site P rr c x s st)
    (hknown : r < s.nextRun) (happly : st.apply s = .ok s') (h : s.runExists r = false) :
    s'.runExists r = false := by
  rw [Db.runExists, Option.isSome_eq_false_iff, Option.isNone_iff_eq_none] at h ⊢
  rcases runs_apply happly r with heq | ⟨row, rfl, _, heq⟩ | ⟨r1, _, heq⟩
  · rw [heq, h, Option.map_none]
  · rw [heq, h, if_neg]
    rw [hsite.2.1]
    exact Nat.ne_of_gt hknown
  · rw [heq, h, Option.filter_none]

theorem runExists_deleteRun {r : RunId} (happly : (Stmt.deleteRun r).apply s = .ok s') :
    s'.runExists r = false := by
  simp only [Stmt.apply, Except.ok.injEq] at happly
  subst happly
  rw [Db.runExists, Db.run, Table.get_deleteWhere, Option.isSome_eq_false_iff,
    Option.isNone_iff_eq_none, Option.filter_eq_none_iff]
  intro run hrun
  have hr : run.runId = r := Table.key_of_get hrun
  simp only [hr, decide_true, Bool.not_true, Bool.false_eq_true, not_false_eq_true]

theorem nextRun_grows {rr : RunId → Prop} (hsite : Site P rr c x s st)
    (happly : st.apply s = .ok s') : s.nextRun ≤ s'.nextRun := by
  rcases nextRun_apply happly with heq | ⟨row, rfl, heq⟩
  · exact Nat.le_of_eq heq.symm
  · rw [heq, hsite.2.1]
    exact Nat.le_succ _

/-- A verdict stands over one statement. -/
theorem verdict_onJob (hsite : Site P (· ≠ r0) c x s st) (ht : s.Tidy)
    (hrely : keepsVerdicts r0 st s = true) {j : JobId} {row : Job}
    (hrow : s.job r0 j = some row) (hterm : row.status.isTerminal = true) :
    (st.onJob s row).status = row.status := by
  rcases settled_onJob hsite ht hrow hterm with ⟨h, _⟩ | ⟨w, rfl, hblind⟩
  · exact h
  · simp only [keepsVerdicts, ne_eq, not_true_eq_false, decide_false, hblind, Bool.not_true,
      Bool.false_or] at hrely
    exact absurd hterm (by rw [unsettledRow_eq hrely hrow]; exact Bool.false_ne_true)

/-- A conclusion stands over one statement. -/
theorem conclusion_onRun (hsite : Site P (· ≠ r0) c x s st)
    (hrely : keepsVerdicts r0 st s = true) {run : Run} (hrun : s.run r0 = some run)
    (hdone : run.status = .completed) :
    (st.onRun s run).status = .completed ∧ (st.onRun s run).conclusion = run.conclusion := by
  have hkey : run.runId = r0 := Table.key_of_get hrun
  have hcompleted : s.runCompleted r0 = true := runCompleted_eq.mpr ⟨run, hrun, hdone⟩
  cases st with
  | run w r =>
      simp only [Stmt.onRun]
      split
      · next hcond =>
          rw [Bool.and_eq_true, decide_eq_true_eq, hkey] at hcond
          obtain ⟨rfl, hguard⟩ := hcond
          -- the guards of these writes ask for a run that is not completed
          cases w with
          | start | cancel | expireFork | poison | accept =>
              exact absurd hguard (by simp only [RunWrite.guard, hdone, ne_eq, reduceCtorEq,
                not_true_eq_false, decide_false, Bool.false_eq_true, not_false_eq_true])
          | arrivalCancelled =>
              exact absurd (hcompleted.symm.trans hsite.2.2.1) (by decide)
          | rerun github => exact absurd rfl hsite.2.1
          | clearFork | clearGroup | setGroup | setFork => exact ⟨hdone, rfl⟩
      · exact ⟨hdone, rfl⟩
  -- a summary rewrites the conclusion, which the condition asks to be the same
  | summarize site r =>
      simp only [Stmt.onRun]
      split
      · next hr =>
          rw [hkey] at hr
          subst hr
          simp only [keepsVerdicts, hrun, Option.all_some, hdone, ne_eq, not_true_eq_false,
            decide_false, Bool.false_or, Bool.or_eq_true, Bool.not_eq_true',
            decide_eq_false_iff_not, decide_eq_true_eq] at hrely
          rcases summarizeRow_status s r0 run with ⟨hc, hst, hcon⟩ | ⟨_, hiff, hcon⟩
          · exact ⟨hst, hcon.trans (hrely.resolve_left (fun h => h hc)).symm⟩
          · exact ⟨hiff.mpr hdone, hcon⟩
      · exact ⟨hdone, rfl⟩
  | _ => exact ⟨hdone, rfl⟩

theorem finalSince_apply (hsite : Site P (· ≠ r0) c x s st) (ht : s.Tidy)
    (hs : Db.FinalSince r0 s0 s) (hrely : keepsVerdicts r0 st s = true)
    (happly : st.apply s = .ok s') : Db.FinalSince r0 s0 s' where
  known := Nat.lt_of_lt_of_le hs.known (nextRun_grows hsite happly)
  jobs := by
    intro j row0 hrow0 hterm
    rcases hs.jobs hrow0 hterm with ⟨row, hrow, hst⟩ | hgone
    · rcases job_apply happly hrow with hrow' | ⟨rfl, _⟩
      · refine .inl ⟨_, hrow', ?_⟩
        rw [verdict_onJob hsite ht hrely hrow (hst ▸ hterm), hst]
      · exact .inr (runExists_deleteRun happly)
    · exact .inr (missing_stays hsite hs.known happly hgone)
  run := by
    intro run0 hrun0 hdone
    rcases hs.run hrun0 hdone with ⟨run, hrun, hst, hcon⟩ | hgone
    · obtain ⟨hst', hcon'⟩ := conclusion_onRun hsite hrely hrun hst
      rcases run_apply happly hrun with hrun' | ⟨_, hnone⟩
      · exact .inl ⟨_, hrun', hst', hcon'.trans hcon⟩
      · exact .inr (by rw [Db.runExists, hnone]; rfl)
    · exact .inr (missing_stays hsite hs.known happly hgone)

end Final

theorem finalSince_kept (r0 : RunId) (s0 : Db) :
    Kept (fun _ s => s.Tidy ∧ Db.FinalSince r0 s0 s) (· ≠ r0)
      (.assume fun st s => keepsVerdicts r0 st s = true) :=
  Kept.of_plain fun hsite ht hs hrely happly =>
    ⟨finalSince_apply hsite ht hs hrely happly, trivial⟩

/-- The unconditional facts hold in every reachable database. -/
theorem tidy_of_reachable {s : Db} (h : s.Reachable) : s.Tidy :=
  have K : Kept (fun _ s => s.Tidy ∧ True) (fun _ => True) (.assume fun _ _ => True) :=
    Kept.of_plain fun _ _ _ _ _ => ⟨trivial, trivial⟩
  (Runs.kept K (fun _ _ _ => trivial) (fun _ _ _ _ _ => trivial) h ⟨tidy_init, trivial⟩).1

/-- The call does not start the run again. -/
def Call.notRerun (r : RunId) (call : Call) (_ : Db) : Prop :=
  ∀ rerun, call.command = .rerunRun rerun → rerun.runId ≠ r

/-- From any reachable database on, as long as the run is not started again: a
    settled job keeps its status and is neither ready, claimed nor in progress,
    and a completed run keeps its conclusion. -/
theorem verdicts_final {r : RunId} {s s' : Db} (hreach : s.Reachable)
    (hrun : Runs (Call.notRerun r) (fun st s => keepsVerdicts r st s = true) s s') :
    (∀ j row row', s.job r j = some row → row.status.isTerminal = true →
      s'.job r j = some row' → row'.status = row.status ∧ row'.active = false) ∧
    ∀ run run', s.run r = some run → run.status = .completed → s'.run r = some run' →
      run'.status = .completed ∧ run'.conclusion = run.conclusion := by
  have ht := tidy_of_reachable hreach
  -- the run is there from the start, so its rows can be followed from `s`
  have hkept : s.runExists r = true → s'.Tidy ∧ Db.FinalSince r s s' := by
    intro hexists
    obtain ⟨run, hrow⟩ := Option.isSome_iff_exists.mp hexists
    refine Runs.kept (finalSince_kept r s) (fun _ _ h => h) (fun call _ h => h) hrun ⟨ht, ?_⟩
    exact ⟨ht.counters.runs r run hrow, fun h _ => .inl ⟨_, h, rfl⟩,
      fun h hst => .inl ⟨_, h, hst, rfl⟩⟩
  refine ⟨fun j row row' hrow hterm hrow' => ?_, fun run run' hrow hdone hrow' => ?_⟩
  · obtain ⟨ht', hfinal⟩ := hkept (ht.counters.jobs r j row hrow)
    rcases hfinal.jobs hrow hterm with ⟨row1, hrow1, hst⟩ | hgone
    · rw [hrow', Option.some.injEq] at hrow1
      subst hrow1
      refine ⟨hst, ?_⟩
      rw [← hst] at hterm
      have hidle := ht'.none_of_terminal hrow' hterm
      simp only [Job.waiting, Bool.or_eq_false_iff] at hidle
      have hstatus : row'.status ≠ .inProgress := by
        intro h
        rw [h] at hterm
        exact absurd hterm Bool.false_ne_true
      simp only [Job.active, hidle.1.2, hidle.2, hstatus, decide_false, Bool.or_self]
    -- if the run were gone, its jobs would be gone with it
    · exact absurd (ht'.counters.jobs r j row' hrow') (by rw [hgone]; exact Bool.false_ne_true)
  · obtain ⟨_, hfinal⟩ := hkept (by rw [Db.runExists, hrow]; rfl)
    rcases hfinal.run hrow hdone with ⟨run1, hrun1, hst, hcon⟩ | hgone
    · rw [hrow', Option.some.injEq] at hrun1
      subst hrun1
      exact ⟨hst, hcon⟩
    · rw [Db.runExists, hrow', Option.isSome_some] at hgone
      exact absurd hgone.symm Bool.false_ne_true

theorem verdict_of_oneJobCalls : ∃ s s', s.Reachable ∧
    Runs (Call.notRerun 0) (fun st s => keepsVerdicts 0 st s = true) s s' ∧
    ∃ row row', s.job 0 "build" = some row ∧ row.status = .success ∧
      s'.job 0 "build" = some row' ∧ row'.status = .success := by
  have hall : (Call.runAll (fun _ _ => true) oneJobCalls Db.init).any (fun s =>
      ((s.job 0 "build").any fun row => row.status = .success) &&
      (Call.runAll (keepsVerdicts 0) [(Command.cancelRun 0).call] s).any fun s' =>
        (s'.job 0 "build").isSome) = true := by decide_cbv
  obtain ⟨s, hs, h⟩ := (Option.any_eq_true _ _).mp hall
  rw [Bool.and_eq_true] at h
  obtain ⟨row, hrow, hst⟩ := (Option.any_eq_true _ _).mp h.1
  obtain ⟨s', hs', hrow'⟩ := (Option.any_eq_true _ _).mp h.2
  obtain ⟨row', hrow'⟩ := Option.isSome_iff_exists.mp hrow'
  have hreach : s.Reachable := run_of_runAll (fun _ _ _ => trivial) (fun _ _ _ => trivial) hs
  have hrun : Runs (Call.notRerun 0) (fun st s => keepsVerdicts 0 st s = true) s s' := by
    refine run_of_runAll (fun call hcall _ rerun hrerun => ?_) (fun _ _ h => h) hs'
    rw [List.mem_singleton.mp hcall] at hrerun
    exact absurd hrerun Command.noConfusion
  have hst := of_decide_eq_true hst
  refine ⟨s, s', hreach, hrun, row, row', hrow, hst, hrow', ?_⟩
  rw [((verdicts_final hreach hrun).1 "build" row row' hrow (by rw [hst]; rfl) hrow').1, hst]

/-- A reusable caller that is a leg of a matrix. -/
def callerLeg (id : JobId) : SubmitJob :=
  { SubmitJob.plain id [] { Spec.plain with reusableCall := some "./deploy.yml" } with
    baseId := "deploy", agentJobId := none }

/-- Two caller legs are leased to builders, and the first build fails: fail-fast
    cancels the second leg under its lease. -/
def failedLegCalls : List Call :=
  (SubmitRun.plain [callerLeg "deploy (a)", callerLeg "deploy (b)"]).calls 0 ++
    [(Command.claimExpansion 0 "deploy (a)").call, (Command.claimExpansion 0 "deploy (b)").call,
      (Command.applyExpansion ⟨0, "deploy (a)", 1⟩ none).call]

/-- The second build arrives. -/
def lateBuildCall : Call :=
  (Command.applyExpansion ⟨0, "deploy (b)", 1⟩
    (some (.reusable [⟨.plain "deploy (b)/run" [] .plain, none⟩] []))).call

theorem expansion_restarts_cancelled_caller : ∃ s s' : Db, s.Reachable ∧
    Runs (Call.notRerun 0) (fun _ _ => True) s s' ∧
    ∃ row row', s.job 0 "deploy (b)" = some row ∧ row.status = .cancelled ∧
      s'.job 0 "deploy (b)" = some row' ∧ row'.status = .inProgress := by
  have hall : (Call.runAll (fun _ _ => true) failedLegCalls Db.init).any (fun s =>
      ((s.job 0 "deploy (b)").any fun row => row.status = .cancelled) &&
      (Call.runAll (fun _ _ => true) [lateBuildCall] s).any fun s' =>
        (s'.job 0 "deploy (b)").any fun row => row.status = .inProgress) = true := by
    decide +kernel
  obtain ⟨s, hs, h⟩ := (Option.any_eq_true _ _).mp hall
  rw [Bool.and_eq_true] at h
  obtain ⟨row, hrow, hst⟩ := (Option.any_eq_true _ _).mp h.1
  obtain ⟨s', hs', h'⟩ := (Option.any_eq_true _ _).mp h.2
  obtain ⟨row', hrow', hst'⟩ := (Option.any_eq_true _ _).mp h'
  refine ⟨s, s', run_of_runAll (fun _ _ _ => trivial) (fun _ _ _ => trivial) hs, ?_, row, row',
    hrow, of_decide_eq_true hst, hrow', of_decide_eq_true hst'⟩
  refine run_of_runAll (fun call hcall _ rerun hrerun => ?_) (fun _ _ _ => trivial) hs'
  rw [List.mem_singleton.mp hcall] at hrerun
  exact absurd hrerun Command.noConfusion

end Preloop
