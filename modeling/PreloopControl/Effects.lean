import PreloopControl.Statements

/-!
# Effects of the Statements

What a statement does to the row under a key, said once for all statements. A
row that is there after a statement either was there before, and then the
statement rewrote it by `Stmt.onJob` or `Stmt.onRun`, or it was inserted; a row
that was there before is still there unless the statement deletes it. Holds,
waits and job sets are never rewritten in a way scheduling reads, so for them it
is enough to know who inserts and who deletes.

Every invariant of the development is proved from these facts and never from
`Stmt.apply`.

## Main definitions

* `Stmt.writes`: The tables a statement may change.
* `Stmt.onJob`, `Stmt.onRun`: The rewriting of one row.
* `Stmt.dropsHold`, `Stmt.dropsWait`: The deletions.
* `Ignores`: A fact does not read some tables.

## Theorems

* `apply_frame`: Everything else stays.
* `job_of_apply`, `job_apply`: A job row before and after.
* `run_of_apply`, `run_apply`: A run row before and after.
* `hold_of_apply`, `wait_of_apply`: Holds and waits.
* `jobset_of_apply`: Job sets.
* `submit_of_apply`, `lease_of_apply`: Memory and the outbox.
-/

namespace Preloop

open Txn

/-- What a statement makes of a job row it does not delete. -/
def Stmt.onJob (s : Db) : Stmt → Job → Job
  | .job w r j, row => if row.key = (r, j) && w.guard row then w.write row else row
  | .cancelRunJobs r, row =>
    if row.runId = r && !row.status.isTerminal then
      { row with
        status := .cancelled, queueState := .none, claimedBy := none
        expandGeneration := row.expandGeneration + 1 }
    else row
  | .expireRunJobs r, row =>
    if row.runId = r && !row.status.isTerminal then
      { row with status := .failure, queueState := .none, claimedBy := none }
    else row
  | .refreshRemainingNeeds r settled base, row =>
    if row.runId = r && row.queueState ≠ .none &&
        (row.needs.contains settled || row.needs.contains base) then
      { row with remainingNeeds := s.openNeeds row }
    else row
  | .refreshRunRemainingNeeds r, row =>
    if row.runId = r && row.queueState ≠ .none then
      { row with remainingNeeds := s.openNeeds row }
    else row
  | .resumeExpansions, row =>
    if row.queueState = .expanding then { row with queueState := .pendingExpansion } else row
  | _, row => row

/-- What a statement makes of a run row it does not delete. -/
def Stmt.onRun (s : Db) : Stmt → Run → Run
  | .run w r, row => if row.runId = r && w.guard row then w.write row else row
  | .summarize _ r, row => if row.runId = r then s.summarizeRow r row else row
  | _, row => row

theorem inserted_eq_ok {ρ : Type} {t : Option ρ} {put : ρ → Db} {s' : Db}
    (h : inserted t put = .ok s') : ∃ t', t = some t' ∧ s' = put t' := by
  cases t with
  | none => exact absurd h (by simp only [inserted, reduceCtorEq, not_false_eq_true])
  | some t' =>
      simp only [inserted, Except.ok.injEq] at h
      exact ⟨t', rfl, h.symm⟩

/-- The tables scheduling decisions read. -/
inductive TableName
  | runs | jobs | holds | waits | jobsets | gates | submits | leases | outbox | requests
  | sessions | runners | cancellations
deriving DecidableEq, Repr

/-- The tables a statement may change. -/
def Stmt.writes : Stmt → List TableName
  | .job .. | .insertJob .. | .insertMatrixParent .. | .cancelRunJobs .. | .expireRunJobs ..
  | .refreshRemainingNeeds .. | .refreshRunRemainingNeeds .. | .resumeExpansions => [.jobs]
  | .run .. | .insertRun .. | .summarize .. => [.runs]
  | .takeHold .. | .releaseHold .. | .dropHold .. => [.holds]
  | .enqueueWait .. | .requeueWait .. | .removeWait .. | .removeWaitById .. | .deleteRunWaits ..
  | .deleteJobsetWaits .. | .deleteDeadWaits => [.waits]
  | .insertJobset .. | .jobsetReady .. => [.jobsets]
  | .insertGate .. | .acquireGate .. | .acquirePromotedGate .. => [.gates]
  | .deleteJobset .. | .deleteRunJobsets .. => [.jobsets, .gates]
  | .deleteRun .. => [.runs, .jobs, .holds, .waits, .jobsets, .gates, .requests]
  | .keepSubmit .. | .endSubmit .. => [.submits]
  | .keepLease .. | .endLease .. => [.leases]
  | .forgetMemory => [.submits, .leases]
  | .emit .. => [.outbox]
  | .request .. | .insertAttempt .. | .settleRunRequests .. | .settleJobRequests ..
  | .purgeRequests .. | .releaseRunnerRequests .. => [.requests]
  | .deleteSession .. => [.sessions, .requests]
  | .putSession .. | .deleteRunnerSessions .. => [.sessions]
  | .putRunner .. | .deleteRunner .. => [.runners]
  | .queueCancellation .. | .dropCancellation .. => [.cancellations]
  | .mark .. => []

/-- The two databases agree on a table. -/
def Db.agree (s s' : Db) : TableName → Prop
  | .runs => s'.runs = s.runs
  | .jobs => s'.jobs = s.jobs
  | .holds => s'.holds = s.holds
  | .waits => s'.waits = s.waits
  | .jobsets => s'.jobsets = s.jobsets
  | .gates => s'.gates = s.gates
  | .submits => s'.submits = s.submits
  | .leases => s'.leases = s.leases
  | .outbox => s'.outbox = s.outbox
  | .requests => s'.requests = s.requests
  | .sessions => s'.sessions = s.sessions
  | .runners => s'.runners = s.runners
  | .cancellations => s'.cancellations = s.cancellations

variable {st : Stmt} {s s' : Db}

theorem apply_frame (h : st.apply s = .ok s') {t : TableName} (ht : t ∉ st.writes) :
    s.agree s' t := by
  cases st <;> simp only [Stmt.apply] at h <;> (try split at h) <;> (try split at h) <;>
    first
    | (cases h; done)
    | (rw [Except.ok.injEq] at h
       subst h
       cases t <;> first | rfl | exact (ht (by simp [Stmt.writes])).elim)
    | (obtain ⟨t', -, rfl⟩ := inserted_eq_ok h
       cases t <;> first | rfl | exact (ht (by simp [Stmt.writes])).elim)

theorem apply_same (t : TableName) (h : st.apply s = .ok s') (ht : st.writes.contains t = false) :
    s.agree s' t :=
  apply_frame h fun hmem => by
    rw [List.contains_iff_mem.mpr hmem] at ht
    exact Bool.noConfusion ht

theorem Stmt.onJob_of_not_writes (h : .jobs ∉ st.writes) (row : Job) : st.onJob s row = row := by
  cases st <;> first | rfl | exact (h (by simp [Stmt.writes])).elim

theorem Stmt.onRun_of_not_writes (h : .runs ∉ st.writes) (row : Run) : st.onRun s row = row := by
  cases st <;> first | rfl | exact (h (by simp [Stmt.writes])).elim

/-- The statement inserts this job row. -/
def Stmt.insertsJob (st : Stmt) (row : Job) : Prop :=
  st = .insertJob row ∨ st = .insertMatrixParent row

theorem jobs_apply (h : st.apply s = .ok s') (r : RunId) (j : JobId) :
    s'.job r j = (s.job r j).map (st.onJob s) ∨
    (∃ row, st.insertsJob row ∧ s.runExists row.runId ∧ s.job row.runId row.jobId = none ∧
      s'.job r j = if row.key = (r, j) then some row else s.job r j) ∨
    ∃ r0, st = .deleteRun r0 ∧ s'.job r j = (s.job r j).filter fun row =>
      !decide (row.runId = r0) := by
  by_cases hw : .jobs ∈ st.writes
  -- one case for each statement that writes job rows
  · cases st with
    | insertJob row =>
        simp only [Stmt.apply] at h
        split at h
        · next hrun =>
            obtain ⟨t', ht, rfl⟩ := inserted_eq_ok h
            obtain ⟨hfree, hget⟩ := Table.insert?_eq_some ht
            exact .inr (.inl ⟨row, .inl rfl, hrun, hfree, hget (r, j)⟩)
        · cases h
    | insertMatrixParent row =>
        simp only [Stmt.apply] at h
        split at h
        · next hrun =>
            split at h
            · next t' ht =>
                rw [Except.ok.injEq] at h
                subst h
                obtain ⟨hfree, hget⟩ := Table.insert?_eq_some ht
                exact .inr (.inl ⟨row, .inr rfl, hrun, hfree, hget (r, j)⟩)
            -- the parent is there already, and the statement does nothing
            · rw [Except.ok.injEq] at h
              subst h
              exact .inl (congrFun Option.map_id (s.job r j)).symm
        · cases h
    | deleteRun r0 =>
        simp only [Stmt.apply, Except.ok.injEq] at h
        subst h
        exact .inr (.inr ⟨r0, rfl, Table.get_deleteWhere ..⟩)
    | job w r0 j0 =>
        simp only [Stmt.apply, Except.ok.injEq] at h
        subst h
        exact .inl (Table.get_updateWhere _ _ _ w.write_key _)
    | cancelRunJobs r0 =>
        simp only [Stmt.apply, Except.ok.injEq] at h
        subst h
        exact .inl (Table.get_updateWhere _ _ _ (by intro row; rfl) _)
    | expireRunJobs r0 =>
        simp only [Stmt.apply, Except.ok.injEq] at h
        subst h
        exact .inl (Table.get_updateWhere _ _ _ (by intro row; rfl) _)
    | refreshRemainingNeeds r0 settled base =>
        simp only [Stmt.apply, Except.ok.injEq] at h
        subst h
        exact .inl (Table.get_updateWhere _ _ _ (by intro row; rfl) _)
    | refreshRunRemainingNeeds r0 =>
        simp only [Stmt.apply, Except.ok.injEq] at h
        subst h
        exact .inl (Table.get_updateWhere _ _ _ (by intro row; rfl) _)
    | resumeExpansions =>
        simp only [Stmt.apply, Except.ok.injEq] at h
        subst h
        refine .inl ((Table.get_updateWhere _ _ _ (by intro row; rfl) _).trans ?_)
        simp only [decide_eq_true_eq]
        rfl
    | _ => exact absurd hw (by simp [Stmt.writes])
  -- the other statements leave the table as it is
  · have hjobs : s'.jobs = s.jobs := apply_frame h hw
    refine .inl ?_
    rw [Db.job, hjobs, show st.onJob s = id from funext (Stmt.onJob_of_not_writes hw),
      Option.map_id]
    rfl

/-- A job is inserted into a run that is there, under a key that is free. -/
theorem insertJob_ok {row : Job} (h : (Stmt.insertJob row).apply s = .ok s') :
    s.runExists row.runId = true ∧ s.job row.runId row.jobId = none := by
  simp only [Stmt.apply] at h
  split at h
  · next hrun =>
      obtain ⟨t', ht, _⟩ := inserted_eq_ok h
      exact ⟨hrun, (Table.insert?_eq_some ht).1⟩
  · cases h

/-- A job row after a statement was rewritten by it or inserted by it. -/
theorem job_of_apply (h : st.apply s = .ok s') {r : RunId} {j : JobId} {row' : Job}
    (hrow : s'.job r j = some row') :
    (∃ row, s.job r j = some row ∧ row' = st.onJob s row) ∨
    (st.insertsJob row' ∧ s.job r j = none ∧ row'.runId = r ∧ row'.jobId = j ∧
      s.runExists r) := by
  rcases jobs_apply h r j with hmap | ⟨row, hins, hrun, hfree, hget⟩ | ⟨r0, _, hdel⟩
  · rw [hmap, Option.map_eq_some_iff] at hrow
    obtain ⟨row, hold, rfl⟩ := hrow
    exact .inl ⟨row, hold, rfl⟩
  · rw [hget] at hrow
    split at hrow
    · next hkey =>
        rw [Option.some.injEq] at hrow
        subst hrow
        rw [Job.key, Prod.mk.injEq] at hkey
        obtain ⟨rfl, rfl⟩ := hkey
        exact .inr ⟨hins, hfree, rfl, rfl, hrun⟩
    · refine .inl ⟨row', hrow, ?_⟩
      rcases hins with rfl | rfl <;> rfl
  · rw [hdel, Option.filter_eq_some_iff] at hrow
    refine .inl ⟨row', hrow.1, ?_⟩
    subst st
    rfl

/-- A job row before a statement is rewritten by it, unless its run is deleted. -/
theorem job_apply (h : st.apply s = .ok s') {r : RunId} {j : JobId} {row : Job}
    (hrow : s.job r j = some row) :
    s'.job r j = some (st.onJob s row) ∨ (st = .deleteRun r ∧ s'.job r j = none) := by
  have hkey : row.key = (r, j) := Table.key_of_get hrow
  rcases jobs_apply h r j with hmap | ⟨new, hins, _, hfree, hget⟩ | ⟨r0, rfl, hdel⟩
  · rw [hmap, hrow]
    exact .inl rfl
  · refine .inl ?_
    have hne : ¬new.key = (r, j) := by
      intro heq
      rw [Job.key, Prod.mk.injEq] at heq
      rw [heq.1, heq.2, hrow] at hfree
      cases hfree
    rw [hget, if_neg hne, hrow]
    rcases hins with rfl | rfl <;> rfl
  · rw [hdel, hrow, Option.filter_some]
    rw [Job.key, Prod.mk.injEq] at hkey
    by_cases hr : row.runId = r0
    · subst hr
      rw [if_neg (by simp only [decide_true, Bool.not_true, Bool.false_eq_true, not_false_eq_true])]
      exact .inr ⟨by rw [hkey.1], rfl⟩
    · rw [if_pos (by simp only [hr, decide_false, Bool.not_false])]
      exact .inl rfl

theorem runs_apply (h : st.apply s = .ok s') (r : RunId) :
    s'.run r = (s.run r).map (st.onRun s) ∨
    (∃ row, st = .insertRun row ∧ s.run row.runId = none ∧
      s'.run r = if row.runId = r then some row else s.run r) ∨
    ∃ r0, st = .deleteRun r0 ∧ s'.run r = (s.run r).filter fun row => !decide (row.runId = r0) := by
  -- one statement inserts runs, one deletes them, two rewrite them in place
  by_cases hw : .runs ∈ st.writes
  · cases st with
    | insertRun row =>
        obtain ⟨t', ht, rfl⟩ := inserted_eq_ok h
        obtain ⟨hfree, hget⟩ := Table.insert?_eq_some ht
        exact .inr (.inl ⟨row, rfl, hfree, hget r⟩)
    | deleteRun r0 =>
        simp only [Stmt.apply, Except.ok.injEq] at h
        subst h
        exact .inr (.inr ⟨r0, rfl, Table.get_deleteWhere ..⟩)
    | run w r0 =>
        simp only [Stmt.apply, Except.ok.injEq] at h
        subst h
        exact .inl (Table.get_updateWhere _ _ _ w.write_key _)
    | summarize site r0 =>
        simp only [Stmt.apply, Except.ok.injEq] at h
        subst h
        refine .inl ((Table.get_updateWhere _ _ _ (s.summarizeRow_key r0) _).trans ?_)
        simp only [decide_eq_true_eq]
        rfl
    | _ => exact absurd hw (by simp [Stmt.writes])
  · have hruns : s'.runs = s.runs := apply_frame h hw
    refine .inl ?_
    rw [Db.run, hruns, show st.onRun s = id from funext (Stmt.onRun_of_not_writes hw),
      Option.map_id]
    rfl

/-- A run row after a statement was rewritten by it or inserted by it. -/
theorem run_of_apply (h : st.apply s = .ok s') {r : RunId} {row' : Run}
    (hrow : s'.run r = some row') :
    (∃ row, s.run r = some row ∧ row' = st.onRun s row) ∨
    (st = .insertRun row' ∧ s.run r = none ∧ row'.runId = r) := by
  rcases runs_apply h r with hmap | ⟨row, hins, hfree, hget⟩ | ⟨r0, _, hdel⟩
  · rw [hmap, Option.map_eq_some_iff] at hrow
    obtain ⟨row, hold, rfl⟩ := hrow
    exact .inl ⟨row, hold, rfl⟩
  · rw [hget] at hrow
    split at hrow
    · next hkey =>
        rw [Option.some.injEq] at hrow
        subst hrow
        subst hkey
        exact .inr ⟨hins, hfree, rfl⟩
    · refine .inl ⟨row', hrow, ?_⟩
      subst hins
      rfl
  · rw [hdel, Option.filter_eq_some_iff] at hrow
    refine .inl ⟨row', hrow.1, ?_⟩
    subst st
    rfl

/-- A run row before a statement is rewritten by it, unless it is deleted. -/
theorem run_apply (h : st.apply s = .ok s') {r : RunId} {row : Run}
    (hrow : s.run r = some row) :
    s'.run r = some (st.onRun s row) ∨ (st = .deleteRun r ∧ s'.run r = none) := by
  have hkey : row.runId = r := Table.key_of_get hrow
  rcases runs_apply h r with hmap | ⟨new, hins, hfree, hget⟩ | ⟨r0, rfl, hdel⟩
  · rw [hmap, hrow]
    exact .inl rfl
  · refine .inl ?_
    have hne : ¬new.runId = r := by
      intro heq
      rw [heq, hrow] at hfree
      cases hfree
    rw [hget, if_neg hne, hrow]
    subst hins
    rfl
  · rw [hdel, hrow, Option.filter_some]
    by_cases hr : row.runId = r0
    · subst hr
      rw [if_neg (by simp only [decide_true, Bool.not_true, Bool.false_eq_true, not_false_eq_true])]
      exact .inr ⟨by rw [hkey], rfl⟩
    · rw [if_pos (by simp only [hr, decide_false, Bool.not_false])]
      exact .inl rfl

/-! ## Holds, waits and job sets -/

/-- The statement deletes this hold row. -/
def Stmt.dropsHold : Stmt → Hold → Bool
  | .releaseHold _ key holder, h => h.key = key && h.holder = holder
  | .dropHold key, h => h.key = key
  | .deleteRun r, h => h.holder.runId = r
  | _, _ => false

/-- The statement deletes this wait row. -/
def Stmt.dropsWait (s : Db) : Stmt → Wait → Bool
  | .removeWait _ key holder, w => w.key = key && w.holder = holder
  | .removeWaitById id, w => w.waitId = id
  | .deleteRunWaits _ r, w => w.holder.runId = r
  | .deleteJobsetWaits _ set, w =>
    match w.holder with
    | .jobSet _ id => id = set
    | _ => false
  | .deleteDeadWaits, w => !s.runLive w.holder.runId
  | .deleteRun r, w => w.holder.runId = r
  | _, _ => false

theorem holds_apply (h : st.apply s = .ok s') (key : GroupKey) :
    s'.holds.get key = (s.holds.get key).filter (fun h => !st.dropsHold h) ∨
    ∃ k display holder, st = .takeHold k display holder ∧ s.runExists holder.runId ∧
      s.holds.get k = none ∧
      s'.holds.get key = if k = key then some ⟨k, display, holder⟩ else s.holds.get key := by
  -- one statement takes a hold, three let go of some
  by_cases hw : .holds ∈ st.writes
  · cases st with
    | takeHold k display holder =>
        simp only [Stmt.apply] at h
        split at h
        · next hrun =>
            obtain ⟨t', ht, rfl⟩ := inserted_eq_ok h
            obtain ⟨hfree, hget⟩ := Table.insert?_eq_some ht
            exact .inr ⟨k, display, holder, rfl, hrun, hfree, hget key⟩
        · cases h
    | releaseHold site k holder =>
        simp only [Stmt.apply, Except.ok.injEq] at h
        subst h
        exact .inl (Table.get_deleteWhere ..)
    | dropHold k =>
        simp only [Stmt.apply, Except.ok.injEq] at h
        subst h
        exact .inl (Table.get_deleteWhere ..)
    | deleteRun r =>
        simp only [Stmt.apply, Except.ok.injEq] at h
        subst h
        exact .inl (Table.get_deleteWhere ..)
    | _ => exact absurd hw (by simp [Stmt.writes])
  · have hholds : s'.holds = s.holds := apply_frame h hw
    refine .inl ?_
    have hdrop : ∀ h, st.dropsHold h = false := by
      intro h
      cases st <;> first | rfl | exact (hw (by simp [Stmt.writes])).elim
    rw [hholds]
    cases s.holds.get key with
    | none => rfl
    | some row => simp only [Option.filter_some, hdrop, Bool.not_false, if_true]

theorem waits_apply (h : st.apply s = .ok s') (id : Nat) :
    s'.waits.get id = (s.waits.get id).filter (fun w => !st.dropsWait s w) ∨
    ∃ key holder new, (st = .enqueueWait key holder ∧ new = s.nextWait ∨
      st = .requeueWait key holder new) ∧ s.runExists holder.runId ∧ s.waits.get new = none ∧
      s'.waits.get id = if new = id then some ⟨new, key, holder⟩ else s.waits.get id := by
  by_cases hw : .waits ∈ st.writes
  -- one case for each statement that writes wait rows
  · cases st with
    | enqueueWait key holder =>
        simp only [Stmt.apply] at h
        split at h
        · next hrun =>
            obtain ⟨t', ht, rfl⟩ := inserted_eq_ok h
            obtain ⟨hfree, hget⟩ := Table.insert?_eq_some ht
            exact .inr ⟨key, holder, _, .inl ⟨rfl, rfl⟩, hrun, hfree, hget id⟩
        · cases h
    | requeueWait key holder new =>
        simp only [Stmt.apply] at h
        split at h
        · next hrun =>
            obtain ⟨t', ht, rfl⟩ := inserted_eq_ok h
            obtain ⟨hfree, hget⟩ := Table.insert?_eq_some ht
            exact .inr ⟨key, holder, new, .inr rfl, hrun, hfree, hget id⟩
        · cases h
    | removeWait site key holder =>
        simp only [Stmt.apply, Except.ok.injEq] at h
        subst h
        exact .inl (Table.get_deleteWhere ..)
    | removeWaitById waitId =>
        simp only [Stmt.apply, Except.ok.injEq] at h
        subst h
        exact .inl (Table.get_deleteWhere ..)
    | deleteRunWaits why r =>
        simp only [Stmt.apply, Except.ok.injEq] at h
        subst h
        exact .inl (Table.get_deleteWhere ..)
    | deleteJobsetWaits r set =>
        simp only [Stmt.apply, Except.ok.injEq] at h
        subst h
        exact .inl (Table.get_deleteWhere ..)
    | deleteDeadWaits =>
        simp only [Stmt.apply, Except.ok.injEq] at h
        subst h
        exact .inl (Table.get_deleteWhere ..)
    | deleteRun r =>
        simp only [Stmt.apply, Except.ok.injEq] at h
        subst h
        exact .inl (Table.get_deleteWhere ..)
    | _ => exact absurd hw (by simp [Stmt.writes])
  -- the other statements leave the table as it is, and drop nothing from it
  · have hwaits : s'.waits = s.waits := apply_frame h hw
    refine .inl ?_
    have hdrop : ∀ w, st.dropsWait s w = false := by
      intro w
      cases st <;> first | rfl | exact (hw (by simp [Stmt.writes])).elim
    rw [hwaits]
    cases s.waits.get id with
    | none => rfl
    | some row => simp only [Option.filter_some, hdrop, Bool.not_false, if_true]

theorem hold_of_apply (h : st.apply s = .ok s') {key : GroupKey} {row : Hold}
    (hrow : s'.holds.get key = some row) :
    (s.holds.get key = some row ∧ st.dropsHold row = false) ∨
    (∃ display, st = .takeHold key display row.holder ∧ s.holds.get key = none ∧
      s.runExists row.holder.runId ∧ row.key = key) := by
  rcases holds_apply h key with hfilter | ⟨k, display, holder, rfl, hrun, hfree, hget⟩
  · rw [hfilter, Option.filter_eq_some_iff, Bool.not_eq_true'] at hrow
    exact .inl hrow
  · rw [hget] at hrow
    split at hrow
    · next hk =>
        subst hk
        rw [Option.some.injEq] at hrow
        subst hrow
        exact .inr ⟨display, rfl, hfree, hrun, rfl⟩
    · exact .inl ⟨hrow, rfl⟩

theorem wait_of_apply (h : st.apply s = .ok s') {id : Nat} {row : Wait}
    (hrow : s'.waits.get id = some row) :
    (s.waits.get id = some row ∧ st.dropsWait s row = false) ∨
    ((st = .enqueueWait row.key row.holder ∨ st = .requeueWait row.key row.holder id) ∧
      s.runExists row.holder.runId ∧ row.waitId = id ∧ s.waits.get id = none) := by
  rcases waits_apply h id with hfilter | ⟨key, holder, new, hst, hrun, hfree, hget⟩
  · rw [hfilter, Option.filter_eq_some_iff, Bool.not_eq_true'] at hrow
    exact .inl hrow
  · rw [hget] at hrow
    split at hrow
    · next hk =>
        subst hk
        rw [Option.some.injEq] at hrow
        subst hrow
        exact .inr ⟨hst.imp And.left id, hrun, rfl, hfree⟩
    · refine .inl ⟨hrow, ?_⟩
      rcases hst with ⟨rfl, _⟩ | rfl <;> rfl

theorem jobset_of_apply (h : st.apply s = .ok s') {id : Nat} {set' : JobSet}
    (hset : s'.jobsets.get id = some set') :
    (∃ set, s.jobsets.get id = some set ∧ set'.runId = set.runId ∧ set'.jobIds = set.jobIds) ∨
    (st = .insertJobset set'.runId set'.jobIds ∧ id = s.nextJobset ∧
      s.findJobset set'.runId set'.jobIds = none) := by
  -- one statement inserts a set of jobs, and finds the one that exists first
  by_cases hw : .jobsets ∈ st.writes
  · cases st with
    | insertJobset r jobIds =>
        simp only [Stmt.apply] at h
        split at h
        · rw [Except.ok.injEq] at h
          subst h
          exact .inl ⟨set', hset, rfl, rfl⟩
        · next hnone =>
            split at h
            · obtain ⟨t', ht, rfl⟩ := inserted_eq_ok h
              obtain ⟨_, hget⟩ := Table.insert?_eq_some ht
              rw [hget] at hset
              split at hset
              · next hid =>
                  rw [Option.some.injEq] at hset
                  subst hset
                  exact .inr ⟨rfl, hid.symm, hnone⟩
              · exact .inl ⟨set', hset, rfl, rfl⟩
            · cases h
    -- the others mark sets as ready or delete them, and a set keeps its run and its jobs
    | jobsetReady set =>
        simp only [Stmt.apply, Except.ok.injEq] at h
        subst h
        rw [Table.get_updateWhere _ _ _ (by intro row; rfl), Option.map_eq_some_iff] at hset
        obtain ⟨row, hrow, rfl⟩ := hset
        refine .inl ⟨row, hrow, ?_⟩
        split
        · exact ⟨rfl, rfl⟩
        · exact ⟨rfl, rfl⟩
    | deleteJobset set =>
        simp only [Stmt.apply, Except.ok.injEq] at h
        subst h
        rw [Table.get_deleteWhere, Option.filter_eq_some_iff] at hset
        exact .inl ⟨set', hset.1, rfl, rfl⟩
    | deleteRunJobsets r =>
        simp only [Stmt.apply, Except.ok.injEq] at h
        subst h
        rw [Table.get_deleteWhere, Option.filter_eq_some_iff] at hset
        exact .inl ⟨set', hset.1, rfl, rfl⟩
    | deleteRun r =>
        simp only [Stmt.apply, Except.ok.injEq] at h
        subst h
        rw [Table.get_deleteWhere, Option.filter_eq_some_iff] at hset
        exact .inl ⟨set', hset.1, rfl, rfl⟩
    | _ => exact absurd hw (by simp [Stmt.writes])
  · have hsame : s'.jobsets = s.jobsets := apply_frame h hw
    rw [hsame] at hset
    exact .inl ⟨set', hset, rfl, rfl⟩

theorem nextJobset_apply (h : st.apply s = .ok s') :
    s'.nextJobset = s.nextJobset ∨
      ∃ r jobIds, st = .insertJobset r jobIds ∧ s'.nextJobset = s.nextJobset + 1 := by
  cases st with
  | insertJobset r jobIds =>
      simp only [Stmt.apply] at h
      split at h
      · rw [Except.ok.injEq] at h
        exact .inl (by rw [h])
      · split at h
        · obtain ⟨t', _, rfl⟩ := inserted_eq_ok h
          exact .inr ⟨r, jobIds, rfl, rfl⟩
        · cases h
  | _ =>
      simp only [Stmt.apply] at h
      refine .inl ?_
      (try split at h) <;> (try split at h) <;> first
        | (cases h; done)
        | (rw [Except.ok.injEq] at h; subst h; rfl)
        | (obtain ⟨t', _, rfl⟩ := inserted_eq_ok h; rfl)

theorem nextRun_apply (h : st.apply s = .ok s') :
    s'.nextRun = s.nextRun ∨ ∃ row, st = .insertRun row ∧ s'.nextRun = row.runId + 1 := by
  cases st with
  | insertRun row =>
      obtain ⟨t', _, rfl⟩ := inserted_eq_ok h
      exact .inr ⟨row, rfl, rfl⟩
  | _ =>
      simp only [Stmt.apply] at h
      refine .inl ?_
      (try split at h) <;> (try split at h) <;> first
        | (cases h; done)
        | (rw [Except.ok.injEq] at h; subst h; rfl)
        | (obtain ⟨t', _, rfl⟩ := inserted_eq_ok h; rfl)

/-! ## Memory and the outbox -/

theorem submit_of_apply (h : st.apply s = .ok s') {r : RunId} {sub : Submit}
    (hsub : s'.submits.get r = some sub) :
    s.submits.get r = some sub ∨ (st = .keepSubmit sub ∧ sub.runId = r) := by
  -- the list of submissions in memory: kept, ended, or lost with the process
  by_cases hw : .submits ∈ st.writes
  · cases st with
    | keepSubmit row =>
        obtain ⟨t', ht, rfl⟩ := inserted_eq_ok h
        obtain ⟨_, hget⟩ := Table.insert?_eq_some ht
        rw [hget] at hsub
        split at hsub
        · next hr =>
            rw [Option.some.injEq] at hsub
            subst hsub
            exact .inr ⟨rfl, hr⟩
        · rw [Table.get_deleteWhere, Option.filter_eq_some_iff] at hsub
          exact .inl hsub.1
    | endSubmit r0 =>
        simp only [Stmt.apply, Except.ok.injEq] at h
        subst h
        rw [Table.get_deleteWhere, Option.filter_eq_some_iff] at hsub
        exact .inl hsub.1
    | forgetMemory =>
        simp only [Stmt.apply, Except.ok.injEq] at h
        subst h
        exact absurd hsub (by simp only [Table.get_empty, reduceCtorEq, not_false_eq_true])
    | _ => exact absurd hw (by simp [Stmt.writes])
  · have hsame : s'.submits = s.submits := apply_frame h hw
    rw [hsame] at hsub
    exact .inl hsub

theorem lease_of_apply (h : st.apply s = .ok s') {lease : Lease} (hl : lease ∈ s'.leases) :
    lease ∈ s.leases ∨ st = .keepLease lease := by
  by_cases hw : .leases ∈ st.writes
  · cases st with
    | keepLease l =>
        simp only [Stmt.apply, Except.ok.injEq] at h
        subst h
        rcases List.mem_append.mp hl with hl | hl
        · exact .inl hl
        · exact .inr (by rw [List.mem_singleton.mp hl])
    | endLease l =>
        simp only [Stmt.apply, Except.ok.injEq] at h
        subst h
        exact .inl (List.mem_of_mem_filter hl)
    | forgetMemory =>
        simp only [Stmt.apply, Except.ok.injEq] at h
        subst h
        exact absurd hl List.not_mem_nil
    | _ => exact absurd hw (by simp [Stmt.writes])
  · have hsame : s'.leases = s.leases := apply_frame h hw
    rw [hsame] at hl
    exact .inl hl

/-! ## Facts about some of the tables -/

/-- The fact does not read the tables. -/
def Ignores (tables : List TableName) (F : Db → Prop) : Prop :=
  ∀ {st : Stmt} {s s' : Db}, (st.writes.all fun t => tables.contains t) = true →
    st.apply s = .ok s' → F s → F s'

namespace Ignores

theorem any (tables : List TableName) : Ignores tables fun _ => True :=
  fun _ _ _ => trivial

/-- The statement leaves a table alone that is not in the list. -/
theorem same {tables : List TableName} (t : TableName) (ht : tables.contains t = false) {st : Stmt}
    {s s' : Db} (hsub : (st.writes.all fun t => tables.contains t) = true)
    (happly : st.apply s = .ok s') : s.agree s' t := by
  refine apply_frame happly fun hmem => ?_
  have hin := List.all_eq_true.mp hsub t hmem
  rw [ht] at hin
  exact Bool.noConfusion hin

theorem job {tables : List TableName} (h : tables.contains .jobs = false) (r : RunId) (j : JobId)
    (q : Option Job → Prop) : Ignores tables fun s => q (s.job r j) := by
  intro st s s' hsub happly hq
  have hsame : s'.jobs = s.jobs := same .jobs h hsub happly
  rw [Db.job, hsame]
  exact hq

theorem and {tables : List TableName} {F G : Db → Prop} (hF : Ignores tables F)
    (hG : Ignores tables G) : Ignores tables fun s => F s ∧ G s :=
  fun hsub happly h => ⟨hF hsub happly h.1, hG hsub happly h.2⟩

theorem mono {tables tables' : List TableName} {F : Db → Prop} (hF : Ignores tables' F)
    (hsub : (tables.all fun t => tables'.contains t) = true) : Ignores tables F := by
  intro st s s' hst happly h
  refine hF (List.all_eq_true.mpr fun t ht => ?_) happly h
  exact List.all_eq_true.mp hsub t (List.contains_iff_mem.mp (List.all_eq_true.mp hst t ht))

end Ignores

end Preloop
