import PreloopControl.Rerun

/-!
# Runners, Reaping and Boot

Commands that keep the tables in step with the world (`control/lite/lifecycle.rs`
and `control/lite/reaper.rs`): runners and their sessions come and go, the reaper
fails starved jobs and expires leases, retention deletes finished runs, and a
booting node reconciles what a crash left behind.

## Main definitions

* `retryAttempt`, `requeueClaimed`: A claimed job goes back to the queue.
* `purgeRunner`: A runner disappears.
* `starveJob`, `reapSweep`: The reaper.
* `reconcileOnBoot`: Reconciliation.
-/

namespace Preloop

open Txn

namespace Db

/-- The groups whose hold belongs to a missing or completed run. -/
def deadHolds (s : Db) : List GroupKey :=
  (s.holds.select fun h => !s.runLive h.holder.runId).map Hold.key

/-- Claimed jobs without an in-flight attempt that is bound to a session. -/
def orphanedClaims (s : Db) : List (RunId × JobId) :=
  (s.jobs.select fun j => j.queueState = .claimed &&
    !(s.inFlight j.runId j.jobId).any fun q => q.sessionId.isSome).map Job.key

/-- The claimed jobs of a runner: claimed by it, or bound to one of its
    sessions. -/
def claimsOf (s : Db) (runner : Nat) : List (RunId × JobId) :=
  (s.jobs.select fun j => j.queueState = .claimed && (j.claimedBy = some runner ||
    (s.inFlight j.runId j.jobId).any fun q =>
      (q.sessionId.bind s.sessions.get).any fun se => se.runnerId = some runner)).map Job.key

end Db

/-- `ReconcileOutcome`. -/
structure ReconcileOutcome where
  recovered : Nat
  failed : Nat
  holdersDropped : Nat
deriving DecidableEq, Repr

/-- `retry_attempt`: settle the in-flight attempt and put a fresh one in its
    place. -/
def retryAttempt (b : Backend) (r : RunId) (j : JobId) : Cmd Unit := do
  match ← Tx.select fun s : Db => s.liveRequest r j with
  | none => pure ()
  | some q =>
    match ← Tx.select fun s : Db => (s.job r j).bind Job.message with
    | none => Tx.abort .backend
    | some message =>
      let fresh ← Tx.select fun s : Db => b.uuid s.nextRequest
      exec (.request .retire q.requestId)
      exec (.insertAttempt r j fresh)
      exec (.job (.setMessage { message with agentJobId := fresh }) r j)

/-- `requeue_claimed`: whether the job was claimed. -/
def requeueClaimed (b : Backend) (r : RunId) (j : JobId) : Cmd Bool := do
  let claimed ← Tx.select fun s : Db => (s.job r j).any fun row => row.queueState = .claimed
  if !claimed then pure false
  else
    retryAttempt b r j
    exec (.job .requeue r j)
    pure true

/-- `purge_runner`. -/
def purgeRunner (b : Backend) (runner : Nat) : Cmd Unit := do
  let claims ← Tx.select fun s : Db => s.claimsOf runner
  exec (.releaseRunnerRequests runner)
  exec (.deleteRunnerSessions runner)
  exec (.deleteRunner runner)
  claims.forM fun (r, j) => do
    let _ ← requeueClaimed b r j

/-- `open_runner_session`, for a runner that must be registered. -/
def openSession (session : String) (runner : Nat) : Cmd Unit := do
  let known ← Tx.select fun s : Db => (s.runners.get runner).isSome
  if !known then Tx.abort .forbidden else exec (.putSession ⟨session, some runner⟩)

/-- `close_runner_session`: in-flight attempts keep their runner. -/
def closeSession (session : String) : Cmd Unit := exec (.deleteSession session)

/-- `starve_job`: no dependent is looked at and no group is freed. -/
def starveJob (r : RunId) (j : JobId) : Cmd Unit := do
  exec (.job .starve r j)
  let _ ← summarizeRunRow .starve r

/-- What the reaper decided from its snapshot: jobs to starve, attempts past
    their timeout and attempts whose lease ran out. -/
structure ReapSweep where
  starved : List (RunId × JobId)
  timedOut : List (Nat × RunId × JobId)
  expired : List Nat
deriving DecidableEq, Repr

/-- `reap_sweep`. -/
def reapSweep (sweep : ReapSweep) : Cmd Unit := do
  sweep.starved.forM fun (r, j) => starveJob r j
  sweep.timedOut.forM fun (id, r, j) => do
    exec (.request .timeout id)
    match ← Tx.select fun s : Db => s.liveRequest r j with
    | some q => exec (.queueCancellation q.requestId (some "timeout"))
    | none => pure ()
  sweep.expired.forM fun id => exec (.request .expireLease id)

/-- `delete_expired_run`, and the deletion `archive_finished_runs` ends in: only
    a completed run goes, and its rows go with it. -/
def deleteExpiredRun (r : RunId) : Cmd Unit := do
  let live ← Tx.select fun s : Db => s.runLive r
  if live then Tx.abort .conflict else exec (.deleteRun r)

section Boot

variable (b : Backend) (promoteNext : GroupKey → Option String → Cmd Unit)

/-- A hold of a dead run: with a waiter the group is handed on, without one the
    row is dropped. The dead hold row stays while the group is handed on. -/
def reconcileHold (key : GroupKey) : Cmd Unit := do
  let waiting ← Tx.select fun s : Db => (s.firstWaiter key).isSome
  let display ← Tx.select fun s : Db => s.displayName key
  if waiting then promoteNext key display else exec (.dropHold key)

/-- `reconcile_on_boot`. -/
def reconcileOnBoot : Cmd ReconcileOutcome := do
  let dead ← Tx.select Db.deadHolds
  dead.forM (reconcileHold promoteNext)
  exec .deleteDeadWaits
  let orphans ← Tx.select Db.orphanedClaims
  let requeued ← orphans.mapM fun (r, j) => requeueClaimed b r j
  exec .resumeExpansions
  pure ⟨requeued.count true, requeued.count false, dead.length⟩

end Boot

end Preloop
