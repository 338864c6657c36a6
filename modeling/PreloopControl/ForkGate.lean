import PreloopControl.Expansion

/-!
# Fork Approval and Environment Gates

A run of a fork's pull request is held until somebody approves it, and a job
with a protected environment is held until its rules are met
(`control/lite/fork_gate.rs`, with the stamps of `control/lite/lifecycle.rs` and
the expiry of `control/lite/settle.rs`). All of these park a job as `held`
without a wait row; this pass finds such jobs again and releases them.

## Main definitions

* `releaseParkedJobs`: Re-evaluate what a run parked on a hold.
* `promoteReadyJobs`: The pass over one run or over every armed gate.
* `expireForkApprovals`: Runs nobody approved in time fail.
* `recordEnvironmentApproval`: One review decision.
-/

namespace Preloop

open Txn

/-- The environment a parked job waits for: the name in its message once that is
    resolved, else the name its gate was armed under, else the declared one. -/
def parkedEnvironment (ev : Evaluators) (stored : Option Message) (j : Job) : Option String :=
  (((stored.bind Message.actionsEnvironment).filter fun name => !ev.hasExpressions name).or
    (j.environmentGate.bind EnvironmentGateState.environmentName)).or j.spec.environment

namespace Db

/-- `sweep_runs` without a named run: every run that parks a gate-armed job. -/
def armedRuns (s : Db) : List RunId :=
  ((s.jobs.select fun j => j.queueState = .held && j.status = .pending &&
    j.environmentGate.isSome).map Job.runId).eraseDups.insertionSort (· ≤ ·)

/-- The runs whose fork approval window lapsed. -/
def lapsedForks (s : Db) (cutoff : Int) : List Run :=
  s.runs.selectBy (fun run => run.forkApprovalPending && run.status ≠ .completed &&
    run.forkApprovalRequestedAt.any fun requestedAt => requestedAt < cutoff) Run.runId

end Db

/-- `EnvironmentDecision`, with the reviewer when the decision names one. -/
inductive EnvironmentDecision
  | approve (actor : Option String)
  | reject (actor : Option String)
deriving DecidableEq, Repr

/-- The gate after a review decision, unless it awaits none or the approval
    window has lapsed. -/
def EnvironmentGateState.record (gate : EnvironmentGateState) (decision : EnvironmentDecision)
    (now : Int) : Option EnvironmentGateState :=
  gate.approvalRequestedAt.bind fun requestedAt =>
    if environmentApprovalWindow < saturate (now - requestedAt) then none
    else
      match decision with
      | .approve actor => some { gate with approvals := gate.approvals ++ [⟨now, actor⟩] }
      | .reject actor => some { gate with rejectedBy := actor, rejectedAt := some now }

section Parked

variable (b : Backend) (promoteNext : GroupKey → Option String → Cmd Unit) (fuel : Nat)

/-- The gate verdict on a parked job under a resolved name. -/
def releaseUnder (run : Run) (j : Job) (name : String) : Cmd Unit :=
  match evaluateEnvironmentGate b.eval (b.lookup run.repository name) run.gitRef name
      j.environmentGate b.now with
  | (.proceed, gate) => do
    exec (.job (.setGate .parked gate) j.runId j.jobId)
    exec (.job (.unpark .releaseParked) j.runId j.jobId)
  | (.wait, gate) => exec (.job (.setGate .parked gate) j.runId j.jobId)
  | (.failed, gate) => do
    exec (.job (.setGate .parked gate) j.runId j.jobId)
    let _ ← settleNode promoteNext j.runId j.jobId .failure

/-- One parked job. A name that is still a template is hydrated once its needs
    are settled; a job its needs rule out goes back to the sweep. -/
def releaseParkedJob (run : Run) (graph : RunGraph) (j : Job) : Cmd Unit := do
  let stored ← Tx.select fun s : Db => (s.job j.runId j.jobId).bind Job.message
  match parkedEnvironment b.eval stored j with
  | none => exec (.job (.unpark .releaseParked) j.runId j.jobId)
  | some name =>
    if !b.eval.hasExpressions name then releaseUnder b promoteNext run j name
    else
      match dependencyDecision b.eval graph j with
      | .wait => pure ()
      | .run => do
        let (_, resolved) ← hydrateMessage b.eval graph j
        releaseUnder b promoteNext run j (resolved.getD name)
      | _ => exec (.job (.unpark .releaseParked) j.runId j.jobId)

/-- `release_parked_jobs`: a run awaiting approval admits nothing. -/
def releaseParkedJobs (r : RunId) : Cmd Unit := do
  match ← Tx.select fun s : Db => s.run r with
  | none => pure ()
  | some run =>
    if run.forkApprovalPending then pure ()
    else
      let graph ← Tx.select fun s : Db => s.runGraph r
      let parked ← Tx.select fun s : Db => s.heldJobsOfRun r
      parked.forM (releaseParkedJob b promoteNext run graph)

/-- `promote_ready_jobs`. -/
def promoteReadyJobs (r : Option RunId) : Cmd Unit := do
  let runs ← match r with
    | some r => pure [r]
    | none => Tx.select Db.armedRuns
  runs.forM fun r => do
    releaseParkedJobs b promoteNext r
    let _ ← promoteRun b promoteNext fuel fuel r

/-- One run of `expire_fork_approvals_inner`. -/
def expireFork (r : RunId) : Cmd Unit := do
  let nodes ← Tx.select fun s : Db => s.unsettled r
  exec (.expireRunJobs r)
  nodes.forM fun j => retireIfExpandable r j.jobId .failure
  let finalized ← Tx.select fun s : Db => !s.runCompleted r
  exec (.run .expireFork r)
  if !finalized then exec (.run .clearFork r)
  else
    exec (.deleteRunJobsets r)
    releaseConcurrencyForRun promoteNext .expired r
    emitRun .runCompleted r (some .failure)

/-- `expire_fork_approvals`. -/
def expireForkApprovals (cutoff : Int) : Cmd Unit := do
  let expired ← Tx.select fun s : Db => (s.lapsedForks cutoff).map Run.runId
  expired.forM (expireFork promoteNext)

/-- `set_fork_approval`. -/
def setForkApproval (r : RunId) (pending : Bool) (requestedAt approvedAt : Option Int) :
    Cmd Unit :=
  exec (.run (.setFork pending requestedAt approvedAt) r)

/-- `set_environment_gate`. -/
def setEnvironmentGate (r : RunId) (j : JobId) (gate : Option EnvironmentGateState) : Cmd Unit :=
  exec (.job (.setGate .stamp gate) r j)

/-- `record_environment_approval`, the part that writes; the promotion pass it
    asks for afterwards is a command of its own. -/
def recordEnvironmentApproval (r : RunId) (j : JobId) (decision : EnvironmentDecision) :
    Cmd Unit := do
  match ← Tx.select fun s : Db => s.job r j with
  | none => Tx.abort .notFound
  | some job =>
    if job.status.isTerminal then pure ()
    else
      match job.environmentGate.bind fun gate => gate.record decision b.now with
      | some recorded => exec (.job (.setGate .review (some recorded)) r j)
      | none => pure ()

end Parked

end Preloop
