import PreloopControl.Concurrency

/-!
# Settlement and Cancellation

The terminal half of a job's life (`control/lite/settle.rs`): settling a job
with its fail-fast sweep, cancelling runs, jobs and job sets, and giving back
what they held.

Every function that frees a group ends in `promote_next_in_group`, which may run
a whole promotion sweep and free other groups in turn. That call is the
parameter `promoteNext` here; the knot is tied once, in the promotion module.

## Main definitions

* `releaseConcurrencyForJob`, `releaseConcurrencyForRun`, `releaseJobset`:
  Giving back holds and waits.
* `cancelRunInner`, `cancelJobInner`, `failJobset`, `cancelHolder`: Cancellation.
* `applyFailFast`: A failed leg cancels its siblings.
* `settleNode`: One job reaches a terminal status.
-/

namespace Preloop

open Txn

namespace Db

/-- `namespace_of`. -/
def namespaceOf (s : Db) (r : RunId) : String := (s.run r).elim "default" Run.namespaceId

/-- `is_expandable`: meant for a deferred matrix or a reusable caller, but any
    row with something in the `reusable_call` envelope passes, which includes
    every job an expansion registered. -/
def isExpandable (s : Db) (r : RunId) (j : JobId) : Bool :=
  (s.job r j).any fun row =>
    row.spec.deferredMatrix.isSome || row.spec.reusableCall.isSome ||
      row.spec.reusableMeta.isSome || row.spec.hasPlan

/-- `fail_fast_for_base`: on unless a row of the base says otherwise. -/
def failFastForBase (s : Db) (r : RunId) (base : String) : Bool :=
  ((s.jobs.rows.filter fun j => j.runId = r && j.baseId = base).findSome? fun j =>
    j.spec.failFast).getD true

/-- The unsettled rows of a base other than one job, by `job_order`, each with
    its newest in-flight attempt. -/
def siblings (s : Db) (r : RunId) (base : String) (except : JobId) :
    List (Job × Option Request) :=
  (s.jobs.selectBy (fun j => j.runId = r && j.baseId = base && j.jobId ≠ except &&
    !j.status.isTerminal) Job.jobOrder).map fun j => (j, s.liveRequest r j.jobId)

/-- The unsettled rows of a run. -/
def unsettled (s : Db) (r : RunId) : List Job :=
  s.jobs.select fun j => j.runId = r && !j.status.isTerminal

/-- The unsettled rows that name a job as their parent. -/
def openChildren (s : Db) (r : RunId) (j : JobId) : List Job :=
  s.jobs.select fun c => c.runId = r && c.parentJobId = some j && !c.status.isTerminal

/-- `holder_is_terminal`, over the rows that count. -/
def holderIsTerminal (graph : RunGraph) : Holder → Bool
  | .run _ => graph.all fun j => j.status.isTerminal
  | .job _ job => graph.any fun j => j.jobId = job && j.status.isTerminal
  | .jobSet _ jobIds => jobIds.all fun id => graph.any fun j => j.jobId = id && j.status.isTerminal

end Db

/-- `emit_outbox` for a run. -/
def emitRun (topic : Topic) (r : RunId) (status : Option ExecutionStatus) : Cmd Unit := do
  let ns ← Tx.select fun s : Db => s.namespaceOf r
  exec (.emit ⟨ns, r, topic, none, status⟩)

/-- `emit_outbox` for a job, under a namespace already read. -/
def emitJob (ns : String) (topic : Topic) (r : RunId) (j : JobId)
    (status : Option ExecutionStatus) : Cmd Unit :=
  exec (.emit ⟨ns, r, topic, some j, status⟩)

/-- `summarize_run_row`: rewrite the run row and return the summary. -/
def summarizeRunRow (site : SummarizeSite) (r : RunId) : Cmd ExecutionStatus := do
  let summary ← Tx.select fun s : Db => summarizeRun ((s.runGraph r).map Job.status)
  exec (.summarize site r)
  pure summary

/-- `settle_requests_for_job`, and `retire_node_requests`: the in-flight
    attempts get the verdict and lose their queued cancellation. -/
def settleRequestsForJob (r : RunId) (j : JobId) (status : ExecutionStatus) : Cmd Unit := do
  let ids ← Tx.select fun s : Db => (s.inFlight r j).map Request.requestId
  ids.forM fun id => do
    exec (.request (.settle status) id)
    exec (.dropCancellation id)

/-- Retire the placeholder attempts of an expandable node. -/
def retireIfExpandable (r : RunId) (j : JobId) (status : ExecutionStatus) : Cmd Unit := do
  let expandable ← Tx.select fun s : Db => s.isExpandable r j
  if expandable then settleRequestsForJob r j status

/-- A running attempt is told to stop. -/
def cancelAttempt (status : ExecutionStatus) (live : Option Request) (reason : Option String) :
    Cmd Nat :=
  match status, live with
  | .inProgress, some q => do
    exec (.queueCancellation q.requestId reason)
    pure 1
  | _, _ => pure 0

section Release

variable (promoteNext : GroupKey → Option String → Cmd Unit)

/-- Release a hold and, if it was still owned, hand the group on. -/
def releaseAndPromote (site : ReleaseSite) (key : GroupKey) (holder : Holder) : Cmd Unit := do
  let display ← Tx.select fun s : Db => s.displayName key
  let owned ← releaseHold site key holder
  if owned then promoteNext key display

/-- `release_concurrency_for_job`: the job's own hold, a run or job-set hold
    once all of that holder is settled, and every wait row that stands for it. -/
def releaseConcurrencyForJob (r : RunId) (j : JobId) : Cmd Unit := do
  let graph ← Tx.select fun s : Db => s.runGraph r
  let holds ← Tx.select fun s : Db => s.jobHolds r j
  holds.forM fun (key, holder) =>
    match holder with
    | .job _ _ => releaseAndPromote promoteNext .job key holder
    | other =>
      if Db.holderIsTerminal graph other then releaseAndPromote promoteNext .job key holder
      else pure ()
  let waits ← Tx.select fun s : Db => s.jobWaits r j
  waits.forM fun (key, holder) => removeWait .job key holder

/-- `release_concurrency_for_run`: every hold and wait of the run. -/
def releaseConcurrencyForRun (why : RunEnd) (r : RunId) : Cmd Unit := do
  let holds ← Tx.select fun s : Db => s.runHolds r
  holds.forM fun (key, holder) => releaseAndPromote promoteNext (.run why) key holder
  exec (.deleteRunWaits why r)

/-- `release_jobset`. -/
def releaseJobset (set : JobSet) : Cmd Unit := do
  exec (.deleteJobsetWaits set.runId set.jobsetId)
  let keys ← Tx.select fun s : Db => s.jobsetHolds set.jobsetId
  keys.forM fun key => do
    match ← Tx.select fun s : Db => s.holdRow key with
    | some (holder, _) => releaseAndPromote promoteNext .jobset key holder
    | none => pure ()
  exec (.deleteJobset set.jobsetId)

/-- `fail_jobset`: conclude a job set that could not be admitted. -/
def failJobset (r : RunId) (jobIds : List JobId) (status : ExecutionStatus) : Cmd Unit := do
  match ← Tx.select fun s : Db => s.findJobset r jobIds with
  | some set => releaseJobset promoteNext set
  | none => pure ()
  jobIds.forM fun j => do
    exec (.job .bumpGeneration r j)
    exec (.job (.finish .failJobset status) r j)
    retireIfExpandable r j status
    releaseConcurrencyForJob promoteNext r j
  let _ ← summarizeRunRow .failJobset r

/-- `cancel_run_inner`: the cancellations queued, and whether this call ended a
    live run. -/
def cancelRunInner (r : RunId) : Cmd (Nat × Bool) := do
  let known ← Tx.select fun s : Db => s.runExists r
  if !known then pure (0, false)
  else
    let running ← Tx.select fun s : Db =>
      (s.jobs.select fun j => j.runId = r && j.status = .inProgress).map fun j =>
        s.liveRequest r j.jobId
    let counts ← running.mapM fun live => cancelAttempt .inProgress live none
    let nodes ← Tx.select fun s : Db => s.unsettled r
    exec (.cancelRunJobs r)
    nodes.forM fun j => retireIfExpandable r j.jobId .cancelled
    let finalized ← Tx.select fun s : Db => !s.runCompleted r
    exec (.run .cancel r)
    releaseConcurrencyForRun promoteNext .cancelled r
    exec (.deleteRunJobsets r)
    if finalized then emitRun .runCompleted r (some .cancelled)
    pure (counts.sum, finalized)

/-- `cancel_job_inner`: cancel one job and the rows below it. -/
def cancelJobInner : Nat → RunId → JobId → Cmd Nat
  | 0, _, _ => Tx.abort .outOfFuel
  | fuel + 1, r, j => do
    match ← Tx.select fun s : Db => s.job r j with
    | none => pure 0
    | some job =>
      let live ← Tx.select fun s : Db => s.liveRequest r j
      let count ← cancelAttempt job.status live none
      exec (.job .bumpGeneration r j)
      exec (.job (.finish .cancelJob .cancelled) r j)
      let children ← Tx.select fun s : Db => s.openChildren r j
      let counts ← children.mapM fun c => cancelJobInner fuel r c.jobId
      retireIfExpandable r j .cancelled
      releaseConcurrencyForJob promoteNext r j
      let _ ← summarizeRunRow .cancelJob r
      pure (count + counts.sum)

/-- `cancel_holder`. -/
def cancelHolder (fuel : Nat) : Holder → Cmd Unit
  | .run r => do
    let _ ← cancelRunInner promoteNext r
  | .job r j => do
    let _ ← cancelJobInner promoteNext fuel r j
  | .jobSet r jobIds => failJobset promoteNext r jobIds .cancelled

/-- One sibling of a failed leg. -/
def cancelSibling (r : RunId) (base : String) (sibling : Job × Option Request) : Cmd Unit := do
  let _ ← cancelAttempt sibling.1.status sibling.2 (some "fail_fast")
  exec (.job (.finish .failFast .cancelled) r sibling.1.jobId)
  releaseConcurrencyForJob promoteNext r sibling.1.jobId
  exec (.refreshRemainingNeeds r sibling.1.jobId base)

/-- `apply_fail_fast`: the siblings cancelled. They are read once, before the
    first of them gives back its concurrency. Nothing depends on `concluded`: it
    says with what summary of the run the settlement comes here. -/
def applyFailFast (concluded : Bool) (r : RunId) (failed : JobId) : Cmd (List JobId) := do
  match ← Tx.select fun s : Db => s.job r failed with
  | none => pure []
  | some job =>
    let enabled ← Tx.select fun s : Db => s.failFastForBase r job.baseId
    if !enabled then pure []
    else
      let siblings ← Tx.select fun s : Db => s.siblings r job.baseId failed
      siblings.forM (cancelSibling promoteNext r job.baseId)
      if !siblings.isEmpty then
        let _ ← summarizeRunRow (.failFast concluded) r
      pure (siblings.map fun sibling => sibling.1.jobId)

/-- `SettleEffects`. -/
structure SettleEffects where
  effectiveStatus : ExecutionStatus
  replayed : Bool
  cancelledSiblings : List JobId
  newlyTerminalSuccess : Bool
deriving DecidableEq, Repr

/-- `SettleEffects::unchanged`. -/
def SettleEffects.unchanged (status : ExecutionStatus) : SettleEffects :=
  ⟨status, true, [], false⟩

/-- The run side of a settlement: a terminal run gives back its slots and
    announces its completion. -/
def concludeRun (r : RunId) (summary : ExecutionStatus) : Cmd Unit := do
  if summary.isTerminal then
    releaseConcurrencyForRun promoteNext .concluded r
    emitRun .runCompleted r (some summary)

/-- `settle_node`. A settled job is left alone, except that a cancelled one goes
    through the motions again for every late report. -/
def settleNode (r : RunId) (j : JobId) (reported : ExecutionStatus) : Cmd SettleEffects := do
  match ← Tx.select fun s : Db => s.job r j with
  | none => pure (.unchanged reported)
  | some job =>
    if job.status.isTerminal && job.status ≠ .cancelled then pure (.unchanged job.status)
    else
      let effective := effectiveStatus job.status reported (job.spec.continueOnError.getD false)
      let completedBefore ← Tx.select fun s : Db => s.runCompleted r
      exec (.job (.finish .settleNode effective) r j)
      exec (.refreshRemainingNeeds r j job.baseId)
      let first ← summarizeRunRow .settleNode r
      let cancelled ←
        if effective = .failure then applyFailFast promoteNext first.isTerminal r j else pure []
      let summary ← if cancelled.isEmpty then pure first else summarizeRunRow .settleAgain r
      settleRequestsForJob r j effective
      releaseConcurrencyForJob promoteNext r j
      concludeRun promoteNext r summary
      let ns ← Tx.select fun s : Db => s.namespaceOf r
      emitJob ns .jobCompleted r j (some effective)
      pure ⟨effective, false, cancelled, first = .success && !completedBefore⟩

end Release

end Preloop
