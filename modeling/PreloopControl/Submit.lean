import PreloopControl.Promote

/-!
# Submission

`submit_run` (`control/lite/submit.rs`) as the transactions it is made of: a
head that admits the run and takes the workflow gate, chunks that classify and
insert the jobs, and a finalizing step that promotes and summarizes. When a
later phase fails, `poison_partial_submit` closes the run instead.

The phases share what the head read: the chunks neither look at the run row nor
at the workflow gate again. A run may have been cancelled, displaced or promoted
in between.

## Main definitions

* `SubmitRun`: The command's input.
* `submitHead`, `submitChunk`, `submitFinalize`, `poisonPartialSubmit`: The
  phases.
* `classify`: Where a submitted job starts.
-/

namespace Preloop

open Txn

/-- `WorkflowConcurrency`: the workflow-level gate, already evaluated. -/
structure WorkflowConcurrency where
  group : String
  cancelInProgress : Bool
  queue : ConcurrencyQueue
deriving DecidableEq, Repr

/-- `SubmitRun`. `admitted` is the verdict of `admit_submit`, whose namespace
    limits are not modelled; a refusal aborts. -/
structure SubmitRun where
  namespaceId : String
  repository : String
  workflowPath : String
  gitRef : String
  webhookDeliveryId : Option String
  forkApprovalPending : Bool
  forkApprovalRequestedAt : Option Int
  eventOrder : Option EventOrder
  trustTier : Option TrustTier
  github : Json
  vars : Json
  inputs : Json
  jobOutputs : List (JobId × Outputs)
  jobs : List SubmitJob
  workflowConcurrency : Option WorkflowConcurrency
  emptyConcurrencyGroup : Bool
  checkHostable : Bool
  admitted : Bool
deriving DecidableEq, Repr

/-- `kind_of`. -/
def SubmitJob.kind (j : SubmitJob) : JobKind :=
  if j.spec.deferredMatrix.isSome then .matrixParent
  else if j.spec.reusableCall.isSome then .reusableCaller
  else if j.baseId ≠ j.jobId then .matrixLeg
  else .job

/-- The row `insert_job` writes, without a message. -/
def SubmitJob.row (j : SubmitJob) (r : RunId) (ns : String) (parent : Option JobId)
    (jobOrder : Nat) (status : ExecutionStatus) (queueState : QueueState) : Job where
  runId := r
  jobId := j.jobId
  namespaceId := ns
  kind := j.kind
  parentJobId := parent
  baseId := j.baseId
  status := status
  queueState := queueState
  remainingNeeds := j.needs.length
  runsOn := j.runsOn
  jobOrder := jobOrder
  expandGeneration := 0
  claimedBy := none
  outputs := none
  environmentGate := j.environmentGate
  spec := j.spec
  needs := j.needs.eraseDups
  message := none
  conditionContext := "\x7b\x7d"

/-- The row `insert_job` and `insert_job_message` write together. -/
def SubmitJob.rowWithMessage (j : SubmitJob) (r : RunId) (ns : String) (parent : Option JobId)
    (jobOrder : Nat) (status : ExecutionStatus) (queueState : QueueState) : Job :=
  { j.row r ns parent jobOrder status queueState with
    message := some j.message, conditionContext := j.conditionContext }

/-- The run row of a submission (`insert_run_row`). -/
def SubmitRun.row (sub : SubmitRun) (r : RunId) : Run where
  runId := r
  namespaceId := sub.namespaceId
  repository := sub.repository
  workflowPath := sub.workflowPath
  gitRef := sub.gitRef
  attempt := 1
  status := .queued
  conclusion := none
  webhookDeliveryId := sub.webhookDeliveryId
  concurrencyGroup := sub.workflowConcurrency.map WorkflowConcurrency.group
  forkApprovalPending := sub.forkApprovalPending
  forkApprovalRequestedAt := sub.forkApprovalRequestedAt
  forkApprovalApprovedAt := none
  eventOrder := sub.eventOrder
  trustTier := sub.trustTier
  github := sub.github
  vars := sub.vars
  inputs := sub.inputs

/-- Where a submitted job starts. -/
inductive SubmitClass
  | concluded (status : ExecutionStatus)
  | held
  | blocked (status : ExecutionStatus)
  | ready
deriving DecidableEq, Repr

/-- The classification of `submit_run_chunk`, on what the head read and on the
    slots already handed out in this submission. -/
def classify (ev : Evaluators) (sub : Submit) (j : SubmitJob) : SubmitClass :=
  if sub.checkHostable && j.needs.isEmpty && (unhostablePlatform ev j.runsOn sub.platforms).isSome
  then .concluded .failure
  else if j.initiallySkipped then .concluded .skipped
  else if j.spec.reusableCall.isNone && j.spec.deferredMatrix.isNone && j.needs.isEmpty &&
      unschedulable ev j.runsOn sub.poolLabels
        (sub.runnerLabels.any (jobMatchesRunner ev j.runsOn)) then .concluded .failure
  else if sub.held || sub.forkApprovalPending || j.environmentGate.isSome then .held
  else if j.spec.reusableCall.isSome || !j.needs.isEmpty ||
      !(j.spec.maxParallel.all fun limit => sub.activeByBase.count j.baseId < limit) then
    .blocked (if j.spec.reusableCall.isSome && j.needs.isEmpty then .pending else .queued)
  else .ready

namespace Db

/-- The run a webhook delivery already created for this workflow. -/
def replayed (s : Db) (sub : SubmitRun) : Bool :=
  sub.webhookDeliveryId.any fun delivery =>
    s.runs.exists? fun run =>
      run.webhookDeliveryId = some delivery && run.workflowPath = sub.workflowPath

/-- The deferred foreign keys of a run's job rows: every need and every parent
    names a row of the run. -/
def foreignKeysHold (s : Db) (r : RunId) : Bool :=
  (s.jobsOf r).all fun j =>
    (j.needs.all fun need => (s.job r need).isSome) &&
      j.parentJobId.all fun parent => (s.job r parent).isSome

/-- Some job of a submission does not conclude on the spot. -/
def hasRunnable (s : Db) (ev : Evaluators) (sub : SubmitRun) (poolLabels : List String)
    (runnerLabels : List (List String)) : Bool :=
  sub.jobs.any fun j =>
    !concludesAtSubmit ev j.initiallySkipped (!j.needs.isEmpty)
      (j.spec.reusableCall.isSome || j.spec.deferredMatrix.isSome) j.runsOn sub.checkHostable
      s.platforms poolLabels (runnerLabels.any (jobMatchesRunner ev j.runsOn))

end Db

/-- The deferred constraints are checked when the transaction commits. -/
def checkForeignKeys (r : RunId) : Cmd Unit := do
  if !(← Tx.select fun s : Db => s.foreignKeysHold r) then Tx.abort .foreignKey

/-- `mint_request`. -/
def mintRequest (r : RunId) (j : JobId) (agentJobId : Option String) : Cmd Unit :=
  match agentJobId with
  | some agent => exec (.insertAttempt r j agent)
  | none => pure ()

section Phases

variable (b : Backend) (promoteNext : GroupKey → Option String → Cmd Unit) (fuel : Nat)

/-- A cancelled arrival is a created and at once completed run. -/
def insertCancelledRun (sub : SubmitRun) (r : RunId) : Cmd Unit := do
  sub.jobs.zipIdx.forM fun (j, index) => do
    exec (.insertJob (j.rowWithMessage r sub.namespaceId none index .cancelled .none))
    mintRequest r j.jobId j.agentJobId
  exec (.settleRunRequests r)
  exec (.run .arrivalCancelled r)
  exec (.emit ⟨sub.namespaceId, r, .runCreated, none, some .cancelled⟩)
  exec (.emit ⟨sub.namespaceId, r, .runCompleted, none, some .cancelled⟩)
  checkForeignKeys r

/-- `submit_run_head`. -/
def submitHead (sub : SubmitRun) : Cmd Unit := do
  let replayed ← Tx.select fun s : Db => s.replayed sub
  if replayed || sub.emptyConcurrencyGroup then pure ()
  else if !sub.admitted then Tx.abort .backend
  else
    let r ← Tx.select Db.nextRun
    exec (.insertRun (sub.row r))
    let platforms ← Tx.select Db.platforms
    let poolLabels := if sub.checkHostable then b.poolLabels else []
    let runnerLabels ← Tx.select fun s : Db =>
      if poolLabels.isEmpty then [] else s.runners.rows.map Runner.labels
    let hasRunnable ← Tx.select fun s : Db => s.hasRunnable b.eval sub poolLabels runnerLabels
    let proceed (held : Bool) : Cmd Unit :=
      exec (.keepSubmit
        ⟨r, sub.namespaceId, sub.forkApprovalPending, sub.checkHostable, held, platforms,
          poolLabels, runnerLabels, sub.jobOutputs, [], [], 0, 0, sub.jobs⟩)
    match sub.workflowConcurrency with
    | none => proceed false
    | some wf =>
      if !hasRunnable then proceed false
      else
        let key := concurrencyKey sub.namespaceId sub.repository wf.group
        match ← acquire (cancelHolder promoteNext fuel) key wf.group (.run r)
            wf.cancelInProgress wf.queue with
        | .acquired => proceed false
        | .parked => proceed true
        | .arrivalCancelled => insertCancelledRun sub r

/-- One job of a chunk. -/
def submitOne (sub : Submit) (j : SubmitJob) : Cmd Submit := do
  let row := j.row sub.runId sub.namespaceId none sub.inserted
  let rowWithMessage := j.rowWithMessage sub.runId sub.namespaceId none sub.inserted
  match classify b.eval sub j with
  | .concluded status =>
    exec (.insertJob (row status .none))
    pure { sub with
      concluded := sub.concluded ++ [(j.jobId, status)], inserted := sub.inserted + 1 }
  | .held =>
    exec (.insertJob (rowWithMessage .pending .held))
    mintRequest sub.runId j.jobId j.agentJobId
    pure { sub with inserted := sub.inserted + 1, queued := sub.queued + 1 }
  | .blocked status =>
    exec (.insertJob (rowWithMessage status .blocked))
    mintRequest sub.runId j.jobId j.agentJobId
    pure { sub with inserted := sub.inserted + 1, queued := sub.queued + 1 }
  | .ready =>
    exec (.insertJob (rowWithMessage .queued .none))
    let counted := { sub with inserted := sub.inserted + 1, queued := sub.queued + 1 }
    let gated ← acquireJobGate b promoteNext fuel sub.runId j.jobId
    let after ← match gated with
      | .proceed => do
        enqueueReady .submit (rowWithMessage .queued .none)
        pure { counted with activeByBase := j.baseId :: sub.activeByBase }
      | .parked => do
        exec (.job (.park .submit) sub.runId j.jobId)
        pure counted
      | .failed status => do
        exec (.job (.gateFailed status) sub.runId j.jobId)
        pure { counted with concluded := sub.concluded ++ [(j.jobId, status)] }
    mintRequest sub.runId j.jobId j.agentJobId
    pure after

/-- `SUBMIT_JOB_CHUNK_SIZE`. -/
def submitJobChunkSize : Nat := 250

/-- `submit_run_chunk`: the next slice of a submission. -/
def submitChunk (r : RunId) : Cmd Unit := do
  match ← Tx.select fun s : Db => s.submits.get r with
  | none => Tx.abort .notFound
  | some sub =>
    if sub.remaining.isEmpty then Tx.abort .conflict
    else
      let after ← (sub.remaining.take submitJobChunkSize).foldlM
        (submitOne b promoteNext fuel) sub
      checkForeignKeys r
      exec (.keepSubmit { after with remaining := sub.remaining.drop submitJobChunkSize })

/-- The run side of `submit_run_finalize`: summarize, and close a run that
    concluded while it was submitted. -/
def acceptRun (sub : Submit) (sweepSettled : Bool) : Cmd Unit := do
  let summary ← summarizeRunRow (.finalize sweepSettled) sub.runId
  if summary.isTerminal then
    releaseConcurrencyForRun promoteNext .concluded sub.runId
    exec (.run .clearGroup sub.runId)
  let status : ExecutionStatus :=
    if summary.isTerminal then summary else if sub.held then .pending else .queued
  exec (.run .accept sub.runId)
  exec (.emit ⟨sub.namespaceId, sub.runId, .runCreated, none, some status⟩)
  if summary.isTerminal && !sweepSettled then
    exec (.emit ⟨sub.namespaceId, sub.runId, .runCompleted, none, some status⟩)

/-- `submit_run_finalize`. -/
def submitFinalize (r : RunId) : Cmd Unit := do
  match ← Tx.select fun s : Db => s.submits.get r with
  | none => Tx.abort .notFound
  | some sub =>
    if !sub.remaining.isEmpty then Tx.abort .conflict
    else
      exec (.refreshRunRemainingNeeds r)
      sub.jobOutputs.forM fun (j, outputs) =>
        if outputs.isEmpty then pure () else exec (.job (.setOutputs outputs) r j)
      let outcome ← promoteRun b promoteNext fuel fuel r
      let sweepSettled ← Tx.select fun s : Db =>
        (outcome.skipped ++ outcome.failed).any fun j => (s.job r j).isSome
      acceptRun promoteNext sub sweepSettled
      exec (.endSubmit r)

/-- `poison_partial_submit`: what a submission that failed after its head leaves
    behind. The job rows inserted so far are not touched. -/
def poisonPartialSubmit (r : RunId) : Cmd Unit := do
  match ← Tx.select fun s : Db => s.submits.get r with
  | none => Tx.abort .notFound
  | some sub =>
    releaseConcurrencyForRun promoteNext .poisoned r
    exec (.run .clearGroup r)
    exec (.run .poison r)
    exec (.emit ⟨sub.namespaceId, r, .runCompleted, none, none⟩)
    exec (.endSubmit r)

end Phases

end Preloop
