import PreloopControl.Lib.Table
import PreloopControl.Lib.Transaction

/-!
# The Control Database

The tables of the control schema that the scheduler reads and writes
(`control/lite/schema.sql`), as keyed tables of typed rows.

`job_specs`, `job_needs` and `job_messages` share the primary key of `jobs` and
are written together with it, so their columns are fields of the job row here;
likewise `run_submissions` is part of the run row. JSON columns that only pass
through to an expression evaluator stay text. Clock columns that no decision
reads, and the dispatch-intent tables (`job_assignments`,
`provision_requests`), are left out.

Run ids are UUIDs in the program: nothing depends on their shape, and a new run
never reuses one. They are numbers here, handed out by `nextRun`.

A submission runs as several transactions, and so does an expansion. What the
node keeps in memory between them is the table `submits` and the list `leases`:
they are not stored by the program, but other commands may run between two
phases, so they are part of the state here.

## Main definitions

* `ExecutionStatus`, `QueueState`, `RunStatus`: The columns of the state
  machines.
* `Run`, `Job`, `Request`, `Hold`, `Wait`, `JobSet`, `JobSetGate`: The rows.
* `Holder`, `HolderRow`: Who holds or waits for a group, decoded and stored.
* `SubmitJob`, `Submit`: A submitted job, and a submission between its phases.
* `Db`: The database.
-/

namespace Preloop

open Txn

abbrev RunId := Nat

abbrev JobId := String

/-- JSON text that only an expression evaluator looks into. -/
abbrev Json := String

/-- `ExecutionStatus`: the status of a job, and the summary of a run. -/
inductive ExecutionStatus
  | queued
  | pending
  | inProgress
  | success
  | failure
  | skipped
  | cancelled
deriving DecidableEq, Repr

/-- `ExecutionStatus::is_terminal`. -/
def ExecutionStatus.isTerminal : ExecutionStatus → Bool
  | .success | .failure | .skipped | .cancelled => true
  | .queued | .pending | .inProgress => false

/-- `jobs.queue_state`: the dispatch copy of a job's position. -/
inductive QueueState
  | none
  | blocked
  | held
  | ready
  | claimed
  | pendingExpansion
  | expanding
deriving DecidableEq, Repr

/-- `runs.status`. -/
inductive RunStatus
  | queued
  | inProgress
  | completed
deriving DecidableEq, Repr

/-- `jobs.kind`. -/
inductive JobKind
  | job
  | matrixParent
  | matrixLeg
  | reusableCaller
deriving DecidableEq, Repr

/-- `ConcurrencyQueue`: how an arrival joins a contended group. -/
inductive ConcurrencyQueue
  | single
  | max
deriving DecidableEq, Repr

/-- Where a concurrency expression is declared, which fixes its context. -/
inductive ConcurrencyScope
  | workflow
  | job
deriving DecidableEq, Repr

/-- `EventOrder`: the subject and the second GitHub stamped on an event. -/
structure EventOrder where
  scope : String
  «at» : Int
deriving DecidableEq, Repr

/-- `EventOrder::is_older_than`: ties and different subjects are not ordered. -/
def EventOrder.isOlderThan (a b : EventOrder) : Bool := a.scope == b.scope && a.at < b.at

/-- `EnvironmentApprovalRecord`, without the audit note. -/
structure EnvironmentApproval where
  atUnixNanos : Int
  actor : Option String
deriving DecidableEq, Repr

/-- `EnvironmentGateState`: progress of a job's environment protection gate. -/
structure EnvironmentGateState where
  environmentName : Option String
  waitUntil : Option Int
  approvalRequestedAt : Option Int
  approvals : List EnvironmentApproval
  approvalsRequired : Option Nat
  rejectedBy : Option String
  rejectedAt : Option Int
  unresolvableName : Option String
deriving DecidableEq, Repr

/-- `EnvironmentGateState::default`. -/
def EnvironmentGateState.default : EnvironmentGateState :=
  ⟨none, none, none, [], none, none, none, none⟩

/-- `ReusableCallMetadata`: what a reusable-workflow caller carries about its
    call and, once expanded, the jobs of its callee. -/
structure ReusableMeta where
  callerConcurrency : Option Json
  embeddedConcurrency : Option Json
  inputs : Json
  innerJobIds : List JobId
  outputDefinitions : List (String × String)
deriving DecidableEq, Repr

abbrev Outputs := List (String × Json)

/-- One entry of a message's `needs` context. -/
structure NeedRow where
  jobId : JobId
  status : ExecutionStatus
  outputs : Outputs
deriving DecidableEq, Repr

/-- The stored runner message: the parts scheduling reads back. -/
structure Message where
  agentJobId : String
  contextData : Json
  strategy : Json
  needs : List NeedRow
  actionsEnvironment : Option String
deriving DecidableEq, Repr

/-- The immutable part of a job (`job_specs`). The column `reusable_call` is an
    envelope for three things: the call of a caller, the metadata of a call, and
    the plan a node is rebuilt from. -/
structure Spec where
  ifCondition : Option String
  matrix : Json
  deferredMatrix : Option String
  maxParallel : Option Nat
  environment : Option String
  concurrency : Option Json
  reusableCall : Option String
  reusableMeta : Option ReusableMeta
  hasPlan : Bool
  failFast : Option Bool
  continueOnError : Option Bool
deriving DecidableEq, Repr

/-- `TrustTier`: where a submission comes from. -/
inductive TrustTier
  | trusted
  | internal
  | internalPullRequest
  | untrustedForkPullRequest
  | pullRequestTarget
  | adminManual
  | appDispatch
  | deployment
  | schedule
  | untrusted
deriving DecidableEq, Repr

/-- A row of `runs` with its `run_submissions`. -/
structure Run where
  runId : RunId
  namespaceId : String
  repository : String
  workflowPath : String
  gitRef : String
  attempt : Nat
  status : RunStatus
  conclusion : Option ExecutionStatus
  webhookDeliveryId : Option String
  concurrencyGroup : Option String
  forkApprovalPending : Bool
  forkApprovalRequestedAt : Option Int
  forkApprovalApprovedAt : Option Int
  eventOrder : Option EventOrder
  trustTier : Option TrustTier
  github : Json
  vars : Json
  inputs : Json
deriving DecidableEq, Repr

/-- A row of `jobs` with its `job_specs`, `job_needs` and `job_messages`. -/
structure Job where
  runId : RunId
  jobId : JobId
  namespaceId : String
  kind : JobKind
  parentJobId : Option JobId
  baseId : String
  status : ExecutionStatus
  queueState : QueueState
  remainingNeeds : Nat
  runsOn : List String
  jobOrder : Nat
  expandGeneration : Nat
  claimedBy : Option Nat
  outputs : Option Outputs
  environmentGate : Option EnvironmentGateState
  spec : Spec
  needs : List JobId
  message : Option Message
  conditionContext : Json
deriving DecidableEq, Repr

/-- A row of `job_requests`: one attempt at running a job. -/
structure Request where
  requestId : Nat
  runId : RunId
  jobId : JobId
  agentJobId : String
  runnerId : Option Nat
  sessionId : Option String
  result : Option ExecutionStatus
  timeoutTriggered : Bool
deriving DecidableEq, Repr

/-- A row of `runners`. -/
structure Runner where
  runnerId : Nat
  labels : List String
deriving DecidableEq, Repr

/-- A row of `runner_sessions`. -/
structure Session where
  sessionId : String
  runnerId : Option Nat
deriving DecidableEq, Repr

/-- The key of a concurrency group: `(namespace, repository, group_name)`. -/
structure GroupKey where
  namespaceId : String
  repository : String
  group : String
deriving DecidableEq, Repr

/-- `Holder`: a workflow run, one job, or the job set of a reusable call. -/
inductive Holder
  | run (runId : RunId)
  | job (runId : RunId) (jobId : JobId)
  | jobSet (runId : RunId) (jobIds : List JobId)
deriving DecidableEq, Repr

/-- `Holder::run_id`. -/
def Holder.runId : Holder → RunId
  | .run r => r
  | .job r _ => r
  | .jobSet r _ => r

/-- `HolderColumns`: a holder as the holds and waits tables store it. -/
inductive HolderRow
  | run (runId : RunId)
  | job (runId : RunId) (jobId : JobId)
  | jobSet (runId : RunId) (jobsetId : Nat)
deriving DecidableEq, Repr

/-- The `holder_run_id` column. -/
def HolderRow.runId : HolderRow → RunId
  | .run r => r
  | .job r _ => r
  | .jobSet r _ => r

/-- A row of `concurrency_holds`. -/
structure Hold where
  key : GroupKey
  displayName : String
  holder : HolderRow
deriving DecidableEq, Repr

/-- A row of `concurrency_waits`. -/
structure Wait where
  waitId : Nat
  key : GroupKey
  holder : HolderRow
deriving DecidableEq, Repr

/-- A row of `jobsets`. -/
structure JobSet where
  jobsetId : Nat
  runId : RunId
  jobIds : List JobId
  ready : Bool
deriving DecidableEq, Repr

/-- A row of `jobset_gates`. -/
structure JobSetGate where
  jobsetId : Nat
  gateIndex : Nat
  repository : String
  group : String
  displayName : String
  cancelInProgress : Bool
  queue : ConcurrencyQueue
  acquired : Bool
deriving DecidableEq, Repr

/-- The topics the scheduler writes to `outbox_events`. -/
inductive Topic
  | runCreated
  | runRerun
  | runCompleted
  | jobQueued
  | jobCompleted
  | expansionQueued
deriving DecidableEq, Repr

/-- A row of `outbox_events`. -/
structure OutboxEvent where
  namespaceId : String
  runId : RunId
  topic : Topic
  jobId : Option JobId
  status : Option ExecutionStatus
deriving DecidableEq, Repr

/-- A row of `job_cancellations` that has not been delivered. -/
structure Cancellation where
  requestId : Nat
  reason : Option String
deriving DecidableEq, Repr

/-- `SubmitJob`: one job of a submission or of an expanded node. -/
structure SubmitJob where
  jobId : JobId
  baseId : String
  needs : List JobId
  runsOn : List String
  environmentGate : Option EnvironmentGateState
  spec : Spec
  message : Message
  conditionContext : Json
  /-- The attempt to mint; a caller placeholder owns none. -/
  agentJobId : Option String
  initiallySkipped : Bool
deriving DecidableEq, Repr

/-- `SubmitProceed` with the `SubmitChunks` accumulated so far and the jobs that
    are still to be inserted. -/
structure Submit where
  runId : RunId
  namespaceId : String
  forkApprovalPending : Bool
  checkHostable : Bool
  held : Bool
  platforms : List String
  poolLabels : List String
  runnerLabels : List (List String)
  jobOutputs : List (JobId × Outputs)
  activeByBase : List String
  concluded : List (JobId × ExecutionStatus)
  inserted : Nat
  queued : Nat
  remaining : List SubmitJob
deriving DecidableEq, Repr

/-- A node leased to a builder: `ExpansionClaim`, as far as its build is applied
    under it. -/
structure Lease where
  runId : RunId
  jobId : JobId
  generation : Nat
deriving DecidableEq, Repr

def Job.key (j : Job) : RunId × JobId := (j.runId, j.jobId)

def JobSetGate.key (g : JobSetGate) : Nat × Nat := (g.jobsetId, g.gateIndex)

/-- The database: tables with their primary keys, the outbox and the id
    counters. -/
structure Db where
  runs : Table Run.runId
  jobs : Table Job.key
  requests : Table Request.requestId
  sessions : Table Session.sessionId
  holds : Table Hold.key
  waits : Table Wait.waitId
  jobsets : Table JobSet.jobsetId
  gates : Table JobSetGate.key
  runners : Table Runner.runnerId
  submits : Table Submit.runId
  leases : List Lease
  cancellations : List Cancellation
  outbox : List OutboxEvent
  nextRun : Nat
  nextRequest : Nat
  nextWait : Nat
  nextJobset : Nat

/-- A database in which nothing was ever submitted. -/
def Db.init : Db where
  runs := Table.empty
  jobs := Table.empty
  requests := Table.empty
  sessions := Table.empty
  holds := Table.empty
  waits := Table.empty
  jobsets := Table.empty
  gates := Table.empty
  runners := Table.empty
  submits := Table.empty
  leases := []
  cancellations := []
  outbox := []
  nextRun := 0
  nextRequest := 0
  nextWait := 0
  nextJobset := 0

/-- Why a transaction is rolled back. -/
inductive ControlError
  /-- A primary key or unique index is already taken. -/
  | uniqueViolation
  /-- A foreign key points nowhere. -/
  | foreignKey
  /-- A row the command names does not exist. -/
  | notFound
  /-- The caller does not own the row. -/
  | forbidden
  /-- The command does not apply to the row's state. -/
  | conflict
  /-- A stored document cannot be decoded, or admission refused. -/
  | backend
  /-- The bound on loop iterations of the model ran out; the program would not
      have returned. -/
  | outOfFuel
deriving DecidableEq, Repr

namespace Db

/-- The job row under its identity (`jobs::job`). -/
def job (s : Db) (r : RunId) (j : JobId) : Option Job := s.jobs.get (r, j)

/-- The run row under its id. -/
def run (s : Db) (r : RunId) : Option Run := s.runs.get r

/-- The run row exists and is completed. -/
def runCompleted (s : Db) (r : RunId) : Bool :=
  (s.run r).any fun row => row.status = .completed

/-- The rows of a run's jobs. -/
def jobsOf (s : Db) (r : RunId) : List Job := s.jobs.select fun j => j.runId = r

end Db

/-- The job is visible to runners or running: ready, claimed or in progress. -/
def Job.active (j : Job) : Bool :=
  j.queueState = .ready || j.queueState = .claimed || j.status = .inProgress

end Preloop
