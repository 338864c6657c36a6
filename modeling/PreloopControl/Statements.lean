import PreloopControl.Logic

/-!
# The Statement Vocabulary

Every write the scheduler makes, one constructor for each SQL statement of
`control/lite`. A statement that appears at several places of the program with
the same text carries the place as an argument, since what is known about the
rows it meets depends on where it stands.

Two kinds of statement on a job row must be told apart. Some carry their
condition in the `WHERE` clause (`finish_job_row` never touches a settled row);
the others are unconditional on the row named by its key. `JobWrite.guard` is
that difference.

## Main definitions

* `JobWrite`, `RunWrite`: Writes to one job row and to one run row.
* `Stmt`: All statements.
* `Stmt.apply`: What a statement does, or the constraint it violates.

## Theorems

* `JobWrite.write_key`, `RunWrite.write_key`: Writes keep the primary key.
-/

namespace Preloop

open Txn

/-- Where `finish_job_row` is called. -/
inductive FinishSite
  | settleNode
  | failFast
  | cancelJob
  | failJobset
deriving DecidableEq, Repr

/-- Where `enqueue_ready` is called. -/
inductive ReadySite
  | promoteNext
  | sweep
  | submit
  | rerun
deriving DecidableEq, Repr

/-- Where a job row is parked as `held`. -/
inductive ParkSite
  | sweepJobset
  | sweepEnvironment
  | sweepGate
  | submit
  | rerun
deriving DecidableEq, Repr

/-- Where a held job row goes back to `blocked`. -/
inductive UnparkSite
  | promoteRun
  | promoteJobset
  | releaseParked
deriving DecidableEq, Repr

/-- Where a node is routed to expansion. -/
inductive DeferSite
  | caller
  | matrix
deriving DecidableEq, Repr

/-- Where an environment gate is written. -/
inductive GateSite
  | sweep
  | parked
  | stamp
  | review
deriving DecidableEq, Repr

/-- A write to one row of `jobs` (or of the tables that share its key). -/
inductive JobWrite
  | finish (site : FinishSite) (status : ExecutionStatus)
  | bumpGeneration
  | enqueueReady (site : ReadySite)
  | park (site : ParkSite)
  | unpark (site : UnparkSite)
  | deferExpansion (site : DeferSite)
  | leaseExpansion
  | claim (runnerId : Option Nat)
  | requeue
  | starve
  | gateFailed (status : ExecutionStatus)
  | expandedMatrix
  | startCaller
  | fold (status : ExecutionStatus) (outputs : Option Outputs)
  | restartCaller
  | reset (status : ExecutionStatus) (queueState : QueueState) (needs : Nat)
      (gate : Option EnvironmentGateState)
  | resetConcluded (status : ExecutionStatus)
  | setGate (site : GateSite) (gate : Option EnvironmentGateState)
  | setOutputs (outputs : Outputs)
  | setRunsOn (runsOn : List String)
  | setMessage (message : Message)
  | setTemplate (message : Message) (conditionContext : Json)
  | setConditionContext (conditionContext : Json)
  | setReusableMeta (info : ReusableMeta)
deriving DecidableEq, Repr

/-- The part of the `WHERE` clause beyond the key. -/
def JobWrite.guard : JobWrite → Job → Bool
  | .finish _ _, j => !j.status.isTerminal
  | .unpark .promoteJobset, j => j.queueState = .held
  | .unpark .releaseParked, j => j.queueState = .held
  | .leaseExpansion, j => j.queueState = .pendingExpansion
  | .claim _, j => j.queueState = .ready
  | .starve, j => j.queueState = .ready
  | _, _ => true

/-- The `SET` clause. -/
def JobWrite.write : JobWrite → Job → Job
  | .finish _ st, j => { j with status := st, queueState := .none, claimedBy := none }
  | .bumpGeneration, j => { j with expandGeneration := j.expandGeneration + 1 }
  | .enqueueReady _, j => { j with status := .queued, queueState := .ready }
  | .park _, j => { j with status := .pending, queueState := .held }
  | .unpark _, j => { j with status := .queued, queueState := .blocked }
  | .deferExpansion _, j => { j with queueState := .pendingExpansion }
  | .leaseExpansion, j =>
    { j with queueState := .expanding, expandGeneration := j.expandGeneration + 1 }
  | .claim r, j => { j with status := .inProgress, queueState := .claimed, claimedBy := r }
  | .requeue, j => { j with status := .queued, queueState := .ready, claimedBy := none }
  | .starve, j => { j with status := .failure, queueState := .none }
  | .gateFailed st, j => { j with status := st, queueState := .none }
  | .expandedMatrix, j => { j with queueState := .none }
  | .startCaller, j => { j with status := .inProgress, queueState := .none }
  | .fold st o, j => { j with status := st, queueState := .none, outputs := o }
  | .restartCaller, j => { j with status := .inProgress, queueState := .none, outputs := none }
  | .reset st q n g, j =>
    { j with
      status := st, queueState := q, remainingNeeds := n, outputs := none, claimedBy := none
      environmentGate := g }
  | .resetConcluded st, j =>
    { j with
      status := st, queueState := .none, remainingNeeds := 0, outputs := none
      claimedBy := none, environmentGate := none }
  | .setGate _ g, j => { j with environmentGate := g }
  | .setOutputs o, j => { j with outputs := some o }
  | .setRunsOn l, j => { j with runsOn := l }
  | .setMessage m, j => { j with message := some m }
  | .setTemplate m c, j => { j with message := some m, conditionContext := c }
  | .setConditionContext c, j => { j with conditionContext := c }
  | .setReusableMeta m, j => { j with spec := { j.spec with reusableMeta := some m } }

theorem JobWrite.write_key (w : JobWrite) (j : Job) : (w.write j).key = j.key := by
  cases w <;> rfl

/-- A write to one row of `runs`. -/
inductive RunWrite
  | start
  | cancel
  | expireFork
  | clearFork
  | poison
  | arrivalCancelled
  | accept
  | clearGroup
  | setGroup (group : String)
  | rerun (github : Json)
  | setFork (pending : Bool) (requestedAt approvedAt : Option Int)
deriving DecidableEq, Repr

/-- The part of the `WHERE` clause beyond the key. -/
def RunWrite.guard : RunWrite → Run → Bool
  | .start, r => r.status = .queued
  | .cancel, r => r.status ≠ .completed
  | .expireFork, r => r.status ≠ .completed
  | .poison, r => r.status ≠ .completed
  | .accept, r => r.status ≠ .completed
  | _, _ => true

/-- The `SET` clause. -/
def RunWrite.write : RunWrite → Run → Run
  | .start, r => { r with status := .inProgress }
  | .cancel, r => { r with status := .completed, conclusion := some .cancelled }
  | .expireFork, r =>
    { r with forkApprovalPending := false, status := .completed, conclusion := some .failure }
  | .clearFork, r => { r with forkApprovalPending := false }
  | .poison, r => { r with status := .completed, conclusion := some .failure }
  | .arrivalCancelled, r => { r with status := .completed, conclusion := some .cancelled }
  | .accept, r => { r with status := .queued }
  | .clearGroup, r => { r with concurrencyGroup := none }
  | .setGroup g, r => { r with concurrencyGroup := some g }
  | .rerun gh, r =>
    { r with
      attempt := r.attempt + 1, status := .queued, conclusion := none
      concurrencyGroup := none, github := gh }
  | .setFork p q a, r =>
    { r with
      forkApprovalPending := p, forkApprovalRequestedAt := q, forkApprovalApprovedAt := a }

theorem RunWrite.write_key (w : RunWrite) (r : Run) : (w.write r).runId = r.runId := by
  cases w <;> rfl

/-- Where `summarize_run_row` is called. The last step of a submission knows
    whether its sweep already settled a job, and fail-fast whether the summary of
    the settlement before it was terminal. -/
inductive SummarizeSite
  | settleNode
  | settleAgain
  | failFast (concluded : Bool)
  | failJobset
  | cancelJob
  | complete
  | finalize (sweepSettled : Bool)
  | rerun
  | starve
deriving DecidableEq, Repr

/-- Why a run gives back everything it holds and waits for. -/
inductive RunEnd
  | concluded
  | cancelled
  | expired
  | poisoned
  | rerun
deriving DecidableEq, Repr

/-- Where a hold row is released. -/
inductive ReleaseSite
  | stuck
  | displaced
  | job
  | run (why : RunEnd)
  | jobset
deriving DecidableEq, Repr

/-- Where wait rows are removed by holder. -/
inductive UnwaitSite
  | displaced
  | job
deriving DecidableEq, Repr

/-- A write to one row of `job_requests`. -/
inductive RequestWrite
  | settle (status : ExecutionStatus)
  | clearSession
  | retire
  | bind (session : String) (runnerId : Option Nat)
  | expireLease
  | timeout
  | releaseClaim
deriving DecidableEq, Repr

/-- The part of the `WHERE` clause beyond the key; a non-terminal verdict never
    reaches the `result` column. -/
def RequestWrite.guard : RequestWrite → Request → Bool
  | .settle st, q => q.result.isNone && st.isTerminal
  | .expireLease, q => q.result.isNone
  | .releaseClaim, q => q.result.isNone
  | _, _ => true

/-- The `SET` clause. -/
def RequestWrite.write : RequestWrite → Request → Request
  | .settle st, q => { q with result := some st }
  | .clearSession, q => { q with sessionId := none }
  | .retire, q => { q with result := some .cancelled, runnerId := none, sessionId := none }
  | .bind s r, q => { q with sessionId := some s, runnerId := r }
  | .expireLease, q => { q with result := some .failure, sessionId := none }
  | .timeout, q => { q with timeoutTriggered := true }
  | .releaseClaim, q =>
    { q with runnerId := none, sessionId := none, timeoutTriggered := false }

theorem RequestWrite.write_key (w : RequestWrite) (q : Request) :
    (w.write q).requestId = q.requestId := by
  cases w <;> rfl

/-- Program points that write nothing but that a property may speak of. -/
inductive Mark
  /-- `promote_next_in_group` consumed its waiter and granted nothing. -/
  | notGranted (key : GroupKey) (holder : Holder)
  /-- `promote_next_in_group` found no waiter. -/
  | noWaiter (key : GroupKey)
  /-- `acquire` is called for this holder. -/
  | arrives (key : GroupKey) (arrival : Holder)
  /-- `acquire` takes this holder or waiter out of the group, and cancels it if it
      is of another run and not stuck. -/
  | displaces (key : GroupKey) (arrival victim : Holder)
deriving DecidableEq, Repr

/-- A write statement of the scheduler. -/
inductive Stmt
  | job (w : JobWrite) (r : RunId) (j : JobId)
  | run (w : RunWrite) (r : RunId)
  | request (w : RequestWrite) (requestId : Nat)
  | insertRun (row : Run)
  | insertJob (row : Job)
  | insertMatrixParent (row : Job)
  | cancelRunJobs (r : RunId)
  | expireRunJobs (r : RunId)
  | refreshRemainingNeeds (r : RunId) (settled : JobId) (base : String)
  | refreshRunRemainingNeeds (r : RunId)
  | resumeExpansions
  | summarize (site : SummarizeSite) (r : RunId)
  | takeHold (key : GroupKey) (displayName : String) (holder : HolderRow)
  | releaseHold (site : ReleaseSite) (key : GroupKey) (holder : HolderRow)
  | dropHold (key : GroupKey)
  | enqueueWait (key : GroupKey) (holder : HolderRow)
  | requeueWait (key : GroupKey) (holder : HolderRow) (waitId : Nat)
  | removeWait (site : UnwaitSite) (key : GroupKey) (holder : HolderRow)
  | removeWaitById (waitId : Nat)
  | deleteRunWaits (why : RunEnd) (r : RunId)
  | deleteJobsetWaits (r : RunId) (jobsetId : Nat)
  | deleteDeadWaits
  | insertJobset (r : RunId) (jobIds : List JobId)
  | insertGate (row : JobSetGate)
  | acquireGate (jobsetId gateIndex : Nat)
  | acquirePromotedGate (jobsetId : Nat) (repository group : String)
  | jobsetReady (jobsetId : Nat)
  | deleteJobset (jobsetId : Nat)
  | deleteRunJobsets (r : RunId)
  | insertAttempt (r : RunId) (j : JobId) (agentJobId : String)
  | settleRunRequests (r : RunId)
  | settleJobRequests (r : RunId) (j : JobId) (status : ExecutionStatus)
  | purgeRequests (r : RunId) (j : JobId)
  | releaseRunnerRequests (runnerId : Nat)
  | queueCancellation (requestId : Nat) (reason : Option String)
  | dropCancellation (requestId : Nat)
  | putSession (row : Session)
  | deleteSession (sessionId : String)
  | deleteRunnerSessions (runnerId : Nat)
  | putRunner (row : Runner)
  | deleteRunner (runnerId : Nat)
  | deleteRun (r : RunId)
  | keepSubmit (row : Submit)
  | endSubmit (r : RunId)
  | keepLease (lease : Lease)
  | endLease (lease : Lease)
  | forgetMemory
  | emit (event : OutboxEvent)
  | mark (m : Mark)
deriving DecidableEq, Repr

/-! ## Queries the statements themselves make -/

namespace Db

/-- A child row names this job as its parent. -/
def hasChildren (s : Db) (j : Job) : Bool :=
  s.jobs.exists? fun c => c.runId = j.runId && c.parentJobId = some j.jobId

/-- An expanded matrix parent is replaced by its legs; every other row counts. -/
def isLeaf (s : Db) (j : Job) : Bool := !(j.kind = .matrixParent && s.hasChildren j)

/-- `run_graph`: the rows that count for a run's status. -/
def runGraph (s : Db) (r : RunId) : List Job :=
  s.jobs.select fun j => j.runId = r && s.isLeaf j

/-- The declared needs of a job that still have an unsettled match. -/
def openNeeds (s : Db) (j : Job) : Nat :=
  (j.needs.filter fun need =>
    s.jobs.exists? fun d =>
      d.runId = j.runId && (d.jobId = need || d.baseId = need) && s.isLeaf d &&
        !d.status.isTerminal).length

/-- The in-flight attempts of a job (`result IS NULL`), newest last. -/
def inFlight (s : Db) (r : RunId) (j : JobId) : List Request :=
  s.requests.selectBy (fun q => q.runId = r && q.jobId = j && q.result.isNone) Request.requestId

/-- The newest in-flight attempt of a job. -/
def liveRequest (s : Db) (r : RunId) (j : JobId) : Option Request := (s.inFlight r j).getLast?

/-- The `jobsets` row of a member set. -/
def findJobset (s : Db) (r : RunId) (jobIds : List JobId) : Option JobSet :=
  (s.jobsets.select fun set => set.runId = r && set.jobIds = jobIds).head?

/-- The run exists and is not completed. -/
def runLive (s : Db) (r : RunId) : Bool := (s.run r).any fun row => row.status ≠ .completed

/-- The run row exists, as a foreign key demands. -/
def runExists (s : Db) (r : RunId) : Bool := (s.run r).isSome

end Db

/-- `summarize_run_row`: the run row from its leaf jobs. A run whose leaves are
    all settled is completed with their summary, whatever it was before. -/
def Db.summarizeRow (s : Db) (r : RunId) (row : Run) : Run :=
  let statuses := (s.runGraph r).map Job.status
  let summary := summarizeRun statuses
  if summary.isTerminal && !statuses.isEmpty then
    { row with status := .completed, conclusion := some summary }
  else if row.status = .completed then row
  else if summary = .inProgress then { row with status := .inProgress }
  else { row with status := .queued }

theorem Db.summarizeRow_key (s : Db) (r : RunId) (row : Run) :
    (s.summarizeRow r row).runId = row.runId := by
  unfold Db.summarizeRow
  dsimp only
  split
  · rfl
  · split
    · rfl
    · split <;> rfl

/-- Commit an insertion, or report the key it collides with. -/
def inserted {ρ : Type} (t : Option ρ) (put : ρ → Db) : Except ControlError Db :=
  match t with
  | some t => .ok (put t)
  | none => .error .uniqueViolation

/-- What a statement does to the database, or the constraint it violates. -/
def Stmt.apply : Stmt → Db → Except ControlError Db
  | .job w r j, s =>
    .ok { s with
      jobs := s.jobs.updateWhere (fun row => row.key = (r, j) && w.guard row) w.write
            w.write_key }
  | .run w r, s =>
    .ok { s with
      runs := s.runs.updateWhere (fun row => row.runId = r && w.guard row) w.write
            w.write_key }
  | .request w id, s =>
    .ok { s with
      requests := s.requests.updateWhere (fun q => q.requestId = id && w.guard q)
            w.write w.write_key }
  | .insertRun row, s =>
    inserted (s.runs.insert? row) fun t => { s with runs := t, nextRun := row.runId + 1 }
  | .insertJob row, s =>
    if s.runExists row.runId then
      inserted (s.jobs.insert? row) fun t => { s with jobs := t }
    else .error .foreignKey
  | .insertMatrixParent row, s =>
    if s.runExists row.runId then
      match s.jobs.insert? row with
      | some t => .ok { s with jobs := t }
      | none => .ok s
    else .error .foreignKey
  | .cancelRunJobs r, s =>
    .ok { s with
      jobs := s.jobs.updateWhere (fun j => j.runId = r && !j.status.isTerminal)
            (fun j =>
              { j with
                status := .cancelled, queueState := .none, claimedBy := none
                expandGeneration := j.expandGeneration + 1 })
            (fun _ => rfl) }
  | .expireRunJobs r, s =>
    .ok { s with
      jobs := s.jobs.updateWhere (fun j => j.runId = r && !j.status.isTerminal)
            (fun j => { j with status := .failure, queueState := .none, claimedBy := none })
            (fun _ => rfl) }
  | .refreshRemainingNeeds r settled base, s =>
    .ok { s with
      jobs := s.jobs.updateWhere
            (fun j => j.runId = r && j.queueState ≠ .none &&
              (j.needs.contains settled || j.needs.contains base))
            (fun j => { j with remainingNeeds := s.openNeeds j }) (fun _ => rfl) }
  | .refreshRunRemainingNeeds r, s =>
    .ok { s with
      jobs := s.jobs.updateWhere (fun j => j.runId = r && j.queueState ≠ .none)
            (fun j => { j with remainingNeeds := s.openNeeds j }) (fun _ => rfl) }
  | .resumeExpansions, s =>
    .ok { s with
      jobs := s.jobs.updateWhere (fun j => j.queueState = .expanding)
            (fun j => { j with queueState := .pendingExpansion }) (fun _ => rfl) }
  | .summarize _ r, s =>
    .ok { s with
      runs := s.runs.updateWhere (fun row => row.runId = r) (s.summarizeRow r)
            (s.summarizeRow_key r) }
  | .takeHold key display holder, s =>
    if s.runExists holder.runId then
      inserted (s.holds.insert? ⟨key, display, holder⟩) fun t => { s with holds := t }
    else .error .foreignKey
  | .releaseHold _ key holder, s =>
    .ok { s with holds := s.holds.deleteWhere fun h => h.key = key && h.holder = holder }
  | .dropHold key, s =>
    .ok { s with holds := s.holds.deleteWhere fun h => h.key = key }
  | .enqueueWait key holder, s =>
    if s.runExists holder.runId then
      inserted (s.waits.insert? ⟨s.nextWait, key, holder⟩) fun t =>
        { s with waits := t, nextWait := s.nextWait + 1 }
    else .error .foreignKey
  | .requeueWait key holder waitId, s =>
    if s.runExists holder.runId then
      inserted (s.waits.insert? ⟨waitId, key, holder⟩) fun t => { s with waits := t }
    else .error .foreignKey
  | .removeWait _ key holder, s =>
    .ok { s with waits := s.waits.deleteWhere fun w => w.key = key && w.holder = holder }
  | .removeWaitById waitId, s =>
    .ok { s with waits := s.waits.deleteWhere fun w => w.waitId = waitId }
  | .deleteRunWaits _ r, s =>
    .ok { s with waits := s.waits.deleteWhere fun w => w.holder.runId = r }
  | .deleteJobsetWaits _ set, s =>
    .ok { s with
      waits := s.waits.deleteWhere fun w =>
            match w.holder with
            | .jobSet _ id => id = set
            | _ => false }
  | .deleteDeadWaits, s =>
    .ok { s with waits := s.waits.deleteWhere fun w => !s.runLive w.holder.runId }
  | .insertJobset r jobIds, s =>
    match s.findJobset r jobIds with
    | some _ => .ok s
    | none =>
      if s.runExists r then
        inserted (s.jobsets.insert? ⟨s.nextJobset, r, jobIds, false⟩) fun t =>
          { s with jobsets := t, nextJobset := s.nextJobset + 1 }
      else .error .foreignKey
  | .insertGate row, s =>
    match s.gates.insert? row with
    | some t => .ok { s with gates := t }
    | none => .ok s
  | .acquireGate set index, s =>
    .ok { s with
      gates := s.gates.updateWhere
            (fun g => g.jobsetId = set && g.gateIndex = index)
            (fun g => { g with acquired := true }) (fun _ => rfl) }
  | .acquirePromotedGate set repository group, s =>
    .ok { s with
      gates := s.gates.updateWhere
            (fun g => g.jobsetId = set && g.repository = repository && g.group = group)
            (fun g => { g with acquired := true }) (fun _ => rfl) }
  | .jobsetReady set, s =>
    .ok { s with
      jobsets := s.jobsets.updateWhere (fun js => js.jobsetId = set)
            (fun js => { js with ready := true }) (fun _ => rfl) }
  | .deleteJobset set, s =>
    .ok { s with
      jobsets := s.jobsets.deleteWhere fun js => js.jobsetId = set
      gates := s.gates.deleteWhere fun g => g.jobsetId = set }
  | .deleteRunJobsets r, s =>
    .ok { s with
      jobsets := s.jobsets.deleteWhere fun js => js.runId = r
      gates := s.gates.deleteWhere fun g =>
        s.jobsets.exists? fun js => js.jobsetId = g.jobsetId && js.runId = r }
  | .insertAttempt r j agent, s =>
    if (s.inFlight r j).isEmpty && !s.requests.exists? fun q => q.agentJobId = agent then
      inserted (s.requests.insert? ⟨s.nextRequest, r, j, agent, none, none, none, false⟩)
        fun t => { s with requests := t, nextRequest := s.nextRequest + 1 }
    else .error .uniqueViolation
  | .settleRunRequests r, s =>
    .ok { s with
      requests := s.requests.updateWhere (fun q => q.runId = r && q.result.isNone)
            (fun q => { q with result := some .cancelled }) (fun _ => rfl) }
  | .settleJobRequests r j st, s =>
    .ok { s with
      requests := s.requests.updateWhere
            (fun q => q.runId = r && q.jobId = j && q.result.isNone)
            (fun q => { q with result := some st }) (fun _ => rfl) }
  | .purgeRequests r j, s =>
    .ok { s with requests := s.requests.deleteWhere fun q => q.runId = r && q.jobId = j }
  | .releaseRunnerRequests runner, s =>
    .ok { s with
      requests := s.requests.updateWhere
            (fun q => q.result.isNone && (q.runnerId = some runner ||
              s.sessions.exists? fun se =>
                q.sessionId = some se.sessionId && se.runnerId = some runner))
            (fun q => { q with runnerId := none, sessionId := none, timeoutTriggered := false })
            (fun _ => rfl) }
  | .queueCancellation id reason, s =>
    if s.cancellations.any fun c => c.requestId = id then .ok s
    else .ok { s with cancellations := s.cancellations ++ [⟨id, reason⟩] }
  | .dropCancellation id, s =>
    .ok { s with cancellations := s.cancellations.filter fun c => c.requestId ≠ id }
  | .putSession row, s =>
    inserted ((s.sessions.deleteWhere fun se => se.sessionId = row.sessionId).insert? row)
      fun t => { s with sessions := t }
  | .deleteSession id, s =>
    .ok { s with
      sessions := s.sessions.deleteWhere fun se => se.sessionId = id
      requests := s.requests.updateWhere (fun q => q.sessionId = some id && q.result.isNone)
        (fun q => { q with sessionId := none }) (fun _ => rfl) }
  | .deleteRunnerSessions runner, s =>
    .ok { s with sessions := s.sessions.deleteWhere fun se => se.runnerId = some runner }
  | .putRunner row, s =>
    inserted ((s.runners.deleteWhere fun run => run.runnerId = row.runnerId).insert? row)
      fun t => { s with runners := t }
  | .deleteRunner runner, s =>
    .ok { s with runners := s.runners.deleteWhere fun row => row.runnerId = runner }
  | .deleteRun r, s =>
    .ok { s with
      runs := s.runs.deleteWhere fun row => row.runId = r
      jobs := s.jobs.deleteWhere fun j => j.runId = r
      requests := s.requests.deleteWhere fun q => q.runId = r
      holds := s.holds.deleteWhere fun h => h.holder.runId = r
      waits := s.waits.deleteWhere fun w => w.holder.runId = r
      jobsets := s.jobsets.deleteWhere fun js => js.runId = r
      gates := s.gates.deleteWhere fun g =>
        s.jobsets.exists? fun js => js.jobsetId = g.jobsetId && js.runId = r }
  | .keepSubmit row, s =>
    inserted ((s.submits.deleteWhere fun sub => sub.runId = row.runId).insert? row) fun t =>
      { s with submits := t }
  | .endSubmit r, s =>
    .ok { s with submits := s.submits.deleteWhere fun sub => sub.runId = r }
  | .keepLease lease, s => .ok { s with leases := s.leases ++ [lease] }
  | .endLease lease, s => .ok { s with leases := s.leases.filter fun l => l ≠ lease }
  | .forgetMemory, s => .ok { s with submits := Table.empty, leases := [] }
  | .emit event, s => .ok { s with outbox := s.outbox ++ [event] }
  | .mark _, s => .ok s

/-- A control command: a transaction over the database. -/
abbrev Cmd (α : Type) := Tx Db ControlError Stmt α

/-- Issue one statement. -/
def exec (st : Stmt) : Cmd Unit := Tx.issue Stmt.apply st

end Preloop
