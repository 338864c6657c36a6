import PreloopControl.Lib.SortedMap
import PreloopControl.Lib.Text

/-!
# Debug Sessions

`DebugSessionRegistry` (`debug_sessions.rs`) and the handlers in front of it. A
worker whose step failed opens a session and polls it for a verdict; an agent
leases the session and decides. Every handler runs under the server's lock, so a
call is one step.

A worker is named by the agent job its token belongs to. It supplies the run and
the job id of the session it opens itself.

Times are nanoseconds since the epoch. Run ids and agent job ids are the texts
they print as, and the UUID generator is a parameter.

## Main definitions

* `SessionRecord`: A live session.
* `DebugSessionRegistry`: The live sessions and what outlives them.
* `DebugSessionRegistry.openRecord`, `sessionOperation`, `takeVerdict`, `close`:
  The operations on the registry.
* `DebugSessionRegistry.pausedForRequest`: What a request is credited.
* `DebugCall.exec`: The handlers, with what they reply.
-/

namespace Preloop

/-! ## Wire types -/

/-- Where a session is in its lifecycle. -/
inductive SessionState
  | paused
  | attached
  | retrying
  | resumed
  | aborted
  | abandoned
deriving DecidableEq, Repr

namespace SessionState

/-- The session still holds the job open. -/
def isOpen : SessionState → Bool
  | paused | attached | retrying => true
  | resumed | aborted | abandoned => false

/-- The label for logs. -/
def asStr : SessionState → Text
  | paused => "paused".toList
  | attached => "attached".toList
  | retrying => "retrying".toList
  | resumed => "resumed".toList
  | aborted => "aborted".toList
  | abandoned => "abandoned".toList

end SessionState

/-- What the controller told the worker to do. -/
inductive Verdict
  | retry
  | resume
  | abort
deriving DecidableEq, Repr

/-- How much of the failed attempt is undone before a retry. -/
inductive RevertPolicy
  | none
  | untracked
  | all
deriving DecidableEq, Repr

/-- The step that failed. -/
structure FailedStep where
  index : Nat
  total : Nat
  contextName : Text
  displayName : Text
deriving DecidableEq, Repr

/-- One execution of a step. -/
structure AttemptRecord where
  attempt : Nat
  outcome : Text
  exitCode : Option Int
  elapsedMs : Nat
  sourceRevision : Text
deriving DecidableEq, Repr

/-- `DebugSession`: what a controller sees of a session. -/
structure DebugSession where
  sessionId : Text
  runId : Text
  jobId : Text
  jobName : Text
  state : SessionState
  version : Nat
  step : FailedStep
  attempts : List AttemptRecord
  machine : Option Text
  workspace : Option Text
  snapshotCommit : Option Text
  sourceRevision : Text
  controller : Option Text
  createdAtMs : Nat
  pausedSeconds : Nat
deriving DecidableEq, Repr

/-- `OpenSessionRequest`. -/
structure OpenSessionRequest where
  runId : Text
  jobId : Text
  agentJobId : Text
  jobName : Text
  step : FailedStep
  machine : Option Text
  workspace : Option Text
  snapshotCommit : Option Text
  attempts : List AttemptRecord
deriving DecidableEq, Repr

/-- `VerdictResponse`. The checkout credentials the handler adds to a retry do
    not come from the registry. -/
structure VerdictResponse where
  verdict : Option Verdict
  version : Nat
  revert : RevertPolicy
  sourceRevision : Option Text
  retryFromStep : Option Nat
deriving DecidableEq, Repr

/-- `SessionEvent`. -/
structure SessionEvent where
  eventId : Nat
  event : Text
  sessionId : Text
  sessionVersion : Nat
  runId : Text
  jobId : Text
  jobName : Text
  step : Option FailedStep
  logReference : Option Text
  message : Option Text
  capabilities : List Text
deriving DecidableEq, Repr

/-- `SessionLeaseRequest`. -/
structure SessionLeaseRequest where
  controller : Text
deriving DecidableEq, Repr

/-- `SessionLeaseResponse`. -/
structure SessionLeaseResponse where
  leaseId : Text
  controller : Text
  capabilities : List Text
  sessionVersion : Nat
deriving DecidableEq, Repr

/-- `SessionOperation`. -/
inductive SessionOperation
  | retry (revert : RevertPolicy) (sourceRevision : Option Text)
  | retryFrom (stepIndex : Nat) (revert : RevertPolicy) (sourceRevision : Option Text)
  | resume
  | abort
deriving DecidableEq, Repr

/-- `SessionOperationRequest`. -/
structure SessionOperationRequest where
  requestId : Text
  expectedVersion : Nat
  leaseId : Text
  operation : SessionOperation
deriving DecidableEq, Repr

/-- `SessionOperationResponse`. -/
structure SessionOperationResponse where
  requestId : Text
  prevVersion : Nat
  newVersion : Nat
  status : Text
  session : DebugSession
deriving DecidableEq, Repr

/-- `SessionAuditEntry`. -/
structure SessionAuditEntry where
  requestId : Text
  controller : Text
  operation : Text
  status : Text
  prevVersion : Nat
  newVersion : Nat
  timestampMs : Nat
deriving DecidableEq, Repr

/-- `ApiError`: the status of a refused request and its text. -/
inductive ApiError
  | badRequest (message : Text)
  | forbidden (message : Text)
  | notFound (message : Text)
deriving DecidableEq, Repr

/-! ## Bounds -/

/-- `WORKER_LIVENESS_WINDOW`. -/
def workerLivenessWindow : Nat := 90 * 10 ^ 9

/-- `MAX_PAUSE_CREDIT`, in seconds. -/
def maxPauseCredit : Nat := 4 * 60 * 60

/-- `MAX_ARCHIVED_SESSIONS`. -/
def maxArchivedSessions : Nat := 64

/-- `MAX_SESSION_EVENTS`. -/
def maxSessionEvents : Nat := 512

/-- `MAX_SESSION_AUDIT`. -/
def maxSessionAudit : Nat := 512

/-- `MAX_COMPLETED_OPS`. -/
def maxCompletedOps : Nat := 256

/-- `CONTROL_CAPABILITIES`. -/
def controlCapabilities : List Text :=
  ["step.retry".toList, "job.retry_from".toList, "job.continue".toList, "job.abort".toList]

/-- The successor of a `u64`. -/
def nextU64 (n : Nat) : Nat := (n + 1) % 2 ^ 64

/-- Milliseconds since the epoch, as a `u64`. -/
def epochMillis (now : Nat) : Nat := now / 10 ^ 6 % 2 ^ 64

/-- The last `n` elements. -/
def lastN {α : Type} (n : Nat) (l : List α) : List α := l.drop (l.length - n)

/-! ## Records -/

/-- `SessionLease`. -/
structure SessionLease where
  leaseId : Text
  controller : Text
  capabilities : List Text
deriving DecidableEq, Repr

/-- `SessionRecord`. -/
structure SessionRecord where
  session : DebugSession
  requestId : Int
  agentJobId : Text
  pendingVerdict : Option Verdict
  pendingRevert : RevertPolicy
  pendingRevision : Option Text
  pendingRetryFromStep : Option Nat
  pausedSince : Option Nat
  workerSeenAt : Nat
  controllerLease : Option SessionLease
  sessionEvents : List SessionEvent
  sessionAudit : List SessionAuditEntry
  completedOps : SortedMap Text SessionOperationResponse

namespace SessionRecord

/-- `bank_paused`: the open interval is added to the total and closed. -/
def bankPaused (now : Nat) (r : SessionRecord) : SessionRecord :=
  match r.pausedSince with
  | none => r
  | some since =>
    { r with
      pausedSince := none
      session := { r.session with
        pausedSeconds :=
          min (r.session.pausedSeconds + (now - since) / 10 ^ 9) (2 ^ 64 - 1) } }

/-- `paused_total`: what is banked and the open interval, in nanoseconds. -/
def pausedTotal (now : Nat) (r : SessionRecord) : Nat :=
  min (r.session.pausedSeconds * 10 ^ 9 + (r.pausedSince.map fun since => now - since).getD 0)
    (maxPauseCredit * 10 ^ 9)

/-- The record after a look at its verdict. -/
def taken (now : Nat) (r : SessionRecord) : SessionRecord :=
  let seen : SessionRecord :=
    { r with workerSeenAt := now, pendingVerdict := none, pendingRetryFromStep := none }
  if r.pendingVerdict.isSome then seen.bankPaused now else seen

/-- The reference to the log of an attempt. -/
def logReference (r : SessionRecord) (failed : FailedStep) : Text :=
  "preloop://runs/".toList ++ r.session.runId ++ "/jobs/".toList ++ r.session.jobId ++
    "/steps/".toList ++ Nat.toDigits 10 failed.index ++ "/attempts/".toList ++
    Nat.toDigits 10 (max r.session.attempts.length 1)

/-- `push_event`. -/
def pushEvent (event : Text) (step : Option FailedStep) (message : Option Text)
    (r : SessionRecord) : SessionRecord :=
  let pushed : SessionEvent := {
    eventId := (r.sessionEvents.getLast?.map fun last => nextU64 last.eventId).getD 1
    event := event
    sessionId := r.session.sessionId
    sessionVersion := r.session.version
    runId := r.session.runId
    jobId := r.session.jobId
    jobName := r.session.jobName
    step := step
    logReference := step.map r.logReference
    message := message
    capabilities := (r.controllerLease.map SessionLease.capabilities).getD controlCapabilities }
  { r with sessionEvents := lastN maxSessionEvents (r.sessionEvents ++ [pushed]) }

end SessionRecord

/-! ## Operations on a session -/

/-- What an operation decides. -/
structure Decision where
  verdict : Verdict
  retryFromStep : Option Nat
  revert : RevertPolicy
  sourceRevision : Option Text
  event : Text
  status : Text
deriving DecidableEq, Repr

namespace SessionOperation

/-- The capability an operation needs. -/
def requiredCapability : SessionOperation → Text
  | retry _ _ => "step.retry".toList
  | retryFrom _ _ _ => "job.retry_from".toList
  | resume => "job.continue".toList
  | abort => "job.abort".toList

/-- What the worker is told. -/
def verdict : SessionOperation → Verdict
  | retry _ _ | retryFrom _ _ _ => .retry
  | resume => .resume
  | abort => .abort

/-- The decision for a job that failed at `step`. -/
def decision (step : FailedStep) : SessionOperation → Except Text Decision
  | op@(retry revert sourceRevision) =>
    .ok ⟨op.verdict, none, revert, sourceRevision, "retry_requested".toList, "retrying".toList⟩
  | op@(retryFrom stepIndex revert sourceRevision) =>
    if stepIndex > step.index then
      .error ("step ".toList ++ Nat.toDigits 10 stepIndex ++ " is after failed step ".toList ++
        Nat.toDigits 10 step.index)
    else if stepIndex ≥ step.total then
      .error ("step ".toList ++ Nat.toDigits 10 stepIndex ++ " is outside the job's ".toList ++
        Nat.toDigits 10 step.total ++ " steps".toList)
    else
      .ok ⟨op.verdict, some stepIndex, revert, sourceRevision, "retry_from_requested".toList,
        "retrying".toList⟩
  | op@resume =>
    .ok ⟨op.verdict, none, .none, none, "continue_requested".toList, "resuming".toList⟩
  | op@abort =>
    .ok ⟨op.verdict, none, .none, none, "abort_requested".toList, "aborting".toList⟩

end SessionOperation

/-- The state of a session that was told a verdict. -/
def Verdict.sessionState : Verdict → SessionState
  | .retry => .retrying
  | .abort => .aborted
  | .resume => .resumed

namespace SessionRecord

/-- The part of `session_operation` that mutates the record. -/
def applyOperation (now : Nat) (controller : Text) (req : SessionOperationRequest) (d : Decision)
    (r : SessionRecord) : SessionRecord × SessionOperationResponse :=
  let prevVersion := r.session.version
  let decided : SessionRecord := { r with
    pendingVerdict := some d.verdict
    pendingRevert := d.revert
    pendingRevision := d.sourceRevision
    pendingRetryFromStep := d.retryFromStep
    session := { r.session with
      sourceRevision := d.sourceRevision.getD r.session.sourceRevision
      controller := some controller
      version := nextU64 prevVersion
      state := d.verdict.sessionState } }
  let announced :=
    decided.pushEvent d.event none (some ("request_id=".toList ++ req.requestId))
  let response : SessionOperationResponse :=
    ⟨req.requestId, prevVersion, announced.session.version, d.status, announced.session⟩
  let audit : SessionAuditEntry :=
    ⟨req.requestId, controller, d.event, d.status, prevVersion, announced.session.version,
      epochMillis now⟩
  let completed := announced.completedOps.insert req.requestId response
  ({ announced with
      sessionAudit := lastN maxSessionAudit (announced.sessionAudit ++ [audit])
      completedOps := completed.drop (completed.entries.length - maxCompletedOps) },
    response)

/-- The part of `session_operation` after the look at the completed requests. -/
def newOperation (now : Nat) (req : SessionOperationRequest) (r : SessionRecord) :
    Except Text (SessionRecord × SessionOperationResponse) := do
  let some lease := r.controllerLease | .error "session has no active agent lease".toList
  if lease.leaseId ≠ req.leaseId then .error "invalid agent lease".toList
  else if ¬ lease.capabilities.contains req.operation.requiredCapability then
    .error ("controller lease lacks capability `".toList ++ req.operation.requiredCapability ++
      "`".toList)
  else if req.expectedVersion ≠ r.session.version then
    .error ("stale session version: expected ".toList ++ Nat.toDigits 10 req.expectedVersion ++
      ", current ".toList ++ Nat.toDigits 10 r.session.version)
  else
    let d ← req.operation.decision r.session.step
    .ok (r.applyOperation now lease.controller req d)

end SessionRecord

/-! ## Registry -/

/-- What the registry uses from outside: `Uuid::new_v4().simple()`, by the number
    of identifiers drawn so far. -/
structure DebugEnv where
  uuid : Nat → Text

/-- `DebugSessionRegistry`. -/
structure DebugSessionRegistry where
  sessions : SortedMap Text SessionRecord
  eventArchive : SortedMap Text (List SessionEvent)
  sessionAuditArchive : SortedMap Text (List SessionAuditEntry)
  archiveOrder : List Text
  retiredCredit : SortedMap Int Nat
  minted : Nat

/-- `plausible_workspace`. -/
def plausibleWorkspace (path : Text) : Bool :=
  path.head? = some '/' && !path.isEmpty &&
    !path.any fun c => (0 :: "\n\r'\"`$;&|<>()".toList.map Char.toNat).contains c.toNat

/-- What a session starts from: all of it new, or taken from the one it replaces. -/
structure SessionStart where
  sessionId : Text
  version : Nat
  banked : Nat
  sourceRevision : Text
  controllerLease : Option SessionLease
  sessionEvents : List SessionEvent
  sessionAudit : List SessionAuditEntry
  completedOps : SortedMap Text SessionOperationResponse

/-- The error every lookup of a session gives. -/
def noSuchSession (sessionId : Text) : Text := "no such session: ".toList ++ sessionId

namespace DebugSessionRegistry

/-- A new registry. -/
def init : DebugSessionRegistry := ⟨∅, ∅, ∅, [], ∅, 0⟩

/-- The session an open replaces: the first one of the run and the job. -/
def existing (runId jobId : Text) (g : DebugSessionRegistry) : Option (Text × SessionRecord) :=
  g.sessions.entries.find? fun e => e.2.session.runId = runId && e.2.session.jobId = jobId

/-- The start of a session, the replaced one taken out. -/
def start (env : DebugEnv) (runId jobId : Text) (g : DebugSessionRegistry) :
    SessionStart × DebugSessionRegistry :=
  match g.existing runId jobId with
  | some (id, old) =>
    (⟨id, nextU64 old.session.version, old.session.pausedSeconds, old.session.sourceRevision,
        old.controllerLease, old.sessionEvents, old.sessionAudit, old.completedOps⟩,
      { g with sessions := g.sessions.erase id })
  | none =>
    (⟨"dbg_".toList ++ env.uuid g.minted, 1, 0, "original".toList, none, [], [], ∅⟩,
      { g with minted := g.minted + 1 })

/-- The session an open creates. -/
def openedSession (now : Nat) (req : OpenSessionRequest) (s : SessionStart) : DebugSession where
  sessionId := s.sessionId
  runId := req.runId
  jobId := req.jobId
  jobName := req.jobName
  state := .paused
  version := s.version
  step := req.step
  attempts := req.attempts
  machine := req.machine
  workspace := req.workspace.filter plausibleWorkspace
  snapshotCommit := req.snapshotCommit
  sourceRevision := s.sourceRevision
  controller := none
  createdAtMs := epochMillis now
  pausedSeconds := s.banked

/-- The record of a session that was opened. -/
def openedRecord (now : Nat) (requestId : Int) (req : OpenSessionRequest) (s : SessionStart) :
    SessionRecord :=
  let record : SessionRecord := {
    session := openedSession now req s
    requestId := requestId
    agentJobId := req.agentJobId
    pendingVerdict := none
    pendingRevert := .none
    pendingRevision := none
    pendingRetryFromStep := none
    pausedSince := some now
    workerSeenAt := now
    controllerLease := s.controllerLease
    sessionEvents := s.sessionEvents
    sessionAudit := s.sessionAudit
    completedOps := s.completedOps }
  record.pushEvent "step_failed".toList (some req.step) none

/-- `open`. -/
def openRecord (env : DebugEnv) (now : Nat) (requestId : Int) (req : OpenSessionRequest)
    (g : DebugSessionRegistry) : DebugSession × DebugSessionRegistry :=
  let (s, g) := g.start env req.runId req.jobId
  (openedSession now req s,
    { g with sessions := g.sessions.insert s.sessionId (openedRecord now requestId req s) })

/-- `acquire_controller_lease`. -/
def acquireControllerLease (env : DebugEnv) (sessionId : Text) (req : SessionLeaseRequest)
    (g : DebugSessionRegistry) : Except Text SessionLeaseResponse × DebugSessionRegistry :=
  if (Text.trim req.controller).isEmpty then
    (.error "controller must not be empty".toList, g)
  else
    match g.sessions.lookup sessionId with
    | none => (.error (noSuchSession sessionId), g)
    | some record =>
      match record.controllerLease with
      | some existing =>
        if existing.controller = req.controller then
          (.ok ⟨existing.leaseId, existing.controller, existing.capabilities,
            record.session.version⟩, g)
        else
          (.error ("session is already leased by `".toList ++ existing.controller ++
            "`".toList), g)
      | none =>
        let lease : SessionLease :=
          ⟨"lease_".toList ++ env.uuid g.minted, req.controller, controlCapabilities⟩
        let leased :=
          { record with controllerLease := some lease }.pushEvent "agent_attached".toList none
            (some req.controller)
        (.ok ⟨lease.leaseId, lease.controller, lease.capabilities, record.session.version⟩,
          { g with sessions := g.sessions.insert sessionId leased, minted := g.minted + 1 })

/-- `release_controller_lease`. -/
def releaseControllerLease (sessionId leaseId : Text) (g : DebugSessionRegistry) :
    Except Text Unit × DebugSessionRegistry :=
  match g.sessions.lookup sessionId with
  | none => (.error (noSuchSession sessionId), g)
  | some record =>
    if record.controllerLease.all fun lease => lease.leaseId ≠ leaseId then
      (.error "invalid agent lease".toList, g)
    else
      let released :=
        { record with controllerLease := none }.pushEvent "agent_detached".toList none
          (record.controllerLease.map SessionLease.controller)
      (.ok (), { g with sessions := g.sessions.insert sessionId released })

/-- `session_operation`. -/
def sessionOperation (now : Nat) (sessionId : Text) (req : SessionOperationRequest)
    (g : DebugSessionRegistry) : Except Text SessionOperationResponse × DebugSessionRegistry :=
  if (Text.trim req.requestId).isEmpty then
    (.error "request_id must not be empty".toList, g)
  else
    match g.sessions.lookup sessionId with
    | none => (.error (noSuchSession sessionId), g)
    | some record =>
      match record.completedOps.lookup req.requestId with
      | some previous => (.ok previous, g)
      | none =>
        match record.newOperation now req with
        | .error message => (.error message, g)
        | .ok (record', response) =>
          (.ok response, { g with sessions := g.sessions.insert sessionId record' })

/-- `take_verdict`. -/
def takeVerdict (sessionId : Text) (now : Nat) (g : DebugSessionRegistry) :
    Option VerdictResponse × DebugSessionRegistry :=
  match g.sessions.lookup sessionId with
  | none => (none, g)
  | some record =>
    (some ⟨record.pendingVerdict, record.session.version, record.pendingRevert,
        record.pendingRevision, record.pendingRetryFromStep⟩,
      { g with sessions := g.sessions.insert sessionId (record.taken now) })

/-- `bank_credit`. -/
def bankCredit (requestId : Int) (banked : Nat) (g : DebugSessionRegistry) :
    DebugSessionRegistry :=
  if banked = 0 then g
  else
    let credit := (g.retiredCredit.lookup requestId).getD 0
    { g with
      retiredCredit := g.retiredCredit.insert requestId (min (credit + banked) maxPauseCredit) }

/-- Histories past the bound are dropped, oldest first. -/
def evictArchives (g : DebugSessionRegistry) : DebugSessionRegistry :=
  let evicted := g.archiveOrder.take (g.archiveOrder.length - maxArchivedSessions)
  { g with
    archiveOrder := lastN maxArchivedSessions g.archiveOrder
    eventArchive := evicted.foldl SortedMap.erase g.eventArchive
    sessionAuditArchive := evicted.foldl SortedMap.erase g.sessionAuditArchive }

/-- `retire`: what outlives a session that was taken out. -/
def retire (sessionId : Text) (record : SessionRecord) (g : DebugSessionRegistry) :
    DebugSessionRegistry :=
  let g := g.bankCredit record.requestId record.session.pausedSeconds
  evictArchives { g with
    archiveOrder :=
      if (g.eventArchive.lookup sessionId).isNone then g.archiveOrder ++ [sessionId]
      else g.archiveOrder
    eventArchive := g.eventArchive.insert sessionId record.sessionEvents
    sessionAuditArchive := g.sessionAuditArchive.insert sessionId record.sessionAudit }

/-- The record of a session its worker closed. -/
def closedRecord (state : SessionState) (now : Nat) (record : SessionRecord) : SessionRecord :=
  let banked := record.bankPaused now
  { banked with
    session := { banked.session with
      state := state, version := nextU64 banked.session.version } }.pushEvent
    "session_closed".toList none (some state.asStr)

/-- `close`. -/
def close (sessionId : Text) (state : SessionState) (now : Nat) (g : DebugSessionRegistry) :
    DebugSessionRegistry :=
  match g.sessions.lookup sessionId with
  | none => g
  | some record =>
    -- A resumed session with a lease stays, so that its agent can reconnect.
    let retained := state = .resumed && record.controllerLease.isSome
    let closed := closedRecord state now record
    if !state.isOpen && !retained then
      retire sessionId closed { g with sessions := g.sessions.erase sessionId }
    else { g with sessions := g.sessions.insert sessionId closed }

/-- `owner`. -/
def owner (sessionId : Text) (g : DebugSessionRegistry) : Option Text :=
  (g.sessions.lookup sessionId).map SessionRecord.agentJobId

/-- One session taken out with all that is kept about it. -/
def forget (g : DebugSessionRegistry) (sessionId : Text) : DebugSessionRegistry :=
  { g with
    sessions := g.sessions.erase sessionId
    eventArchive := g.eventArchive.erase sessionId
    sessionAuditArchive := g.sessionAuditArchive.erase sessionId
    archiveOrder := g.archiveOrder.filter fun archived => archived ≠ sessionId }

/-- `remove_for_run`. -/
def removeForRun (runId : Text) (g : DebugSessionRegistry) : DebugSessionRegistry :=
  ((g.sessions.entries.filter fun e => e.2.session.runId = runId).map Prod.fst).foldl forget g

/-- The sessions whose worker stopped polling or whose request is over. -/
def abandoned (now : Nat) (activeRequests : List Int) (g : DebugSessionRegistry) : List Text :=
  (g.sessions.entries.filter fun e =>
    now - e.2.workerSeenAt > workerLivenessWindow || !activeRequests.contains e.2.requestId).map
    Prod.fst

/-- One abandoned session taken out. -/
def sweepOne (now : Nat) (g : DebugSessionRegistry) (sessionId : Text) : DebugSessionRegistry :=
  match g.sessions.lookup sessionId with
  | none => g
  | some record =>
    retire sessionId (record.bankPaused now) { g with sessions := g.sessions.erase sessionId }

/-- `sweep_abandoned`. -/
def sweepAbandoned (now : Nat) (activeRequests : List Int) (g : DebugSessionRegistry) :
    List Text × DebugSessionRegistry :=
  let stale := g.abandoned now activeRequests
  let swept := stale.foldl (sweepOne now) g
  (stale, { swept with
    retiredCredit := swept.retiredCredit.filter fun requestId _ =>
      activeRequests.contains requestId })

/-- `paused_for_request`, in nanoseconds. -/
def pausedForRequest (requestId : Int) (now : Nat) (g : DebugSessionRegistry) : Nat :=
  min (((g.sessions.filter fun _ r => r.requestId = requestId).sum fun _ r => r.pausedTotal now) +
      (g.retiredCredit.lookup requestId).getD 0 * 10 ^ 9)
    (maxPauseCredit * 10 ^ 9)

/-- `resolve`: a session id, or what names one session only. -/
def resolve (reference : Text) (g : DebugSessionRegistry) : Option Text :=
  if (g.sessions.lookup reference).isSome || (g.eventArchive.lookup reference).isSome then
    some reference
  else
    match (g.sessions.entries.filter fun e =>
        reference.isPrefixOf e.1 || reference.isPrefixOf e.2.session.runId ||
          e.2.session.jobName = reference).map Prod.fst with
    | [single] => some single
    | _ => none

end DebugSessionRegistry

/-! ## Handlers -/

/-- A request of a worker, named by the agent job of its token, or of an agent; or
    the server's own upkeep. An open carries the uncompleted job request the
    backend found for the agent job. A verdict poll is one look of it. -/
inductive DebugCall
  | openSession (caller : Text) (active : Option Int) (req : OpenSessionRequest)
  | acquireLease (reference : Text) (req : SessionLeaseRequest)
  | releaseLease (reference leaseId : Text)
  | sessionOperation (reference : Text) (req : SessionOperationRequest)
  | pollVerdict (caller sessionId : Text)
  | closeSession (caller sessionId : Text) (state : SessionState)
  | sweepAbandoned (activeRequests : List Int)
  | removeForRun (runId : Text)
deriving DecidableEq, Repr

/-- What a request is answered with. -/
inductive DebugReply
  | refused (error : ApiError)
  | opened (session : DebugSession)
  | leased (response : SessionLeaseResponse)
  | released
  | operated (response : SessionOperationResponse)
  | polled (response : VerdictResponse)
  | closed
  | swept (stale : List Text)
  | removed
deriving DecidableEq, Repr

namespace DebugSessionRegistry

/-- `open_session`. -/
def openSession (env : DebugEnv) (now : Nat) (caller : Text) (active : Option Int)
    (req : OpenSessionRequest) (g : DebugSessionRegistry) : DebugReply × DebugSessionRegistry :=
  if caller ≠ req.agentJobId then
    (.refused (.forbidden "a job may only open a debug session for itself".toList), g)
  else
    match active with
    | none =>
      (.refused (.notFound ("no active job request for agent job ".toList ++ req.agentJobId)), g)
    | some requestId =>
      let (session, g) := g.openRecord env now requestId req
      (.opened session, g)

/-- `owned_session`. -/
def ownedSession (sessionId caller : Text) (g : DebugSessionRegistry) : Bool :=
  g.owner sessionId = some caller

/-- A request of an agent, on the session its reference resolves to. -/
def onResolved (reference : Text) (g : DebugSessionRegistry)
    (f : Text → Except Text DebugReply × DebugSessionRegistry) :
    DebugReply × DebugSessionRegistry :=
  match g.resolve reference with
  | none => (.refused (.notFound ("no session matching: ".toList ++ reference)), g)
  | some id =>
    match f id with
    | (.error message, g) => (.refused (.badRequest message), g)
    | (.ok reply, g) => (reply, g)

/-- A look of `poll_verdict`. -/
def pollVerdict (now : Nat) (caller sessionId : Text) (g : DebugSessionRegistry) :
    DebugReply × DebugSessionRegistry :=
  if !g.ownedSession sessionId caller then
    (.refused (.notFound (noSuchSession sessionId)), g)
  else
    match g.takeVerdict sessionId now with
    | (none, g) => (.refused (.notFound (noSuchSession sessionId)), g)
    | (some response, g) => (.polled response, g)

/-- `close_session`. -/
def closeSession (now : Nat) (caller sessionId : Text) (state : SessionState)
    (g : DebugSessionRegistry) : DebugReply × DebugSessionRegistry :=
  if !g.ownedSession sessionId caller then
    (.refused (.notFound (noSuchSession sessionId)), g)
  else (.closed, g.close sessionId state now)

end DebugSessionRegistry

/-- The request at some time. -/
def DebugCall.exec (env : DebugEnv) (now : Nat) :
    DebugCall → DebugSessionRegistry → DebugReply × DebugSessionRegistry
  | .openSession caller active req, g => g.openSession env now caller active req
  | .acquireLease reference req, g =>
    g.onResolved reference fun id =>
      let (response, g) := g.acquireControllerLease env id req
      (response.map .leased, g)
  | .releaseLease reference leaseId, g =>
    g.onResolved reference fun id =>
      let (response, g) := g.releaseControllerLease id leaseId
      (response.map fun _ => .released, g)
  | .sessionOperation reference req, g =>
    g.onResolved reference fun id =>
      let (response, g) := g.sessionOperation now id req
      (response.map .operated, g)
  | .pollVerdict caller sessionId, g => g.pollVerdict now caller sessionId
  | .closeSession caller sessionId state, g => g.closeSession now caller sessionId state
  | .sweepAbandoned activeRequests, g =>
    let (stale, g) := g.sweepAbandoned now activeRequests
    (.swept stale, g)
  | .removeForRun runId, g => (.removed, g.removeForRun runId)

end Preloop
