import PreloopControl.Submit

/-!
# Claims, Completions and Cancellations

The commands of runners and operators on running work (`control/lite/poll.rs`
and `control/lite/dispatch.rs`): a poll that claims a ready job, the two
completion commands, and the cancel commands.

A completion names the attempt it reports on by its agent job id. The attempt's
request row is looked up by that id; the job row is settled by its own id.

## Main definitions

* `pollClaim`: A session takes a ready job.
* `foldCallers`: Reusable callers whose callee jobs are all settled.
* `completeNode`, `completeJob`, `settleJob`: Completion.
-/

namespace Preloop

open Txn

/-- `claim_one` and `bind_claim` on the job the preference chose: the claim
    fence is the condition of the update, and only the queue state is in it. -/
def pollClaim (session : String) (r : RunId) (j : JobId) : Cmd Unit := do
  match ← Tx.select fun s : Db => s.sessions.get session with
  | none => Tx.abort .notFound
  | some row =>
    let busy ← Tx.select fun s : Db =>
      s.requests.exists? fun q => q.sessionId = some session && q.result.isNone
    let ready ← Tx.select fun s : Db => (s.job r j).any fun job => job.queueState = .ready
    if busy || !ready then pure ()
    else
      exec (.job (.claim row.runnerId) r j)
      match ← Tx.select fun s : Db => s.liveRequest r j with
      | none => pure ()
      | some q =>
        exec (.request (.bind session row.runnerId) q.requestId)
        exec (.run .start r)

/-- A completion report; a runner result is one of the four verdicts
    (`execution_status_from_runner_result`). -/
structure Completion where
  runId : RunId
  jobId : JobId
  agentJobId : Option String
  status : ExecutionStatus
  outputs : Outputs
  terminal : status.isTerminal = true
deriving DecidableEq, Repr

/-- The attempt a broker completion names, and the runner that reports it. -/
structure SettleAttempt where
  agentJobId : String
  runnerId : Nat
deriving DecidableEq, Repr

namespace Db

/-- `attempt_request_id`: the attempt named by its agent job id, settled or not;
    without one, the newest in-flight attempt. -/
def attemptRequest (s : Db) (r : RunId) (j : JobId) : Option String → Option Request
  | some agent =>
    (s.requests.select fun q => q.agentJobId = agent && q.runId = r && q.jobId = j).head?
  | none => s.liveRequest r j

/-- `ensure_request_owner`. -/
def ensureRequestOwner (s : Db) (q : Request) (runnerId : Nat) : Except ControlError Unit :=
  match q.runnerId with
  | some owner => if owner = runnerId then .ok () else .error .forbidden
  | none =>
    match q.sessionId.bind s.sessions.get with
    | some session =>
      match session.runnerId with
      | some owner => if owner = runnerId then .ok () else .error .forbidden
      | none => .ok ()
    | none => .error .notFound

end Db

/-- `settle_request_tx`. -/
def settleRequestTx (id : Nat) (result : ExecutionStatus) : Cmd Unit := do
  exec (.dropCancellation id)
  exec (.request .clearSession id)
  exec (.request (.settle result) id)

/-! ## Folding callee subtrees into their callers -/

/-- The callee jobs of a caller, with the caller's prefix dropped. -/
def innerOutputs (graph : RunGraph) (caller : Job) (info : ReusableMeta) :
    List (JobId × Outputs) :=
  info.innerJobIds.map fun id =>
    let pre := caller.jobId ++ "/"
    let name := if pre.isPrefixOf id then (id.drop pre.length).toString else id
    (name, ((graph.find? fun j => j.jobId = id).bind Job.outputs).getD [])

/-- The caller as one pass of `propagate_reusable_outputs` leaves it: with its
    outputs resolved and, unless it is settled, with the aggregate status. -/
def foldCaller (ev : Evaluators) (graph : RunGraph) (j : Job) : Job :=
  match j.spec.reusableMeta with
  | none => j
  | some info =>
    let inner := info.innerJobIds.map fun id => graph.find? fun d => d.jobId = id
    let complete := !inner.isEmpty && inner.all fun d => d.any fun d => d.status.isTerminal
    if j.outputs.isSome || !complete then j
    else
      let outputs := info.outputDefinitions.map fun (name, expr) =>
        (name, ev.resolveOutput expr info.inputs (innerOutputs graph j info))
      if j.status.isTerminal then { j with outputs := some outputs }
      else
        let statuses := inner.filterMap fun d => d.map Job.status
        { j with
          outputs := some outputs
          status := (aggregateNeedStatus statuses).getD .skipped }

/-- `propagate_reusable_outputs`: passes until one finalizes no caller, each in
    the order of the ids. Every pass but the last settles a caller, so the number
    of rows bounds them. -/
def foldPasses (ev : Evaluators) : Nat → RunGraph → List Job
  | 0, _ => []
  | n + 1, graph =>
    let folded := graph.map (foldCaller ev graph)
    let finalized := (folded.filter fun j =>
      j.status.isTerminal && graph.any fun d => d.jobId = j.jobId && !d.status.isTerminal)
        |>.insertionSort fun a b => a.jobId ≤ b.jobId
    if finalized.isEmpty then [] else finalized ++ foldPasses ev n folded

/-- The callers a completion finalizes, with their new status and outputs. -/
def foldCallers (ev : Evaluators) (graph : RunGraph) : List Job :=
  foldPasses ev (graph.length + 1) graph

section Complete

variable (b : Backend) (promoteNext : GroupKey → Option String → Cmd Unit) (fuel : Nat)

/-- One finalized caller. The row is written whatever became of it since the
    graph was read. -/
def finalizeCaller (r : RunId) (caller : Job) : Cmd Unit := do
  exec (.job (.fold caller.status caller.outputs) r caller.jobId)
  settleRequestsForJob r caller.jobId caller.status
  exec (.refreshRemainingNeeds r caller.jobId caller.jobId)
  releaseConcurrencyForJob promoteNext r caller.jobId
  let ns ← Tx.select fun s : Db => s.namespaceOf r
  emitJob ns .jobCompleted r caller.jobId (some caller.status)

/-- `finalize_reusable_callers`. -/
def finalizeReusableCallers (r : RunId) : Cmd Unit := do
  let graph ← Tx.select fun s : Db => s.runGraph r
  (foldCallers b.eval graph).forM (finalizeCaller promoteNext r)

/-- `complete_node`: what was decided, with `replayed` for a report on a job
    that already has a verdict. -/
def completeNode (c : Completion) : Cmd SettleEffects := do
  match ← Tx.select fun s : Db => s.job c.runId c.jobId with
  | none => Tx.abort .backend
  | some job =>
    if job.status.isTerminal && job.status ≠ .cancelled then pure (.unchanged job.status)
    else
      if !c.outputs.isEmpty then exec (.job (.setOutputs c.outputs) c.runId c.jobId)
      let effects ← settleNode promoteNext c.runId c.jobId c.status
      finalizeReusableCallers b promoteNext c.runId
      let summary ← summarizeRunRow .complete c.runId
      if summary.isTerminal then releaseConcurrencyForRun promoteNext .concluded c.runId
      pure effects

/-- `complete_job`: no ownership check, and the sweep runs even for a replay. -/
def completeJob (c : Completion) : Cmd Unit := do
  let known ← Tx.select fun s : Db => s.runExists c.runId
  if !known then Tx.abort .notFound
  else
    match ← Tx.select fun s : Db => s.attemptRequest c.runId c.jobId c.agentJobId with
    | some q => settleRequestTx q.requestId c.status
    | none => pure ()
    let _ ← completeNode b promoteNext c
    let _ ← promoteRun b promoteNext fuel fuel c.runId

/-- The ownership check of a broker completion, and the attempt it settles. -/
def ownedAttempt (c : Completion) (settle : SettleAttempt) : Cmd Request := do
  match ← Tx.select fun s : Db => s.attemptRequest c.runId c.jobId (some settle.agentJobId) with
  | none => Tx.abort .notFound
  | some q =>
    match ← Tx.select fun s : Db => s.ensureRequestOwner q settle.runnerId with
    | .ok () => pure q
    | .error e => Tx.abort e

/-- `settle_job`. -/
def settleJob (c : Completion) (settle : Option SettleAttempt) : Cmd Unit := do
  let known ← Tx.select fun s : Db => s.runExists c.runId
  if !known then Tx.abort .notFound
  else
    let named ← Tx.select fun s : Db => s.attemptRequest c.runId c.jobId c.agentJobId
    let attempt ← match settle with
      | some settle => do
        let q ← ownedAttempt c settle
        pure (some q)
      | none => pure named
    let effects ← completeNode b promoteNext c
    if effects.replayed then pure ()
    else
      match attempt with
      | some q => settleRequestTx q.requestId effects.effectiveStatus
      | none => pure ()
      let _ ← promoteRun b promoteNext fuel fuel c.runId

/-- `cancel_run`. -/
def cancelRun (r : RunId) : Cmd Unit := do
  let known ← Tx.select fun s : Db => s.runExists r
  if !known then Tx.abort .notFound
  else
    let _ ← cancelRunInner promoteNext r

/-- `cancel_job`. -/
def cancelJob (r : RunId) (j : JobId) : Cmd Unit := do
  let _ ← cancelJobInner promoteNext fuel r j

end Complete

end Preloop
