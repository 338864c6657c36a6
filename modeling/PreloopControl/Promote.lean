import PreloopControl.Settle

/-!
# Promotion

The sweep that moves blocked jobs forward once their needs are settled
(`control/lite/promote.rs`), and the hand-over of a freed group to its oldest
waiter (`promote_next_in_group` of `control/lite/settle.rs`).

The sweep reads its candidates and the run graph once for each pass and then
works through the list. Settling one candidate may cancel others of the list
through fail-fast, and freeing a group may start another sweep over the same
run; the rows are not read again.

Everything in this development that can call itself does so through
`promoteNextInGroup`, which is where the recursion is bounded. The bound is a
bound on nested hand-overs, sweep passes and subtree depth; a transaction that
exceeds it has no outcome here.

## Main definitions

* `acquireJobGate`, `ensureJobset`, `advanceJobset`: The concurrency gates.
* `hydrateMessage`: Completing a message once its needs are known.
* `promoteRun`: The sweep over one run.
* `promoteNextInGroup`: A freed group goes to its oldest waiter.
-/

namespace Preloop

open Txn

namespace Db

/-- `under_max_parallel`. -/
def underMaxParallel (s : Db) (j : Job) : Bool :=
  match j.spec.maxParallel with
  | none => true
  | some limit =>
    (s.jobs.select fun d => d.runId = j.runId && d.baseId = j.baseId && d.active).length < limit

/-- The rows a pass of the sweep works on, by `job_order`. -/
def candidates (s : Db) (r : RunId) : List Job :=
  s.jobs.selectBy (fun j => j.runId = r && j.queueState = .blocked && j.remainingNeeds = 0)
    Job.jobOrder

/-- `held_jobs_of_run`: the rows only the run's own gate keeps back. -/
def heldJobsOfRun (s : Db) (r : RunId) : List Job :=
  s.jobs.selectBy (fun j => j.runId = r && j.queueState = .held && j.status = .pending &&
    !s.covered r j.jobId) Job.jobOrder

/-- `jobset_parked`: the job's set has a wait row. -/
def jobsetParked (s : Db) (r : RunId) (j : JobId) : Bool :=
  match (s.jobsets.select fun set => set.runId = r && set.jobIds.contains j).head? with
  | none => false
  | some set => s.waits.exists? fun w =>
      match w.holder with
      | .jobSet _ id => id = set.jobsetId
      | _ => false

/-- The next gate a job set has to take. -/
def nextGate (s : Db) (set : Nat) : Option JobSetGate :=
  (s.gates.selectBy (fun g => g.jobsetId = set && !g.acquired) JobSetGate.gateIndex).head?

end Db

/-- `GateOutcome`. -/
inductive GateOutcome
  | proceed
  | parked
  | failed (status : ExecutionStatus)
deriving DecidableEq, Repr

/-- `Advance`. -/
inductive Advance
  | ready
  | blocked
  | fail (status : ExecutionStatus)
deriving DecidableEq, Repr

/-- `SchedulingOutcome` of a sweep, and whether a pass settled anything. -/
structure Outcome where
  settled : Bool
  promoted : Nat
  failed : List JobId
  skipped : List JobId
deriving DecidableEq, Repr

/-- Nothing happened. -/
def Outcome.none : Outcome := ⟨false, 0, [], []⟩

def Outcome.add (a b : Outcome) : Outcome :=
  ⟨a.settled || b.settled, a.promoted + b.promoted, a.failed ++ b.failed, a.skipped ++ b.skipped⟩

/-- `JobSetGateDecl`. -/
structure GateDecl where
  repository : String
  group : String
  displayName : String
  cancelInProgress : Bool
  queue : ConcurrencyQueue
deriving DecidableEq, Repr

/-- `merge_jobset_gate`: two declarations of one key fold into one. -/
def mergeGate (gates : List GateDecl) (decl : GateDecl) : List GateDecl :=
  if gates.any fun g => g.repository = decl.repository && g.group = decl.group then
    gates.map fun g =>
      if g.repository = decl.repository && g.group = decl.group then
        { g with
          cancelInProgress := g.cancelInProgress || decl.cancelInProgress
          queue := if decl.queue = .single then .single else g.queue }
      else g
  else gates ++ [decl]

/-- The concurrency group a job declares, in the context of its run; `none` when
    the expression does not evaluate or names nothing. -/
def jobGroup (ev : Evaluators) (run : Run) (j : Job) (strategy : Json) (raw : Json) :
    Option (String × Bool × ConcurrencyQueue) :=
  (ev.evaluateConcurrency raw
    ⟨.job, run.github, run.vars, run.inputs, some j.spec.matrix, some strategy⟩).filter
    fun (group, _, _) => ev.trim group ≠ ""

/-- One declared gate of a reusable call. -/
def callGate (ev : Evaluators) (run : Run) (j : Job) (scope : ConcurrencyScope) (inputs : Json)
    (raw : Json) : Option GateDecl :=
  match ev.evaluateConcurrency raw
      ⟨scope, run.github, run.vars, inputs, some j.spec.matrix, none⟩ with
  | some (group, cancel, queue) =>
    if ev.trim group = "" then none
    else
      let key := concurrencyKey "" run.repository group
      some ⟨key.repository, key.group, ev.trim group, cancel, queue⟩
  | none => none

/-- The declarations of a call, caller first, folded by key; `none` when one of
    them does not evaluate. -/
def foldGates (gates : List (Option GateDecl)) : Option (List GateDecl) :=
  gates.foldlM (fun acc gate => gate.map (mergeGate acc)) []

/-- `caller_jobset_gates`, in key order. -/
def callerJobsetGates (ev : Evaluators) (run : Run) (j : Job) : Option (List GateDecl) :=
  match j.spec.reusableMeta with
  | none => some []
  | some info =>
    let caller := info.callerConcurrency.toList.map (callGate ev run j .job run.inputs)
    let embedded := info.embeddedConcurrency.toList.map (callGate ev run j .workflow info.inputs)
    (foldGates (caller ++ embedded)).map fun gates => gates.insertionSort fun a b =>
      a.repository < b.repository || (a.repository = b.repository && a.group ≤ b.group)

/-- `enqueue_ready`: unconditional on the row. -/
def enqueueReady (site : ReadySite) (j : Job) : Cmd Unit := do
  exec (.job (.enqueueReady site) j.runId j.jobId)
  emitJob j.namespaceId .jobQueued j.runId j.jobId (some .queued)

/-- The row goes to the expansion queue. -/
def deferExpansion (site : DeferSite) (j : Job) : Cmd Unit := do
  exec (.job (.deferExpansion site) j.runId j.jobId)
  emitJob j.namespaceId .expansionQueued j.runId j.jobId none

/-- What `hydrate_message` computes: the message with its needs filled in, the
    labels, the gate and the environment name. -/
def hydrated (ev : Evaluators) (graph : RunGraph) (j : Job) (message : Message) :
    Message × List String × Option EnvironmentGateState × Option String :=
  let rows := graph.needRows j.needs
  let message := if rows.isEmpty then message else { message with needs := rows }
  let runsOn := if runsOnDeferred j.runsOn then ev.resolveRunsOn j.runsOn message else j.runsOn
  match j.spec.environment.filter ev.resolvesAfterJobBuild with
  | none => (message, runsOn, j.environmentGate, j.spec.environment)
  | some name =>
    -- The name reads `needs.*`; one that cannot be resolved fails the gate below.
    match message.actionsEnvironment.bind fun _ => ev.resolveString name message with
    | some resolved =>
      ({ message with actionsEnvironment := some resolved }, runsOn, j.environmentGate,
        some resolved)
    | none =>
      let gate := j.environmentGate.getD EnvironmentGateState.default
      (message, runsOn, some { gate with unresolvableName := some name }, j.spec.environment)

/-- `hydrate_message`: the job as the rest of the pass sees it, and the name its
    environment gate is evaluated under. -/
def hydrateMessage (ev : Evaluators) (graph : RunGraph) (j : Job) : Cmd (Job × Option String) := do
  match ← Tx.select fun s : Db => (s.job j.runId j.jobId).bind Job.message with
  | none => pure (j, none)
  | some stored =>
    let (message, runsOn, gate, name) := hydrated ev graph j stored
    if runsOnDeferred j.runsOn then exec (.job (.setRunsOn runsOn) j.runId j.jobId)
    exec (.job (.setMessage message) j.runId j.jobId)
    pure ({ j with runsOn := runsOn, environmentGate := gate }, name)

section Sweep

variable (b : Backend) (promoteNext : GroupKey → Option String → Cmd Unit) (fuel : Nat)

/-- `acquire_job_gate`. -/
def acquireJobGate (r : RunId) (j : JobId) : Cmd GateOutcome := do
  match ← Tx.select fun s : Db => s.job r j with
  | none => pure .proceed
  | some job =>
    match job.spec.concurrency with
    | none => pure .proceed
    | some raw =>
      match ← Tx.select fun s : Db => s.run r, job.message with
      | some run, some message =>
        match jobGroup b.eval run job message.strategy raw with
        | none => pure (.failed .failure)
        | some (group, cancel, queue) =>
          let key := concurrencyKey job.namespaceId run.repository group
          match ← acquire (cancelHolder promoteNext fuel) key group (.job r j) cancel queue with
          | .acquired => pure .proceed
          | .parked => pure .parked
          | .arrivalCancelled => pure (.failed .cancelled)
      | _, _ => Tx.abort .backend

/-- The loop of `advance_jobset`: take the next gate until one parks the set. -/
def advanceGates : Nat → Nat → Cmd Advance
  | 0, _ => Tx.abort .outOfFuel
  | n + 1, set => do
    match ← Tx.select fun s : Db => s.nextGate set with
    | none => do
      exec (.jobsetReady set)
      pure .ready
    | some gate =>
      match ← Tx.select fun s : Db => s.jobsets.get set with
      | none => Tx.abort .backend
      | some row =>
        let ns ← Tx.select fun s : Db =>
          (row.jobIds.head?.bind (s.job row.runId)).elim "default" Job.namespaceId
        match ← acquire (cancelHolder promoteNext fuel) ⟨ns, gate.repository, gate.group⟩
            gate.displayName (.jobSet row.runId row.jobIds) gate.cancelInProgress gate.queue with
        | .acquired => do
          exec (.acquireGate set gate.gateIndex)
          advanceGates n set
        | .parked => pure .blocked
        | .arrivalCancelled => pure (.fail .cancelled)

/-- `advance_jobset`, after a promotion granted one of the gates or on arrival. -/
def advanceJobset (set : Nat) (promoted : Option GroupKey) : Cmd Advance := do
  match promoted with
  | some key => exec (.acquirePromotedGate set key.repository key.group)
  | none => pure ()
  advanceGates promoteNext fuel fuel set

/-- `ensure_jobset`: register the caller's set with its gates, then advance. -/
def ensureJobset (j : Job) : Cmd Advance := do
  match ← Tx.select fun s : Db => s.run j.runId with
  | none => Tx.abort .backend
  | some run =>
    match callerJobsetGates b.eval run j with
    | none => pure (.fail .failure)
    | some [] => pure .ready
    | some gates =>
      let set ← jobsetId j.runId [j.jobId]
      gates.zipIdx.forM fun (gate, index) =>
        exec (.insertGate ⟨set, index, gate.repository, gate.group, gate.displayName,
          gate.cancelInProgress, gate.queue, false⟩)
      advanceJobset promoteNext fuel set none

/-- The sweep on a reusable caller whose needs allow it to run. -/
def sweepCaller (j : Job) : Cmd Outcome := do
  let parked ← Tx.select fun s : Db => s.jobsetParked j.runId j.jobId
  let advanced ← if parked then pure .blocked else ensureJobset b promoteNext fuel j
  match advanced with
  | .ready => do
    deferExpansion .caller j
    pure { Outcome.none with settled := true }
  | .blocked => do
    exec (.job (.park .sweepJobset) j.runId j.jobId)
    pure { Outcome.none with settled := true }
  | .fail status => do
    let _ ← settleNode promoteNext j.runId j.jobId status
    pure { Outcome.none with settled := true, failed := [j.jobId] }

/-- Fail a candidate from inside the sweep. -/
def sweepFail (j : Job) (status : ExecutionStatus) : Cmd Outcome := do
  let _ ← settleNode promoteNext j.runId j.jobId status
  pure { Outcome.none with settled := true, failed := [j.jobId] }

/-- The last stage of the sweep on an ordinary job: its own concurrency. -/
def sweepGate (j : Job) : Cmd Outcome := do
  match ← acquireJobGate b promoteNext fuel j.runId j.jobId with
  | .proceed => do
    enqueueReady .sweep j
    pure { Outcome.none with promoted := 1 }
  | .parked => do
    exec (.job (.park .sweepGate) j.runId j.jobId)
    pure Outcome.none
  | .failed status => sweepFail promoteNext j status

/-- The labels of the registered runners, when a pool advertises labels. -/
def Db.runnerLabelSets (s : Db) : List (List String) :=
  if b.poolLabels.isEmpty then [] else s.runners.rows.map Runner.labels

/-- The stage between the environment gate and concurrency: labels nobody can
    serve fail the job. -/
def sweepLabels (platforms : List String) (runnerLabels : List (List String)) (j : Job) :
    Cmd Outcome :=
  if promotionUnsatisfiable b.eval j.runsOn platforms b.poolLabels
      (runnerLabels.any (jobMatchesRunner b.eval j.runsOn)) then
    sweepFail promoteNext j .failure
  else sweepGate b promoteNext fuel j

/-- The sweep on an ordinary job whose needs and max-parallel allow it to run. -/
def sweepJob (repository gitRef : String) (platforms : List String)
    (runnerLabels : List (List String)) (graph : RunGraph) (candidate : Job) : Cmd Outcome := do
  let (j, name) ← hydrateMessage b.eval graph candidate
  match name with
  | none => sweepLabels b promoteNext fuel platforms runnerLabels j
  | some envName =>
    match evaluateEnvironmentGate b.eval (b.lookup repository envName) gitRef envName
        j.environmentGate b.now with
    | (.wait, gate) => do
      exec (.job (.setGate .sweep gate) j.runId j.jobId)
      exec (.job (.park .sweepEnvironment) j.runId j.jobId)
      pure Outcome.none
    | (.failed, gate) => do
      exec (.job (.setGate .sweep gate) j.runId j.jobId)
      sweepFail promoteNext j .failure
    | (.proceed, gate) => do
      if j.environmentGate.isSome || gate.isSome then
        exec (.job (.setGate .sweep gate) j.runId j.jobId)
      sweepLabels b promoteNext fuel platforms runnerLabels { j with environmentGate := gate }

/-- The sweep on one candidate of a pass. -/
def sweepCandidate (repository gitRef : String) (platforms : List String)
    (runnerLabels : List (List String)) (graph : RunGraph) (j : Job) : Cmd Outcome := do
  match dependencyDecision b.eval graph j with
  | .run =>
    if j.spec.reusableCall.isSome then sweepCaller b promoteNext fuel j
    else if j.spec.deferredMatrix.isSome then do
      deferExpansion .matrix j
      pure { Outcome.none with settled := true }
    else do
      let room ← Tx.select fun s : Db => s.underMaxParallel j
      if room then sweepJob b promoteNext fuel repository gitRef platforms runnerLabels graph j
      else pure Outcome.none
  | .skip => do
    let _ ← settleNode promoteNext j.runId j.jobId .skipped
    pure { Outcome.none with settled := true, skipped := [j.jobId] }
  | .error => sweepFail promoteNext j .failure
  | .wait => pure Outcome.none

/-- One pass of the sweep over the candidates read at its start. -/
def sweepPass (r : RunId) (candidates : List Job) : Cmd Outcome := do
  let repository ← Tx.select fun s : Db => (s.run r).elim "" Run.repository
  let gitRef ← Tx.select fun s : Db => (s.run r).elim "" Run.gitRef
  let platforms ← Tx.select Db.platforms
  let runnerLabels ← Tx.select fun s : Db => s.runnerLabelSets b
  let graph ← Tx.select fun s : Db => s.runGraph r
  candidates.foldlM
    (fun acc j => do
      let out ← sweepCandidate b promoteNext fuel repository gitRef platforms runnerLabels graph j
      pure (acc.add out))
    Outcome.none

/-- `promote_run`: pass after pass until one settles nothing. -/
def promoteRun : Nat → RunId → Cmd Outcome
  | 0, _ => Tx.abort .outOfFuel
  | n + 1, r => do
    let candidates ← Tx.select fun s : Db => s.candidates r
    if candidates.isEmpty then pure Outcome.none
    else
      let out ← sweepPass b promoteNext fuel r candidates
      if out.settled then do
        let rest ← promoteRun n r
        pure (out.add rest)
      else pure out

/-! ## Handing a group on -/

/-- The hand-over to a job. -/
def grantJob (key : GroupKey) (display : String) (waitId : Nat) (r : RunId) (j : JobId) :
    Cmd Unit := do
  match ← Tx.select fun s : Db => s.job r j with
  | none => exec (.mark (.notGranted key (.job r j)))
  | some job =>
    if job.status.isTerminal || job.queueState ≠ .held then
      exec (.mark (.notGranted key (.job r j)))
    else
      let room ← Tx.select fun s : Db => s.underMaxParallel job
      if !room then do
        requeueWait key (.job r j) waitId
        exec (.mark (.notGranted key (.job r j)))
      else do
        takeHold key display (.job r j)
        enqueueReady .promoteNext job

/-- The hand-over to a run. Neither a pending fork approval nor an armed
    environment gate of the parked rows is looked at here. -/
def grantRun (key : GroupKey) (display : String) (r : RunId) : Cmd Unit := do
  let held ← Tx.select fun s : Db => s.heldJobsOfRun r
  if held.isEmpty then exec (.mark (.notGranted key (.run r)))
  else do
    takeHold key display (.run r)
    held.forM fun j => exec (.job (.unpark .promoteRun) r j.jobId)
    let _ ← promoteRun b promoteNext fuel fuel r
    exec (.run .start r)

/-- The hand-over to a job set. -/
def grantJobset (key : GroupKey) (display : String) (r : RunId) (jobIds : List JobId) :
    Cmd Unit := do
  match ← Tx.select fun s : Db => s.findJobset r jobIds with
  | none => exec (.mark (.notGranted key (.jobSet r jobIds)))
  | some set => do
    takeHold key display (.jobSet r jobIds)
    match ← advanceJobset promoteNext fuel set.jobsetId (some key) with
    | .blocked => pure ()
    | .fail status => failJobset promoteNext r jobIds status
    | .ready => do
      jobIds.forM fun j => exec (.job (.unpark .promoteJobset) r j)
      let _ ← promoteRun b promoteNext fuel fuel r

/-- The hand-over of a freed group, given the one for groups freed by it. -/
def promoteNextStep (key : GroupKey) (display : Option String) : Cmd Unit := do
  match ← Tx.select fun s : Db => s.firstWaiter key with
  | none => exec (.mark (.noWaiter key))
  | some (waitId, holder) => do
    exec (.removeWaitById waitId)
    let display := display.getD key.group
    match holder with
    | .job r j => grantJob key display waitId r j
    | .run r => grantRun b promoteNext fuel key display r
    | .jobSet r jobIds => grantJobset b promoteNext fuel key display r jobIds

end Sweep

/-- `promote_next_in_group`. -/
def promoteNextInGroup (b : Backend) : Nat → GroupKey → Option String → Cmd Unit
  | 0 => fun _ _ => Tx.abort .outOfFuel
  | fuel + 1 => promoteNextStep b (promoteNextInGroup b fuel) fuel

end Preloop
