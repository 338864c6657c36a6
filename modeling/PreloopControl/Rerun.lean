import PreloopControl.ForkGate

/-!
# Rerun

`rerun_run` (`control/lite/rerun.rs`): a completed run gets a new attempt, the
selected jobs are reset and admitted again through the same chain as at
submission, in one transaction. The attempt limit is checked; the 30-day window
and the history snapshot are not modelled.

The fork approval of the run is not consulted, and a run that concludes on the
spot announces only the rerun.

## Main definitions

* `RerunMode`, `rerunSet`: Which jobs run again.
* `rerunClass`: Where a reset job starts.
* `rerunRun`: The command.
-/

namespace Preloop

open Txn

/-- `RerunMode`. -/
inductive RerunMode
  | all
  | failed
  | job (id : JobId)
deriving DecidableEq, Repr

/-- `RerunJobTemplate`: a message rebuilt for a job that had none. -/
structure RerunTemplate where
  jobId : JobId
  message : Message
  conditionContext : Json
deriving DecidableEq, Repr

/-- `RerunRun`. -/
structure RerunRun where
  runId : RunId
  mode : RerunMode
  triggeringActor : Option String
  workflowConcurrency : Option WorkflowConcurrency
  templates : List RerunTemplate
deriving DecidableEq, Repr

/-! ## Selection -/

/-- The row joins a selection: a need of it is selected, its caller is, or it is
    the caller of a selected row. -/
def joinsRerun (rows : List Job) (set : List JobId) (j : Job) : Bool :=
  (j.needs.any fun need =>
    rows.any fun d => (d.jobId = need || d.baseId = need) && set.contains d.jobId) ||
  (j.parentJobId.any fun parent =>
    set.contains parent && rows.any fun d => d.jobId = parent && d.kind = .reusableCaller) ||
  (j.kind = .reusableCaller &&
    rows.any fun child => child.parentJobId = some j.jobId && set.contains child.jobId)

/-- The selection after `n` rounds of joining. -/
def growRerun (rows matchable : List Job) : Nat → List JobId → List JobId
  | 0, set => set
  | n + 1, set =>
    growRerun rows matchable n
      (set ++ ((matchable.filter fun j => !set.contains j.jobId && joinsRerun rows set j).map
        Job.jobId))

/-- `rerun_set`: expanded matrix parents are not rows to run again; every round
    but the last adds a row, so the number of rows bounds the fixpoint. -/
def rerunSet (mode : RerunMode) (rows : List Job) : Except ControlError (List JobId) :=
  let matchable := rows.filter fun j =>
    !(j.kind = .matrixParent && rows.any fun c => c.parentJobId = some j.jobId)
  let seeds : Except ControlError (List Job) :=
    match mode with
    | .all => .ok matchable
    | .failed =>
      let seeds := matchable.filter fun j => j.status = .failure || j.status = .cancelled
      if seeds.isEmpty then .error .conflict else .ok seeds
    | .job id =>
      let seeds := matchable.filter fun j => j.jobId = id || j.baseId = id
      if seeds.isEmpty then .error .notFound else .ok seeds
  seeds.map fun seeds => growRerun rows matchable rows.length (seeds.map Job.jobId)

/-! ## Classification -/

/-- Where a reset job starts. -/
inductive RerunClass
  | restartCaller
  | concluded (status : ExecutionStatus)
  | reset (status : ExecutionStatus) (queueState : QueueState)
      (gate : Option EnvironmentGateState)
deriving DecidableEq, Repr

/-- The row stands for a subtree that is built later. -/
def Job.placeholder (j : Job) : Bool :=
  j.spec.reusableCall.isSome || j.spec.deferredMatrix.isSome

/-- What the reset loop carries: the slots handed out and whether the workflow
    gate parked the run. -/
structure RerunState where
  run : Run
  rows : List Job
  templates : List RerunTemplate
  held : Bool
  platforms : List String
  runnerLabels : List (List String)
  activeByBase : List String

/-- The `if:` of a job without needs, under the new attempt's context. -/
def rerunCondition (b : Backend) (st : RerunState) (j : Job) : Option Bool :=
  let context := ((st.templates.find? fun t => t.jobId = j.jobId).map
    RerunTemplate.conditionContext).getD j.conditionContext
  b.eval.evalBool j.spec.ifCondition context .success []

/-- The classification of `rerun_run_tx`, in the order of its checks. -/
def rerunClass (b : Backend) (st : RerunState) (j : Job) : RerunClass :=
  if j.spec.reusableCall.isSome && st.rows.any fun c => c.parentJobId = some j.jobId then
    .restartCaller
  else
    let condition := if j.needs.isEmpty then rerunCondition b st j else some true
    match condition with
    | some false => .concluded .skipped
    | none => .concluded .failure
    | some true =>
      if (unhostablePlatform b.eval j.runsOn st.platforms).isSome then .concluded .failure
      else if !j.placeholder && unschedulable b.eval j.runsOn b.poolLabels
          (st.runnerLabels.any (jobMatchesRunner b.eval j.runsOn)) then .concluded .failure
      else
        let gate := j.spec.environment.bind fun name =>
          (evaluateEnvironmentGate b.eval (b.lookup st.run.repository name) st.run.gitRef name
            none b.now).2
        if st.held || gate.isSome then .reset .pending .held gate
        else if j.placeholder || !j.needs.isEmpty ||
            !(j.spec.maxParallel.all fun limit => st.activeByBase.count j.baseId < limit) then
          .reset (if j.placeholder && j.needs.isEmpty then .pending else .queued) .blocked gate
        else .reset .queued .none gate

/-- `MAX_RUN_ATTEMPT`. -/
def maxRunAttempt : Nat := 51

section Rerun

variable (b : Backend) (promoteNext : GroupKey → Option String → Cmd Unit) (fuel : Nat)

/-- The message of the new attempt: a rebuilt template, or the stored one under a
    fresh identity. `false` when the job has neither and cannot run. -/
def rerunMessage (rerun : RerunRun) (attempt : Nat) (j : Job) : Cmd Bool := do
  match rerun.templates.find? fun t => t.jobId = j.jobId with
  | some template => do
    exec (.job (.setTemplate template.message template.conditionContext) j.runId j.jobId)
    pure true
  | none =>
    let stored ← Tx.select fun s : Db => (s.job j.runId j.jobId).bind Job.message
    let fresh ← Tx.select fun s : Db => b.uuid s.nextRequest
    match stored with
    | some message => do
      exec (.job (.setMessage { message with
        agentJobId := fresh
        contextData := b.eval.patchAttempt message.contextData attempt rerun.triggeringActor })
        j.runId j.jobId)
      exec (.job (.setConditionContext
        (b.eval.patchAttempt j.conditionContext attempt rerun.triggeringActor)) j.runId j.jobId)
      pure true
    | none => pure j.placeholder

/-- `mint_attempt`. -/
def mintAttempt (r : RunId) (j : JobId) : Cmd Unit := do
  match ← Tx.select fun s : Db => (s.job r j).bind Job.message with
  | some message => exec (.insertAttempt r j message.agentJobId)
  | none => Tx.abort .backend

/-- The ready path of a reset job: its own concurrency, then the queue. -/
def rerunReady (st : RerunState) (j : Job) : Cmd RerunState := do
  match ← acquireJobGate b promoteNext fuel j.runId j.jobId with
  | .proceed => do
    enqueueReady .rerun j
    pure { st with activeByBase := j.baseId :: st.activeByBase }
  | .parked => do
    exec (.job (.park .rerun) j.runId j.jobId)
    pure st
  | .failed status => do
    exec (.job (.gateFailed status) j.runId j.jobId)
    pure st

/-- One selected row. -/
def rerunOne (rerun : RerunRun) (st : RerunState) (j : Job) : Cmd RerunState := do
  match rerunClass b st j with
  | .restartCaller => do
    exec (.job .restartCaller j.runId j.jobId)
    pure st
  | .concluded status => do
    exec (.job (.resetConcluded status) j.runId j.jobId)
    pure st
  | .reset status queueState gate => do
    exec (.job (.reset status queueState j.needs.length gate) j.runId j.jobId)
    let runnable ← rerunMessage b rerun (st.run.attempt + 1) j
    if !runnable then do
      exec (.job (.resetConcluded .failure) j.runId j.jobId)
      pure st
    else
      let after ←
        if status = .queued && queueState = .none then rerunReady b promoteNext fuel st j
        else pure st
      if !j.placeholder then mintAttempt j.runId j.jobId
      pure after

/-- `arrival_cancelled`. -/
def rerunCancelled (r : RunId) (selected : List Job) : Cmd Unit := do
  selected.forM fun j => exec (.job (.resetConcluded .cancelled) r j.jobId)
  exec (.run .arrivalCancelled r)
  emitRun .runRerun r (some .cancelled)
  emitRun .runCompleted r (some .cancelled)

/-- The part of `rerun_run_tx` after the workflow gate. -/
def rerunAdmit (rerun : RerunRun) (run : Run) (rows selected : List Job) (held : Bool) :
    Cmd Unit := do
  let platforms ← Tx.select Db.platforms
  let runnerLabels ← Tx.select fun s : Db => s.runnerLabelSets b
  let _ ← selected.foldlM (rerunOne b promoteNext fuel rerun)
    ⟨run, rows, rerun.templates, held, platforms, runnerLabels, []⟩
  exec (.refreshRunRemainingNeeds run.runId)
  let _ ← promoteRun b promoteNext fuel fuel run.runId
  let summary ← summarizeRunRow .rerun run.runId
  if summary.isTerminal then
    releaseConcurrencyForRun promoteNext .concluded run.runId
    exec (.run .clearGroup run.runId)
  emitRun .runRerun run.runId (some (if summary.isTerminal then summary
    else if held then .pending else .queued))

/-- `rerun_run`. -/
def rerunRun (rerun : RerunRun) : Cmd Unit := do
  let r := rerun.runId
  match ← Tx.select fun s : Db => s.run r with
  | none => Tx.abort .notFound
  | some run =>
    -- the run has to be settled, and the attempts are bounded
    if run.status ≠ .completed || maxRunAttempt < run.attempt + 1 then Tx.abort .conflict
    else
      let rows ← Tx.select fun s : Db => s.jobs.selectBy (fun j => j.runId = r) Job.jobOrder
      if rows.isEmpty then Tx.abort .backend
      else
        match rerunSet rerun.mode rows with
        | .error e => Tx.abort e
        | .ok set =>
          let selected := rows.filter fun j => set.contains j.jobId
          -- every job of the run is taken out of its waits before the selected ones start again
          exec (.run (.rerun (b.eval.patchAttempt run.github (run.attempt + 1)
            rerun.triggeringActor)) r)
          exec (.deleteRunWaits .rerun r)
          exec (.deleteRunJobsets r)
          selected.forM fun j =>
            exec (.settleJobRequests r j.jobId
              (if j.status.isTerminal then j.status else .cancelled))
          match rerun.workflowConcurrency with
          | none => rerunAdmit b promoteNext fuel rerun run rows selected false
          | some wf =>
            let key := concurrencyKey run.namespaceId run.repository wf.group
            match ← acquire (cancelHolder promoteNext fuel) key wf.group (.run r)
                wf.cancelInProgress wf.queue with
            | .arrivalCancelled => rerunCancelled r selected
            | .acquired => do
              exec (.run (.setGroup wf.group) r)
              rerunAdmit b promoteNext fuel rerun run rows selected false
            | .parked => do
              exec (.run (.setGroup wf.group) r)
              rerunAdmit b promoteNext fuel rerun run rows selected true

end Rerun

end Preloop
