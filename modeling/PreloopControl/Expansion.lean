import PreloopControl.Dispatch

/-!
# Expansion

Deferred matrices and reusable callers are placeholders until their build inputs
are known (`control/lite/expansion.rs`). A node is leased under a generation, the
subtree is built outside any transaction, and the build is folded in if the
generation still matches.

The generation is the whole fence: neither the status nor the queue state of the
node is looked at again, and only the cancel paths bump it.

## Main definitions

* `claimExpansion`: Lease the node.
* `BuiltJob`, `BuiltExpansion`: A built subtree.
* `registerBuiltJobs`, `applyExpansion`: Folding it in.
-/

namespace Preloop

open Txn

/-- `BuiltJob`: a materialized job; only a matrix leg carries an index. -/
structure BuiltJob where
  job : SubmitJob
  matrixIndex : Option Nat
deriving DecidableEq, Repr

/-- `BuiltExpansion`, with the caller's metadata for the callee jobs. -/
inductive BuiltExpansion
  | matrix (jobs : List BuiltJob)
  | reusable (jobs : List BuiltJob) (calls : List (JobId × ReusableMeta))
deriving DecidableEq, Repr

/-- `node_parent`. -/
def BuiltJob.parent (built : BuiltJob) : Option JobId :=
  if built.job.baseId ≠ built.job.jobId && built.matrixIndex.isSome then some built.job.baseId
  else none

/-- The job with the spec envelope expansion writes: its plan is always kept. -/
def BuiltJob.toSubmit (built : BuiltJob) (calls : List (JobId × ReusableMeta)) : SubmitJob :=
  { built.job with
    environmentGate := none
    spec := { built.job.spec with
      hasPlan := true
      reusableMeta := (calls.find? fun call => call.1 = built.job.jobId).map Prod.snd } }

/-- The row standing for the base of materialized legs. -/
def matrixParentRow (r : RunId) (ns : String) (parent : JobId) : Job where
  runId := r
  jobId := parent
  namespaceId := ns
  kind := .matrixParent
  parentJobId := none
  baseId := parent
  status := .pending
  queueState := .none
  remainingNeeds := 0
  runsOn := []
  jobOrder := 0
  expandGeneration := 0
  claimedBy := none
  outputs := none
  environmentGate := none
  spec := ⟨none, "\x7b\x7d", none, none, none, none, none, none, false, none, none⟩
  needs := []
  message := none
  conditionContext := "\x7b\x7d"

/-- A builder answers a lease with the kind of subtree its plan asked for; a call
    without jobs comes back as the empty matrix. -/
def BuiltExpansion.fits (built : BuiltExpansion) (node : Job) : Bool :=
  match built with
  | .matrix [] => true
  | .matrix _ => node.spec.reusableCall.isNone && node.spec.deferredMatrix.isSome
  | .reusable _ _ => node.spec.reusableCall.isSome

/-- `claim_expansion` on the node the queue order chose. -/
def claimExpansion (r : RunId) (j : JobId) : Cmd Unit := do
  match ← Tx.select fun s : Db => s.job r j with
  | none => Tx.abort .notFound
  | some job =>
    if job.queueState ≠ .pendingExpansion then Tx.abort .conflict
    else if job.message.isNone then Tx.abort .backend
    else
      exec (.job .leaseExpansion r j)
      exec (.keepLease ⟨r, j, job.expandGeneration + 1⟩)

section Apply

variable (b : Backend) (promoteNext : GroupKey → Option String → Cmd Unit) (fuel : Nat)

/-- One job of a built subtree. -/
def registerBuiltJob (r : RunId) (ns : String) (platforms : List String) (jobOrder : Nat)
    (calls : List (JobId × ReusableMeta)) (built : BuiltJob) : Cmd Unit := do
  let job := built.toSubmit calls
  if (unhostablePlatform b.eval job.runsOn platforms).isSome then
    exec (.insertJob (job.row r ns built.parent jobOrder .failure .none))
    let _ ← settleNode promoteNext r job.jobId .failure
  else
    exec (.insertJob (job.rowWithMessage r ns built.parent jobOrder .pending .blocked))
    mintRequest r job.jobId job.agentJobId

/-- `register_built_jobs`: the parents the legs refer to, then the jobs. -/
def registerBuiltJobs (r : RunId) (node : Job) (jobs : List BuiltJob)
    (calls : List (JobId × ReusableMeta)) : Cmd Unit := do
  let platforms ← Tx.select Db.platforms
  let ns ← Tx.select fun s : Db => s.namespaceOf r
  (jobs.filterMap BuiltJob.parent).eraseDups.forM fun parent =>
    exec (.insertMatrixParent (matrixParentRow r ns parent))
  jobs.forM (registerBuiltJob b promoteNext r ns platforms node.jobOrder calls)

/-- `splice_matrix_parents`: legs take the place of their parent in the callee
    lists that mention it. -/
def spliceMatrixParents (r : RunId) (node : JobId) (legs : List JobId) : Cmd Unit := do
  let callers ← Tx.select fun s : Db =>
    (s.jobsOf r).filterMap fun j => j.spec.reusableMeta.map fun info => (j.jobId, info)
  callers.forM fun (caller, info) =>
    if info.innerJobIds.contains node then
      let inner := info.innerJobIds.takeWhile (· ≠ node) ++ legs ++
        (info.innerJobIds.dropWhile (· ≠ node)).drop 1
      exec (.job (.setReusableMeta { info with innerJobIds := inner }) r caller)
    else pure ()

/-- `write_reusable_meta`. -/
def writeReusableMeta (r : RunId) (caller : JobId) (inner : List JobId)
    (calls : List (JobId × ReusableMeta)) : Cmd Unit := do
  calls.forM fun (j, info) => exec (.job (.setReusableMeta info) r j)
  match ← Tx.select fun s : Db => (s.job r caller).bind fun row => row.spec.reusableMeta with
  | some info => exec (.job (.setReusableMeta { info with innerJobIds := inner }) r caller)
  | none => pure ()

/-- The fold of a built subtree into the run. -/
def foldExpansion (r : RunId) (node : Job) : Option BuiltExpansion → Cmd Unit
  | none => do
    let _ ← settleNode promoteNext r node.jobId .failure
  | some (.matrix []) => do
    let _ ← settleNode promoteNext r node.jobId .skipped
  | some (.matrix jobs) => do
    registerBuiltJobs b promoteNext r node jobs []
    exec (.job .expandedMatrix r node.jobId)
    spliceMatrixParents r node.jobId (jobs.map fun built => built.job.jobId)
    exec (.purgeRequests r node.jobId)
  | some (.reusable jobs calls) => do
    registerBuiltJobs b promoteNext r node jobs calls
    exec (.job .startCaller r node.jobId)
    writeReusableMeta r node.jobId (jobs.map fun built => built.job.jobId) calls
    settleRequestsForJob r node.jobId .inProgress

/-- `apply_expansion`: a failed build is `none`. -/
def applyExpansion (lease : Lease) (built : Option BuiltExpansion) : Cmd Unit := do
  let leased ← Tx.select fun s : Db => s.leases.contains lease
  if !leased then Tx.abort .notFound
  else
    exec (.endLease lease)
    match ← Tx.select fun s : Db => s.job lease.runId lease.jobId with
    | none => pure ()
    | some node =>
      if node.expandGeneration ≠ lease.generation then pure ()
      else if !(built.all fun built => built.fits node) then Tx.abort .backend
      else
        foldExpansion b promoteNext lease.runId node built
        exec (.refreshRunRemainingNeeds lease.runId)
        let _ ← promoteRun b promoteNext fuel fuel lease.runId
        checkForeignKeys lease.runId

end Apply

end Preloop
