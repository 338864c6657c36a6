import PreloopControl.Lib.Reach
import PreloopControl.Lifecycle

/-!
# The System

All commands of the control plane, and the runs they make up. A command is one
transaction; a command that fails leaves the database as it was and is no step.

The database takes one transaction at a time, so whatever the nodes send at the same time is some
sequence of calls. An invariant is shown for one call, and by induction it holds of every database
that a sequence leads to.

## Main definitions

* `Command`: The commands with their inputs.
* `Call`: A command on a node, with the bound on its recursion.
* `Call.exec`: The transaction of a call.
* `Db.Reachable`: The databases some sequence of calls leads to.
* `Call.runAll`: The calls of a list, one after another.

## Theorems

* `run_of_runAll`: A list of calls that commit is a run.
* `exec_of_runAll`: The log of a call that commits.
-/

namespace Preloop

open Txn

/-- The commands of the control plane. -/
inductive Command
  | submitHead (sub : SubmitRun)
  | submitChunk (r : RunId)
  | submitFinalize (r : RunId)
  | poisonPartialSubmit (r : RunId)
  | poll (session : String) (r : RunId) (j : JobId)
  | completeJob (c : Completion)
  | settleJob (c : Completion) (settle : Option SettleAttempt)
  | cancelRun (r : RunId)
  | cancelJob (r : RunId) (j : JobId)
  | claimExpansion (r : RunId) (j : JobId)
  | applyExpansion (lease : Lease) (built : Option BuiltExpansion)
  | promoteReadyJobs (r : Option RunId)
  | setForkApproval (r : RunId) (pending : Bool) (requestedAt approvedAt : Option Int)
  | expireForkApprovals (cutoff : Int)
  | setEnvironmentGate (r : RunId) (j : JobId) (gate : Option EnvironmentGateState)
  | recordEnvironmentApproval (r : RunId) (j : JobId) (decision : EnvironmentDecision)
  | rerunRun (rerun : RerunRun)
  | putRunner (row : Runner)
  | purgeRunner (runner : Nat)
  | openSession (session : String) (runner : Nat)
  | closeSession (session : String)
  | releaseRequest (id : Nat)
  | reapSweep (sweep : ReapSweep)
  | deleteExpiredRun (r : RunId)
  | boot

/-- A command on a node. -/
structure Call where
  backend : Backend
  fuel : Nat
  command : Command

/-- The transaction of a call. -/
def Call.exec (c : Call) : Cmd Unit :=
  let b := c.backend
  let promoteNext := promoteNextInGroup b c.fuel
  match c.command with
  | .submitHead sub => submitHead b promoteNext c.fuel sub
  | .submitChunk r => submitChunk b promoteNext c.fuel r
  | .submitFinalize r => submitFinalize b promoteNext c.fuel r
  | .poisonPartialSubmit r => poisonPartialSubmit promoteNext r
  | .poll session r j => pollClaim session r j
  | .completeJob completion => completeJob b promoteNext c.fuel completion
  | .settleJob completion settle => settleJob b promoteNext c.fuel completion settle
  | .cancelRun r => cancelRun promoteNext r
  | .cancelJob r j => cancelJob promoteNext c.fuel r j
  | .claimExpansion r j => claimExpansion r j
  | .applyExpansion lease built => applyExpansion b promoteNext c.fuel lease built
  | .promoteReadyJobs r => promoteReadyJobs b promoteNext c.fuel r
  | .setForkApproval r pending requestedAt approvedAt =>
    setForkApproval r pending requestedAt approvedAt
  | .expireForkApprovals cutoff => expireForkApprovals promoteNext cutoff
  | .setEnvironmentGate r j gate => setEnvironmentGate r j gate
  | .recordEnvironmentApproval r j decision => recordEnvironmentApproval b r j decision
  | .rerunRun rerun => rerunRun b promoteNext c.fuel rerun
  | .putRunner row => Preloop.exec (.putRunner row)
  | .purgeRunner runner => purgeRunner b runner
  | .openSession session runner => openSession session runner
  | .closeSession session => closeSession session
  | .releaseRequest id => Preloop.exec (.request .releaseClaim id)
  | .reapSweep sweep => reapSweep sweep
  | .deleteExpiredRun r => deleteExpiredRun r
  | .boot => do
    -- What the crashed node kept in memory is gone.
    Preloop.exec .forgetMemory
    let _ ← reconcileOnBoot b promoteNext

/-- The runs of the system under a condition on the calls and on the statements
    they issue. -/
abbrev Runs (pre : Call → Db → Prop) (ok : Stmt → Db → Prop) : Db → Db → Prop :=
  Txn.Run Call.exec pre ok

/-- The databases some sequence of calls leads to. -/
def Db.Reachable (s : Db) : Prop := Runs (fun _ _ => True) (fun _ _ => True) Db.init s

/-- The calls of a list one after another: the last database, if all commit and
    every logged statement passes the test. -/
def Call.runAll (test : Stmt → Db → Bool) : List Call → Db → Option Db
  | [], s => some s
  | c :: cs, s =>
    match c.exec s with
    | .error _ => none
    | .ok (_, s', log) =>
      if log.all fun entry => test entry.1 entry.2 then Call.runAll test cs s' else none

theorem run_of_runAll {pre : Call → Db → Prop} {ok : Stmt → Db → Prop}
    {test : Stmt → Db → Bool} {cs : List Call} {s s' : Db}
    (hpre : ∀ c ∈ cs, ∀ s, pre c s) (hok : ∀ st s, test st s = true → ok st s)
    (h : Call.runAll test cs s = some s') : Runs pre ok s s' := by
  induction cs generalizing s with
  | nil =>
      rw [Call.runAll, Option.some.injEq] at h
      subst h
      exact Txn.Run.refl s
  | cons c cs ih =>
      rw [Call.runAll] at h
      split at h
      · cases h
      · next u s1 log hexec =>
          split at h
          · next hall =>
              refine Relation.ReflTransGen.head ?_ (ih (fun d hd => hpre d (.tail c hd)) h)
              refine ⟨c, log, hpre c (.head cs) s, hexec, ?_⟩
              intro e he
              exact hok e.1 e.2 (List.all_eq_true.mp hall e he)
          · cases h

/-- The last call of a list commits, with a log that passes the test. -/
theorem exec_of_runAll {test : Stmt → Db → Bool} {c : Call} {s s' : Db}
    (h : Call.runAll test [c] s = some s') :
    ∃ t, c.exec s = .ok ((), s', t) ∧ ∀ e ∈ t, test e.1 e.2 = true := by
  rw [Call.runAll] at h
  split at h
  · cases h
  · next u s1 log hexec =>
      split at h
      · next hall =>
          rw [Call.runAll, Option.some.injEq] at h
          subst h
          exact ⟨log, hexec, List.all_eq_true.mp hall⟩
      · cases h

/-! ## A small node

What the expression evaluators answer on the plain texts of small submissions:
enough to replay a sequence of calls. -/

/-- `concurrency: <name>`, stored as JSON. -/
def groupDecl (name : String) : Json := "\"" ++ name ++ "\""

/-- `concurrency:` with a group and `cancel-in-progress: true`, stored as JSON. -/
def cancellingDecl (name : String) : Json :=
  "\x7b\"group\":\"" ++ name ++ "\",\"cancel-in-progress\":true\x7d"

/-- Evaluators on plain texts: an `if:` is absent or `always()`, and the only
    groups are `deploy` and `site`. -/
def Evaluators.plain : Evaluators where
  evaluateConcurrency raw _ :=
    if raw = groupDecl "deploy" then some ("deploy", false, .single)
    else if raw = groupDecl "site" then some ("site", false, .single)
    else if raw = cancellingDecl "deploy" then some ("deploy", true, .single)
    else if raw = cancellingDecl "site" then some ("site", true, .single)
    else none
  evalBool condition _ status _ :=
    match condition with
    | none => some (status = .success)
    | some text => some (text = "always()")
  hasExpressions _ := false
  resolvesAfterJobBuild _ := false
  resolveString text _ := some text
  resolveOutput text _ _ := text
  resolveRunsOn labels _ := labels
  patchAttempt json _ _ := json
  globMatch pattern text := pattern = text
  toLowercase text := text
  trim text := text

/-- A node without a pool, on which no environment is protected. -/
def Backend.plain : Backend where
  eval := .plain
  now := 0
  uuid n := "attempt-" ++ toString n
  poolLabels := []
  lookup _ _ := .resolved none

/-- A spec with nothing declared. -/
def Spec.plain : Spec := ⟨none, "", none, none, none, none, none, none, false, none, none⟩

/-- A job with an id, needs and a spec. -/
def SubmitJob.plain (id : JobId) (needs : List JobId) (spec : Spec) : SubmitJob where
  jobId := id
  baseId := id
  needs := needs
  runsOn := ["self-hosted"]
  environmentGate := none
  spec := spec
  message := ⟨id, "", "", [], none⟩
  conditionContext := ""
  agentJobId := some id
  initiallySkipped := false

/-- A submission of some jobs. -/
def SubmitRun.plain (jobs : List SubmitJob) : SubmitRun where
  namespaceId := "default"
  repository := "app"
  workflowPath := "ci.yml"
  gitRef := "refs/heads/main"
  webhookDeliveryId := none
  forkApprovalPending := false
  forkApprovalRequestedAt := none
  eventOrder := none
  trustTier := none
  github := ""
  vars := ""
  inputs := ""
  jobOutputs := []
  jobs := jobs
  workflowConcurrency := none
  emptyConcurrencyGroup := false
  checkHostable := false
  admitted := true

/-- A rerun of all jobs. -/
def RerunRun.plain (r : RunId) : RerunRun := ⟨r, .all, none, none, []⟩

/-- A command on the small node. -/
def Command.call (command : Command) : Call := ⟨.plain, 8, command⟩

/-- All phases of a submission of one chunk, for the run with this id. -/
def SubmitRun.calls (sub : SubmitRun) (r : RunId) : List Call :=
  [(Command.submitHead sub).call, (Command.submitChunk r).call, (Command.submitFinalize r).call]

end Preloop
