import PreloopControl.Schema

/-!
# Scheduling Decisions

The pure half of the scheduler: the decisions `control/logic.rs`,
`runtime_scheduling.rs` and `concurrency.rs` take on rows already read. Nothing
here touches the database.

Two things the decisions consult live outside this development and are
parameters. `Evaluators` collects the expression language (conditions,
concurrency groups, deferred names), the glob matcher and Unicode text tables.
`Backend` is what a command finds on the node it runs on: the evaluators, the
clock, the source of fresh ids, the labels the co-hosted pool advertises and the
environment rules the resolver knows at that moment.

## Main definitions

* `Evaluators`, `Backend`: The parameters.
* `summarizeRun`, `aggregateNeedStatus`, `effectiveStatus`: Statuses.
* `concurrencyAdmission`, `concurrencyQueueDecision`: Admission to a group.
* `jobMatchesRunner`, `promotionUnsatisfiable`, `concludesAtSubmit`: Labels.
* `evaluateEnvironmentGate`: Environment protection rules.

## Theorems

* `effectiveStatus_terminal`: A terminal report settles terminally.
* `summarizeRun_terminal`: A summary is terminal exactly when every leaf is.
-/

namespace Preloop

/-- What a concurrency expression is evaluated against. -/
structure ConcurrencyContext where
  scope : ConcurrencyScope
  github : Json
  vars : Json
  inputs : Json
  matrix : Option Json
  strategy : Option Json
deriving DecidableEq, Repr

/-- The expression language and string tables the scheduler calls into. -/
structure Evaluators where
  /-- `evaluate_concurrency`: group, cancel-in-progress and queue mode. -/
  evaluateConcurrency : Json → ConcurrencyContext → Option (String × Bool × ConcurrencyQueue)
  /-- `eval_bool` of an `if:` under the status functions and the needs context. -/
  evalBool : Option String → Json → ExecutionStatus → List NeedRow → Option Bool
  /-- `has_expressions`: the text still carries a template. -/
  hasExpressions : String → Bool
  /-- `resolves_after_job_build`: the name reads `needs.*`. -/
  resolvesAfterJobBuild : String → Bool
  /-- `resolve_string` against a message's context. -/
  resolveString : String → Message → Option String
  /-- `resolve_string` of a call output against the callee's outputs. -/
  resolveOutput : String → Json → List (JobId × Outputs) → String
  /-- `resolve_deferred_runs_on_labels`. -/
  resolveRunsOn : List String → Message → List String
  /-- `bump_run_attempt` on a stored context: the attempt and the actor in it. -/
  patchAttempt : Json → Nat → Option String → Json
  /-- `glob_match`. -/
  globMatch : String → String → Bool
  /-- `str::to_lowercase`. -/
  toLowercase : String → String
  /-- `str::trim`. -/
  trim : String → String

/-- `EnvironmentRules`: the protection rules of one environment. -/
structure EnvironmentRules where
  deploymentBranches : List String
  deploymentTags : List String
  waitTimerMinutes : Nat
  requiredReviewers : Nat
  branchPolicyRestricted : Bool
  protectedBranchesOnly : Bool
  customProtectionRules : List String
deriving DecidableEq, Repr

/-- `EnvironmentLookup`: what the resolver knows about an environment. -/
inductive EnvironmentLookup
  | resolved (rules : Option EnvironmentRules)
  | pending
deriving DecidableEq, Repr

/-- What a command finds on the node it runs on. -/
structure Backend where
  eval : Evaluators
  now : Int
  /-- The UUID drawn for an attempt, by the number of its request. -/
  uuid : Nat → String
  poolLabels : List String
  lookup : String → String → EnvironmentLookup

/-! ## Statuses -/

/-- `summarize_run`: the public status of a run from its leaf jobs. -/
def summarizeRun (statuses : List ExecutionStatus) : ExecutionStatus :=
  if statuses.any fun st => !st.isTerminal then .inProgress
  else if statuses.contains .failure then .failure
  else if statuses.contains .cancelled then .cancelled
  else if !statuses.isEmpty && statuses.all fun st => st = .skipped then .skipped
  else .success

theorem summarizeRun_terminal (statuses : List ExecutionStatus) :
    (summarizeRun statuses).isTerminal = statuses.all fun st => st.isTerminal := by
  unfold summarizeRun
  by_cases h : statuses.any (fun st => !st.isTerminal) = true
  · rw [if_pos h]
    rw [List.any_eq_true] at h
    obtain ⟨st, hmem, hst⟩ := h
    have hall : statuses.all (fun st => st.isTerminal) = false := by
      rw [List.all_eq_false]
      exact ⟨st, hmem, by simpa using hst⟩
    rw [hall]
    rfl
  · rw [if_neg h]
    have hall : statuses.all (fun st => st.isTerminal) = true := by
      rw [List.all_eq_true]
      intro st hmem
      by_contra hst
      exact h (List.any_eq_true.mpr ⟨st, hmem, by simpa using hst⟩)
    rw [hall]
    split
    · rfl
    · split
      · rfl
      · split <;> rfl

/-- `aggregate_need_status`: the status of a set of needs, if they are settled. -/
def aggregateNeedStatus (statuses : List ExecutionStatus) : Option ExecutionStatus :=
  if statuses.contains .failure then some .failure
  else if statuses.contains .cancelled then some .cancelled
  else if statuses.contains .skipped then some .skipped
  else if !statuses.isEmpty && statuses.all fun st => st = .success then some .success
  else none

/-- `completion_decision`, the effective status: a tolerated failure counts as a
    success, and a cancelled job stays cancelled after any terminal report. -/
def effectiveStatus (prior reported : ExecutionStatus) (continueOnError : Bool) :
    ExecutionStatus :=
  let reported := if continueOnError && reported = .failure then .success else reported
  if prior = .cancelled && reported.isTerminal then .cancelled
  else if prior.isTerminal && prior ≠ .cancelled then prior
  else reported

theorem effectiveStatus_terminal {prior reported : ExecutionStatus} {tolerated : Bool}
    (h : reported.isTerminal = true) :
    (effectiveStatus prior reported tolerated).isTerminal = true := by
  cases prior <;> cases reported <;> cases tolerated <;> first | rfl | exact absurd h (by decide)

/-! ## Admission to a concurrency group -/

/-- `ConcurrencyAdmission`. -/
inductive ConcurrencyAdmission
  | acquired
  | cancelCurrent
  | waiting
deriving DecidableEq, Repr

/-- `concurrency_admission`: an arrival against the current holder's run. -/
def concurrencyAdmission (arrival : RunId) (cancelInProgress : Bool) :
    Option RunId → ConcurrencyAdmission
  | none => .acquired
  | some current =>
    if cancelInProgress then if current = arrival then .acquired else .cancelCurrent
    else .waiting

/-- `MAX_CONCURRENCY_WAITERS`. -/
def maxConcurrencyWaiters : Nat := 100

/-- `ConcurrencyQueueDecision`: cancel every waiter and park, cancel the
    arrival, or just park. -/
inductive ConcurrencyQueueDecision
  | cancelPending
  | cancelArrival
  | park
deriving DecidableEq, Repr

/-- `concurrency_queue_decision`. -/
def concurrencyQueueDecision : ConcurrencyQueue → Nat → ConcurrencyQueueDecision
  | .single, _ => .cancelPending
  | .max, waiters => if maxConcurrencyWaiters ≤ waiters then .cancelArrival else .park

/-- ASCII lowercasing of a group's repository and name (`concurrency_key`). -/
def concurrencyKey (namespaceId repository group : String) : GroupKey :=
  ⟨namespaceId, repository.toLower, group.toLower⟩

/-! ## Labels -/

/-- `hosted_label_os`: the OS a hosted image label names. -/
def hostedLabelOs (required : String) : Option String :=
  if "ubuntu".isPrefixOf required then some "linux"
  else if "macos".isPrefixOf required then some "macos"
  else if "windows".isPrefixOf required then some "windows"
  else none

/-- `needs_external_host`: a label only a macOS or Windows host serves. -/
def needsExternalHost (runsOn : List String) : Bool :=
  runsOn.any fun label =>
    "macos".isPrefixOf label.toLower || "windows".isPrefixOf label.toLower

/-- The text contains the opening of a template. -/
def opensTemplate : List Char → Bool
  | [] => false
  | c :: cs => ['$', '\x7b', '\x7b'].isPrefixOf (c :: cs) || opensTemplate cs

/-- `runs_on_deferred`: a label still carries a template. -/
def runsOnDeferred (runsOn : List String) : Bool :=
  runsOn.any fun label => opensTemplate label.toList

/-- `job_matches_runner`. -/
def jobMatchesRunner (ev : Evaluators) (jobLabels runnerLabels : List String) : Bool :=
  jobLabels.isEmpty || runnerLabels.isEmpty ||
    let runnerSet := runnerLabels.map ev.toLowercase
    let runnerOs := ["linux", "macos", "windows"].find? fun os => runnerSet.contains os
    jobLabels.all fun required =>
      let req := ev.toLowercase required
      runnerSet.contains req ||
        match hostedLabelOs req with
        | none => false
        | some requiredOs =>
          match runnerOs with
          | some os => os == requiredOs
          | none => runnerSet.contains "self-hosted"

/-- `unhostable_platform`: the platform a job needs that no runner hosts. -/
def unhostablePlatform (ev : Evaluators) (jobLabels platforms : List String) : Option String :=
  match (jobLabels.filterMap fun label => hostedLabelOs (ev.toLowercase label)).find?
      fun os => os == "macos" || os == "windows" with
  | none => none
  | some needed => if platforms.contains needed then none else some needed

/-- `pool_unsatisfiable_reason`, as a verdict. -/
def poolUnsatisfiable (ev : Evaluators) (runsOn poolLabels : List String) : Bool :=
  !poolLabels.isEmpty && !jobMatchesRunner ev runsOn poolLabels

/-- `unschedulable_reason`, as a verdict. -/
def unschedulable (ev : Evaluators) (runsOn poolLabels : List String)
    (anyRunnerMatches : Bool) : Bool :=
  !(anyRunnerMatches || needsExternalHost runsOn || runsOnDeferred runsOn) &&
    poolUnsatisfiable ev runsOn poolLabels

/-- `promotion_unsatisfiable_reason`, as a verdict. -/
def promotionUnsatisfiable (ev : Evaluators) (runsOn platforms poolLabels : List String)
    (anyRunnerMatches : Bool) : Bool :=
  (unhostablePlatform ev runsOn platforms).isSome ||
    unschedulable ev runsOn poolLabels anyRunnerMatches

/-- `concludes_at_submit`: the job is terminal as soon as it is submitted. -/
def concludesAtSubmit (ev : Evaluators) (initiallySkipped hasNeeds placeholder : Bool)
    (runsOn : List String) (checkHostable : Bool) (platforms poolLabels : List String)
    (anyRunnerMatches : Bool) : Bool :=
  initiallySkipped ||
    !(placeholder || hasNeeds) &&
      (checkHostable && (unhostablePlatform ev runsOn platforms).isSome ||
        unschedulable ev runsOn poolLabels anyRunnerMatches)

/-- `registered_platforms`: the platforms the registered runners host. -/
def registeredPlatforms (runners : List (List String)) : List String :=
  (runners.flatten.map String.toLower).filter fun os =>
    os == "linux" || os == "macos" || os == "windows"

/-! ## Environment protection rules -/

/-- `EnvironmentGateOutcome`. -/
inductive EnvironmentGateOutcome
  | proceed
  | wait
  | failed
deriving DecidableEq, Repr

/-- `ref_allowed`: the ref satisfies the deployment branch policy. -/
def refAllowed (ev : Evaluators) (rule : EnvironmentRules) (gitRef : String) : Bool :=
  let strip (pre : String) (text : String) : String := (text.drop pre.length).toString
  let isBranch := "refs/heads/".isPrefixOf gitRef
  let isTag := "refs/tags/".isPrefixOf gitRef
  let matchAny (pre : String) (patterns : List String) (name : String) : Bool :=
    patterns.any fun pattern =>
      ev.globMatch (if pre.isPrefixOf pattern then strip pre pattern else pattern) name
  let restricted := rule.branchPolicyRestricted || !rule.deploymentBranches.isEmpty ||
    !rule.deploymentTags.isEmpty
  if !restricted then true
  else if rule.protectedBranchesOnly then
    if rule.deploymentBranches.isEmpty then
      isBranch || (!"refs/".isPrefixOf gitRef && !isTag)
    else isBranch && rule.deploymentBranches.contains (strip "refs/heads/" gitRef)
  else if isBranch then
    matchAny "refs/heads/" rule.deploymentBranches (strip "refs/heads/" gitRef)
  else if isTag then matchAny "refs/tags/" rule.deploymentTags (strip "refs/tags/" gitRef)
  else matchAny "refs/heads/" rule.deploymentBranches gitRef

/-- `rules_gate_anything`. -/
def rulesGateAnything (rule : EnvironmentRules) : Bool :=
  rule.branchPolicyRestricted || rule.protectedBranchesOnly ||
    !rule.deploymentBranches.isEmpty || !rule.deploymentTags.isEmpty ||
    0 < rule.waitTimerMinutes || 0 < rule.requiredReviewers ||
    !rule.customProtectionRules.isEmpty

/-- `ENVIRONMENT_APPROVAL_WINDOW_NANOS`. -/
def environmentApprovalWindow : Int := 24 * 60 * 60 * 1000000000

/-- Clamp to the range of an `i64`, as its saturating operations do. -/
def saturate (n : Int) : Int := max (-(2 ^ 63)) (min (2 ^ 63 - 1) n)

/-- The wait timer and required-reviewer stages of the gate, once a rule set
    applies: arm each stage once, then hold or decide. -/
def evaluateRuleSet (rule : EnvironmentRules) (gate : EnvironmentGateState) (now : Int) :
    EnvironmentGateOutcome × EnvironmentGateState :=
  let deadline := saturate (now + saturate (rule.waitTimerMinutes * 60000000000))
  let gate :=
    if gate.waitUntil.isNone && 0 < rule.waitTimerMinutes then
      { gate with waitUntil := some deadline }
    else gate
  if gate.waitUntil.any fun deadline => now < deadline then (.wait, gate)
  else
    let gate :=
      if gate.approvalRequestedAt.isNone && 0 < rule.requiredReviewers then
        { gate with
          approvalRequestedAt := some now
          approvalsRequired := some (gate.approvalsRequired.getD rule.requiredReviewers) }
      else gate
    match gate.approvalRequestedAt with
    | none => (.proceed, gate)
    | some requestedAt =>
      if max (gate.approvalsRequired.getD rule.requiredReviewers) 1 ≤ gate.approvals.length then
        (.proceed, gate)
      else if environmentApprovalWindow < saturate (now - requestedAt) then (.failed, gate)
      else (.wait, gate)

/-- `evaluate_environment_gate`: the verdict and the gate to store. -/
def evaluateEnvironmentGate (ev : Evaluators) (lookup : EnvironmentLookup) (gitRef envName : String)
    (gate : Option EnvironmentGateState) (now : Int) :
    EnvironmentGateOutcome × Option EnvironmentGateState :=
  -- A name whose evaluation already failed can never resolve.
  if gate.any fun g => g.unresolvableName.isSome then (.failed, gate)
  else
    let current := gate.getD EnvironmentGateState.default
    let armed : EnvironmentGateState := { current with environmentName := some envName }
    match lookup with
    | .pending => (.wait, some armed)
    | .resolved rules =>
      if ev.hasExpressions envName then (.wait, some armed)
      else
        match rules.filter rulesGateAnything with
        | none => (.proceed, none)
        | some rule =>
          if armed.rejectedBy.isSome then (.failed, some armed)
          else if !rule.customProtectionRules.isEmpty then (.failed, some armed)
          else if !refAllowed ev rule gitRef then (.failed, some armed)
          else
            let (verdict, stamped) := evaluateRuleSet rule armed now
            (verdict, some stamped)

end Preloop
