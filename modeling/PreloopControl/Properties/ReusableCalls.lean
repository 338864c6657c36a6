import PreloopControl.Workflow.Expand
import PreloopControl.Properties.SecretReads

/-!
# Secrets and Inputs along a Chain of Calls

A plan of a called workflow holds what the calls above it passed on. Each level
rewrites the plan once more, so its final inputs and secrets are a function of
the clauses along the chain.

For secrets the outermost call wins everywhere: its `inherit` flag replaces all
others, and its map overrides the maps below it (`Expanded.secrets`). A callee
is therefore isolated as the chain demands only for some chains
(`secrets_isolated_iff`).

For inputs the merge is the same, one level at a time: the inputs of the calling
workflow override those its own call resolved (`nested_inputs_iff`).

## Main definitions

* `Expanded`: A plan reached by a chain of calls.
* `Isolated`: The plan holds only secrets passed along the chain.
* `PassedDown`: The chains for which it does.

## Theorems

* `Expanded.secrets`: The secrets of a plan, from the clauses of the chain.
* `secrets_isolated_iff`: When a callee is isolated.
* `nested_inputs_iff`: When a nested callee has its own inputs.
-/

namespace Preloop

namespace Workflow

open Expressions Fallible

variable {N F : Type} {frontend : Frontend N F} {library : Library}

/-! ## Plans of one job -/

/-- The clause of a job, if it calls a workflow. -/
def Job.clauses (frontend : Frontend N F) (job : Job N) : List SecretsClause :=
  if job.uses.isSome then [secretsClause frontend job] else []

/-- The secrets of a plan agree with a chain of clauses, outermost first: the first flag
    counts, and for each name the first map that has it. -/
structure SecretsOf (plan : JobPlan N) (cs : List SecretsClause) : Prop where
  caller : plan.reusableCall.isSome = true → cs ≠ []
  inherit : ∀ c ∈ cs.head?, plan.secretsInherit = c.inherit
  map : ∀ k, plan.secretsMap.lookup k = cs.findSome? fun c => c.map.lookup k

section OneJob

variable {workflow : WorkflowFile N} {frame : CallFrame} {inputs : Inputs N}
  {eventName : Option Text} {jobId : Text} {job : Job N}
  {part : List (JobPlan N × Option (ReusableCallMetadata N))}
  {raw : JobPlan N × Option (ReusableCallMetadata N)}

/-- What the plans of one job have of it: its permissions, and the secrets of its call or the
    inputs of its workflow. -/
theorem plan_of_expandJob
    (h : expandJob frontend library workflow frame inputs eventName jobId job = .ok part)
    (hraw : raw ∈ part) :
    (raw.1.oidcIdTokenGranted = idTokenGranted (job.permissions.or workflow.permissions) ∧
      raw.1.permissions = resolvePermissions job.permissions workflow.permissions) ∧
    ((job.clauses frontend = [secretsClause frontend job] ∧ raw.1.reusableCall.isSome = true ∧
        raw.1.secretsInherit = (secretsClause frontend job).inherit ∧
        raw.1.secretsMap = (secretsClause frontend job).map) ∨
      (job.clauses frontend = [] ∧ raw.1.reusableCall = none ∧ raw.1.inputs = inputs.getD ∅ ∧
        ∀ k, raw.1.secretsMap.lookup k = none)) := by
  unfold expandJob at h
  cases huses : job.uses with
  -- a job that calls a workflow
  | some declared =>
      simp only [huses] at h
      unfold expandCaller at h
      obtain ⟨call, _, h⟩ := bind_eq_ok h
      obtain ⟨coerced, _, h⟩ := bind_eq_ok h
      obtain ⟨_, _, h⟩ := bind_eq_ok h
      obtain ⟨matrix, _, h⟩ := bind_eq_ok h
      obtain ⟨cell, _, hcell⟩ := exists_of_mem_mapM h hraw
      obtain ⟨resolved, _, hcell⟩ := bind_eq_ok hcell
      cases hcell
      exact ⟨⟨rfl, rfl⟩, .inl ⟨by simp [Job.clauses, huses], rfl, rfl, rfl⟩⟩
  | none =>
      -- a job with steps of its own
      simp only [huses] at h
      obtain ⟨matrix, _, h⟩ := bind_eq_ok h
      obtain ⟨cell, _, hcell⟩ := exists_of_mem_mapM h hraw
      obtain ⟨plan, hplan, hcell⟩ := bind_eq_ok hcell
      cases hcell
      obtain ⟨steps, _, hplan⟩ := bind_eq_ok hplan
      cases hplan
      exact ⟨⟨rfl, rfl⟩, .inr ⟨by simp [Job.clauses, huses], rfl, rfl, fun _ => rfl⟩⟩

/-- The plans of one job, before they are lifted. -/
theorem secrets_of_expandJob
    (h : expandJob frontend library workflow frame inputs eventName jobId job = .ok part)
    (hraw : raw ∈ part) : SecretsOf raw.1 (job.clauses frontend) := by
  rcases (plan_of_expandJob h hraw).2 with
    ⟨hclauses, _, hinherit, hmap⟩ | ⟨hclauses, hcall, _, hmap⟩
  · rw [hclauses]
    refine ⟨fun _ => List.cons_ne_nil _ _, ?_, fun k => ?_⟩
    · intro c hc
      cases hc
      exact hinherit
    · rw [hmap, List.findSome?_cons, List.findSome?_nil]
      cases (secretsClause frontend job).map.lookup k with
      | none => rfl
      | some v => rfl
  · rw [hclauses]
    refine ⟨fun hc => ?_, ?_, hmap⟩
    · rw [hcall] at hc
      cases hc
    · intro c hc
      cases hc

/-- A job that calls no workflow has the inputs of the workflow it is in. -/
theorem inputs_of_plain
    (h : expandJob frontend library workflow frame inputs eventName jobId job = .ok part)
    (hraw : raw ∈ part) (hplain : raw.1.reusableCall = none) :
    raw.1.inputs = inputs.getD ∅ := by
  rcases (plan_of_expandJob h hraw).2 with ⟨_, hcall, _⟩ | ⟨_, _, hinputs, _⟩
  · rw [hplain] at hcall
    cases hcall
  · exact hinputs

end OneJob

/-! ## Chains of calls -/

/-- A plan below a chain of calls, outermost first. A plan of the top workflow may get
    its needs rewritten; a caller with a late matrix is continued in one of its
    cells; the plans of a called workflow are lifted under their caller. -/
inductive Expanded (frontend : Frontend N F) (library : Library) :
    List SecretsClause → JobPlan N → Prop
  | top {workflow : WorkflowFile N} {inputs : Inputs N} {eventName : Option Text} {jobId : Text}
      {job : Job N} {part : List (JobPlan N × Option (ReusableCallMetadata N))}
      {raw : JobPlan N × Option (ReusableCallMetadata N)}
      (hjob : (jobId, job) ∈ workflow.jobs)
      (hpart : expandJob frontend library workflow {} inputs eventName jobId job = .ok part)
      (hraw : raw ∈ part) (needs : List Text) :
      Expanded frontend library (job.clauses frontend) { raw.1 with needs := needs }
  | cell {cs : List SecretsClause} {caller plan : JobPlan N} {workflow : WorkflowFile N}
      {cell : Dict (Value N)} (h : Expanded frontend library cs caller)
      (hcell : deferredCell frontend workflow caller cell = .ok plan) :
      Expanded frontend library cs plan
  | callee {cs : List SecretsClause} {caller : JobPlan N} {call : ReusableCallPlan}
      {called : WorkflowFile N} {out : ExpandedWorkflows N} {jobId : Text} {job : Job N}
      {part : List (JobPlan N × Option (ReusableCallMetadata N))}
      {raw : JobPlan N × Option (ReusableCallMetadata N)}
      (h : Expanded frontend library cs caller) (hcall : caller.reusableCall = some call)
      (hout : expandReusableCall frontend library called caller = .ok out)
      (hjob : (jobId, job) ∈ called.jobs)
      (hpart : expandJob frontend library called (calleeFrame call) (some caller.inputs) none
        jobId job = .ok part)
      (hraw : raw ∈ part) :
      Expanded frontend library (cs ++ job.clauses frontend) (liftPlan caller call raw.1)

/-- The plans `expand_reusable_call` returns are the lifted plans of the jobs of the
    called workflow. -/
theorem exists_of_mem_expandReusableCall {called : WorkflowFile N} {caller : JobPlan N}
    {out : ExpandedWorkflows N} (h : expandReusableCall frontend library called caller = .ok out)
    {plan : JobPlan N} (hplan : plan ∈ out.jobs) :
    ∃ call jobId job part raw, caller.reusableCall = some call ∧ (jobId, job) ∈ called.jobs ∧
      expandJob frontend library called (calleeFrame call) (some caller.inputs) none jobId job =
        .ok part ∧ raw ∈ part ∧ plan = liftPlan caller call raw.1 := by
  unfold expandReusableCall at h
  cases hcall : caller.reusableCall with
  | none => simp [hcall] at h
  | some call =>
      simp only [hcall] at h
      split at h
      · cases h
      · obtain ⟨inner, hinner, h⟩ := bind_eq_ok h
        obtain ⟨_, _, h⟩ := bind_eq_ok h
        cases h
        obtain ⟨parts, hparts, hinner⟩ := bind_eq_ok hinner
        cases hinner
        obtain ⟨plan', hplan', rfl⟩ := List.mem_map.mp hplan
        obtain ⟨raw, hraw, rfl⟩ := List.mem_map.mp hplan'
        obtain ⟨part, hpart, hraw⟩ := List.mem_flatten.mp hraw
        obtain ⟨e, he, hexp⟩ := exists_of_mem_mapM hparts hpart
        exact ⟨call, e.1, e.2, part, raw, rfl, he, hexp, hraw, rfl⟩

theorem secrets_of_deferredCell {workflow : WorkflowFile N} {caller plan : JobPlan N}
    {cell : Dict (Value N)} {cs : List SecretsClause} (hs : SecretsOf caller cs)
    (h : deferredCell frontend workflow caller cell = .ok plan) : SecretsOf plan cs := by
  obtain ⟨inputs, _, h⟩ := bind_eq_ok h
  cases h
  exact ⟨hs.caller, hs.inherit, hs.map⟩

/-- Lifting puts the caller's clauses before those of the plan. -/
theorem SecretsOf.lift {caller plan : JobPlan N} {call : ReusableCallPlan}
    {cs own : List SecretsClause} (hcaller : SecretsOf caller cs)
    (hcall : caller.reusableCall = some call) (hplan : SecretsOf plan own) :
    SecretsOf (liftPlan caller call plan) (cs ++ own) := by
  have hne : cs ≠ [] := hcaller.caller (by rw [hcall]; rfl)
  refine ⟨fun _ => List.append_ne_nil_of_left_ne_nil hne own, ?_, ?_⟩
  · intro c hc
    rw [List.head?_append_of_ne_nil cs hne] at hc
    exact hcaller.inherit c hc
  · intro k
    show (plan.secretsMap.extend caller.secretsMap).lookup k = _
    rw [Dict.lookup_extend, hcaller.map, hplan.map, List.findSome?_append]

/-- The secrets of a plan, from the clauses along its chain. -/
theorem Expanded.secrets {cs : List SecretsClause} {plan : JobPlan N}
    (h : Expanded frontend library cs plan) : SecretsOf plan cs := by
  induction h with
  | top _ hpart hraw needs =>
      have hs := secrets_of_expandJob hpart hraw
      exact ⟨hs.caller, hs.inherit, hs.map⟩
  | cell _ hcell ih => exact secrets_of_deferredCell ih hcell
  | callee _ hcall _ _ hpart hraw ih => exact ih.lift hcall (secrets_of_expandJob hpart hraw)

/-! ## Three workflows -/

/-- The reference of the innermost workflow. -/
def deployRef : Text := "./.github/workflows/deploy.yml".toList

/-- The reference of the workflow between. -/
def releaseRef : Text := "./.github/workflows/release.yml".toList

/-- The file of the innermost workflow, which declares one input. -/
def deployYaml : Text :=
  "name: deploy
on:
  workflow_call:
    inputs:
      stage:
        type: string
jobs:
  run:
    runs-on: ubuntu-latest
".toList

/-- The file of the workflow between, which calls it. -/
def releaseYaml : Text :=
  "name: release
on:
  workflow_call:
    inputs:
      stage:
        type: string
jobs:
  deploy:
    uses: ./.github/workflows/deploy.yml
    with:
      stage: staging
    secrets:
      KEY: deploy-key
".toList

/-- One declared input. -/
def stageTrigger : WorkflowCallTrigger Int where
  inputs := Dict.ofList [("stage".toList, {})]

/-- The innermost workflow. -/
def deployFile : WorkflowFile Int where
  callTrigger := some stageTrigger
  jobs := [("run".toList, {})]

/-- The call of the innermost workflow. -/
def deployJob : Job Int where
  uses := some deployRef
  with_ := Dict.ofList [("stage".toList, .string "staging".toList)]
  secrets := some (.object [("KEY".toList, .string "deploy-key".toList)])

/-- The workflow between. -/
def releaseFile : WorkflowFile Int where
  callTrigger := some stageTrigger
  jobs := [("deploy".toList, deployJob)]

/-- The call of the workflow between. -/
def releaseJob : Job Int where
  uses := some releaseRef
  with_ := Dict.ofList [("stage".toList, .string "production".toList)]
  secrets := some (.string "inherit".toList)

/-- The top workflow. -/
def topFile : WorkflowFile Int where
  jobs := [("release".toList, releaseJob)]

/-- A parser that knows these files. -/
def smallFrontend : Frontend Int Int where
  engine := integerEngine
  parseWorkflow yaml :=
    if yaml = releaseYaml then .ok releaseFile
    else if yaml = deployYaml then .ok deployFile
    else .error (.yaml [])
  expandMatrix _ matrix _ _ :=
    if matrix.isNone then .ok (.combinations [∅]) else .error (.invalidExpression [])
  resolveDeferredMatrixCells _ _ _ _ := .error (.invalidExpression [])
  displayJobName id _ := id
  stepPlans _ job _ _ _ _ := .ok job.steps
  validateJobPlans _ := .ok ()
  resolvesAfterJobBuild _ := false
  normalizePath t := t
  inputNumber _ := none
  zeroNumber := 0
  errorText _ := []

/-- The two files that are called. -/
def smallLibrary : Library where
  reusableWorkflows := Dict.ofList [(releaseRef, releaseYaml), (deployRef, deployYaml)]

/-- A call of a file that is in the library, under its reference or its path. -/
theorem resolveCall_ok {frame : CallFrame} {declared yaml : Text} {called : WorkflowFile N}
    {trigger : WorkflowCallTrigger N} (hdepth : frame.depth < maxReusableWorkflowDepth)
    (horigin : frame.origin = none)
    (hlookup : (library.reusableWorkflows.lookup declared).or
      (library.reusableWorkflows.lookup (normalizeReusablePath frontend declared)) = some yaml)
    (hparse : frontend.parseWorkflow yaml = .ok called)
    (htrigger : called.callTrigger = some trigger) :
    resolveCall frontend library frame declared =
      .ok ⟨declared, normalizeReusablePath frontend declared, called, trigger⟩ := by
  have href : calleeReference library declared frame.origin = .ok declared := by
    rw [horigin]
    rfl
  unfold resolveCall
  rw [if_neg (Nat.not_le.mpr hdepth), href]
  simp only [bind, Except.bind, pure, Except.pure, hlookup, hparse, htrigger]

/-- A job without a matrix that calls such a file. -/
theorem expandJob_call {workflow : WorkflowFile N} {frame : CallFrame} {inputs : Inputs N}
    {eventName : Option Text} {jobId declared : Text} {job : Job N} {call : ResolvedCall N}
    {coerced : List (Text × InputType × Value N)} {resolved : Dict (Value N)}
    (huses : job.uses = some declared)
    (hcall : resolveCall frontend library frame declared = .ok call)
    (hcoerced : coercedInputs frontend job call.trigger = .ok coerced)
    (hsecrets : checkSecrets job call.trigger = .ok ())
    (hmatrix : ∀ values, frontend.expandMatrix jobId job.matrix values eventName =
      .ok (.combinations [∅]))
    (hresolved : callInputs frontend jobId coerced false ∅ inputs eventName = .ok resolved) :
    ∃ m, expandJob frontend library workflow frame inputs eventName jobId job =
      .ok [(callerNode frontend library workflow frame jobId job call none ∅ resolved, m)] := by
  unfold expandJob
  simp only [huses]
  unfold expandCaller
  rw [hcall]
  simp only [bind, Except.bind, hcoerced, hsecrets, hmatrix, MatrixExpansion.intoCells,
    List.mapM_cons, List.mapM_nil, Option.isSome_none, hresolved, pure, Except.pure]
  exact ⟨_, rfl⟩

/-- A workflow of one job under its caller. -/
theorem expandReusableCall_single {called : WorkflowFile N} {caller : JobPlan N}
    {call : ReusableCallPlan} {jobId : Text} {job : Job N}
    {part : List (JobPlan N × Option (ReusableCallMetadata N))}
    (hcall : caller.reusableCall = some call) (hdeferred : caller.deferredMatrix = none)
    (hjobs : called.jobs = [(jobId, job)])
    (hpart : expandJob frontend library called (calleeFrame call) (some caller.inputs) none
      jobId job = .ok part)
    (hvalid : ∀ plans, frontend.validateJobPlans plans = .ok ()) :
    ∃ out, expandReusableCall frontend library called caller = .ok out ∧
      out.jobs = part.map fun p => liftPlan caller call p.1 := by
  unfold expandReusableCall expandJobsWithReusablesInternal
  simp only [hcall, hdeferred, hjobs, List.mapM_cons, List.mapM_nil, hpart, bind, Except.bind, pure,
    Except.pure, Option.isSome_none, Bool.false_eq_true, if_false, validateExpandedSubtree, hvalid]
  refine ⟨_, rfl, ?_⟩
  simp

theorem parse_release : smallFrontend.parseWorkflow releaseYaml = .ok releaseFile := by
  simp only [smallFrontend, if_true]

set_option maxRecDepth 4000 in
/-- The files differ in the first letter of the name. -/
theorem deployYaml_ne : deployYaml ≠ releaseYaml := by
  have hdeploy : deployYaml[6]? = some 'd' :=
    congrArg (fun t : Text => t[6]?) (String.toList_ofList : deployYaml = _)
  have hrelease : releaseYaml[6]? = some 'r' :=
    congrArg (fun t : Text => t[6]?) (String.toList_ofList : releaseYaml = _)
  intro heq
  rw [heq, hrelease] at hdeploy
  exact absurd hdeploy (by decide)

theorem parse_deploy : smallFrontend.parseWorkflow deployYaml = .ok deployFile := by
  simp only [smallFrontend, if_neg deployYaml_ne, if_true]

theorem lookup_deploy : smallLibrary.reusableWorkflows.lookup deployRef = some deployYaml := by
  simp only [smallLibrary, Dict.ofList, List.foldl_cons, List.foldl_nil, AList.lookup_insert]

theorem lookup_release : smallLibrary.reusableWorkflows.lookup releaseRef = some releaseYaml := by
  have hne : releaseRef ≠ deployRef := by decide
  simp only [smallLibrary, Dict.ofList, List.foldl_cons, List.foldl_nil]
  rw [AList.lookup_insert_ne hne, AList.lookup_insert]

/-- The call of a file in the library. -/
def smallCall (ref : Text) (called : WorkflowFile Int) : ResolvedCall Int where
  uses := ref
  path := normalizeReusablePath smallFrontend ref
  called := called
  trigger := stageTrigger

/-- The inputs of a call that passes one stage. -/
def stageInputs (stage : Text) : Dict (Value Int) := Dict.ofList [("stage".toList, .string stage)]

/-- The caller node of the top workflow. -/
def releaseNode : JobPlan Int :=
  callerNode smallFrontend smallLibrary topFile {} "release".toList releaseJob
    (smallCall releaseRef releaseFile) none ∅ (stageInputs "production".toList)

theorem coerced_release : coercedInputs smallFrontend releaseJob stageTrigger =
    .ok [("stage".toList, .string, .string "production".toList)] := rfl
theorem coerced_deploy : coercedInputs smallFrontend deployJob stageTrigger =
    .ok [("stage".toList, .string, .string "staging".toList)] := rfl

theorem expand_release : ∃ m, expandJob smallFrontend smallLibrary topFile {} none none
    "release".toList releaseJob = .ok [(releaseNode, m)] :=
  expandJob_call rfl
    (resolveCall_ok (by decide) rfl (by rw [lookup_release]; rfl) parse_release rfl)
    coerced_release rfl (fun _ => rfl) rfl

/-- The call of that node. -/
def releaseCall : ReusableCallPlan where
  uses := releaseRef
  workflowFile := normalizeReusablePath smallFrontend releaseRef
  workflowSha := none
  workflowRepository := none
  depth := 1

/-- The caller node of the workflow between, before it is lifted. -/
def deployNode : JobPlan Int :=
  callerNode smallFrontend smallLibrary releaseFile (calleeFrame releaseCall) "deploy".toList
    deployJob (smallCall deployRef deployFile) none ∅ (stageInputs "staging".toList)

theorem expand_deploy : ∃ m, expandJob smallFrontend smallLibrary releaseFile
    (calleeFrame releaseCall) (some releaseNode.inputs) none "deploy".toList deployJob =
      .ok [(deployNode, m)] :=
  expandJob_call rfl (resolveCall_ok (by decide) rfl (by rw [lookup_deploy]; rfl) parse_deploy rfl)
    coerced_deploy rfl (fun _ => rfl) rfl

/-- The caller node of the workflow between, under the top workflow. -/
def deployPlan : JobPlan Int := liftPlan releaseNode releaseCall deployNode

theorem release_reusableCall : releaseNode.reusableCall = some releaseCall := rfl

theorem expand_releaseCall : ∃ out,
    expandReusableCall smallFrontend smallLibrary releaseFile releaseNode = .ok out ∧
      out.jobs = [deployPlan] := by
  obtain ⟨m, hpart⟩ := expand_deploy
  exact expandReusableCall_single release_reusableCall rfl rfl hpart fun _ => rfl

theorem expanded_release :
    Expanded smallFrontend smallLibrary [secretsClause smallFrontend releaseJob] releaseNode := by
  obtain ⟨m, hpart⟩ := expand_release
  have hjob : ("release".toList, releaseJob) ∈ topFile.jobs := List.mem_cons_self
  exact .top hjob hpart List.mem_cons_self []

theorem expanded_deploy :
    Expanded smallFrontend smallLibrary
      [secretsClause smallFrontend releaseJob, secretsClause smallFrontend deployJob]
        deployPlan := by
  obtain ⟨m, hpart⟩ := expand_deploy
  obtain ⟨out, hout, _⟩ := expand_releaseCall
  exact .callee expanded_release release_reusableCall hout List.mem_cons_self hpart
    List.mem_cons_self

/-- The call of the innermost workflow. -/
def deployCall : ReusableCallPlan where
  uses := deployRef
  workflowFile := normalizeReusablePath smallFrontend deployRef
  workflowSha := none
  workflowRepository := none
  depth := 2

theorem deploy_reusableCall : deployPlan.reusableCall = some deployCall := rfl

theorem expand_run : ∃ raw : JobPlan Int, expandJob smallFrontend smallLibrary deployFile
    (calleeFrame deployCall) (some deployPlan.inputs) none "run".toList {} = .ok [(raw, none)] ∧
      raw.reusableCall = none :=
  ⟨_, rfl, rfl⟩

/-- The innermost workflow has one job, which calls nothing. -/
theorem expand_deployCall : ∃ out plan,
    expandReusableCall smallFrontend smallLibrary deployFile deployPlan = .ok out ∧
      plan ∈ out.jobs ∧ plan.reusableCall = none ∧
      Expanded smallFrontend smallLibrary
        [secretsClause smallFrontend releaseJob, secretsClause smallFrontend deployJob] plan := by
  obtain ⟨raw, hpart, hplain⟩ := expand_run
  obtain ⟨out, hout, hjobs⟩ := expandReusableCall_single deploy_reusableCall rfl rfl hpart
    fun _ => rfl
  refine ⟨out, liftPlan deployPlan deployCall raw, hout, ?_, hplain, ?_⟩
  · rw [hjobs]
    exact List.mem_cons_self
  · exact .callee expanded_deploy deploy_reusableCall hout List.mem_cons_self hpart
      List.mem_cons_self

/-! ## Isolation -/

/-- The map the direct caller passed: that of the last call that has one. A call that
    inherits passes on what its own workflow was given. -/
def passed (cs : List SecretsClause) : Dict Text :=
  ((cs.reverse.find? fun c => !c.inherit).map (·.map)).getD ∅

/-- All secrets only if every call of the chain says so, and otherwise only what the
    direct caller passed. -/
def Isolated (cs : List SecretsClause) (plan : JobPlan N) : Prop :=
  (plan.secretsInherit = true → ∀ c ∈ cs, c.inherit = true) ∧
    ((∃ c ∈ cs, c.inherit = false) →
      ∀ k v, plan.secretsMap.lookup k = some v → (passed cs).lookup k = some v)

/-- The chains along which secrets are passed down properly: every call inherits, or the
    outermost does not and for each name the outermost map that has it agrees with
    the map of the direct caller. -/
def PassedDown (cs : List SecretsClause) : Prop :=
  (∀ c ∈ cs, c.inherit = true) ∨
    (∀ c ∈ cs.head?, c.inherit = false) ∧
      ∀ k v, (cs.findSome? fun c => c.map.lookup k) = some v → (passed cs).lookup k = some v

/-- When a plan of a called workflow is isolated. -/
theorem secrets_isolated_iff {cs : List SecretsClause} {plan : JobPlan N}
    (h : Expanded frontend library cs plan) (hcs : cs ≠ []) :
    Isolated cs plan ↔ PassedDown cs := by
  obtain ⟨c, rest, rfl⟩ := List.exists_cons_of_ne_nil hcs
  have hs := h.secrets
  have hinherit : plan.secretsInherit = c.inherit := hs.inherit c rfl
  constructor
  · intro hiso
    by_cases hall : ∀ d ∈ c :: rest, d.inherit = true
    · exact .inl hall
    · -- some call passes a map, so the plan may not inherit
      have hfirst : c.inherit = false := by
        by_contra hc
        exact hall (hiso.1 (by rw [hinherit]; simpa using hc))
      refine .inr ⟨?_, ?_⟩
      · intro d hd
        cases hd
        exact hfirst
      · intro k v hv
        exact hiso.2 ⟨c, List.mem_cons_self, hfirst⟩ k v ((hs.map k).trans hv)
  · intro hdown
    obtain hall | ⟨hfirst, hmap⟩ := hdown
    · refine ⟨fun _ => hall, ?_⟩
      rintro ⟨d, hd, hfalse⟩
      rw [hall d hd] at hfalse
      cases hfalse
    · refine ⟨?_, ?_⟩
      · intro htrue
        rw [hinherit, hfirst c rfl] at htrue
        cases htrue
      · intro _ k v hv
        exact hmap k v ((hs.map k).symm.trans hv)

/-- A chain on which every call inherits, and one of two calls of which only the first does. -/
theorem release_isolated :
    Isolated [secretsClause smallFrontend releaseJob] releaseNode ∧
      ¬ Isolated [secretsClause smallFrontend releaseJob, secretsClause smallFrontend deployJob]
        deployPlan := by
  constructor
  · refine (secrets_isolated_iff expanded_release (List.cons_ne_nil _ _)).mpr (.inl fun c hc => ?_)
    rw [List.mem_singleton.mp hc]
    rfl
  · rw [secrets_isolated_iff expanded_deploy (List.cons_ne_nil _ _)]
    rintro (hall | ⟨hfirst, -⟩)
    · cases hall (secretsClause smallFrontend deployJob) (by simp)
    · cases hfirst (secretsClause smallFrontend releaseJob) rfl

/-- The innermost workflow was passed one key, but since the outermost call inherits its
    job gets every secret. -/
theorem mapped_callee_inherits :
    ¬ ∀ (cs : List SecretsClause) (plan : JobPlan Int),
      Expanded smallFrontend smallLibrary cs plan → cs ≠ [] → plan.reusableCall = none →
      Isolated cs plan := by
  intro h
  obtain ⟨out, plan, _, _, hplain, hplan⟩ := expand_deployCall
  have hiso := h _ plan hplan (List.cons_ne_nil _ _) hplain
  have hinherit : plan.secretsInherit = true := hplan.secrets.inherit _ rfl
  have hdeploy := hiso.1 hinherit (secretsClause smallFrontend deployJob) (by simp)
  cases hdeploy

/-! ## Inputs -/

/-- What the call of a job resolves to in one matrix cell, and the caller node of that
    cell: the `with:` of the job and the declared defaults, evaluated in the workflow
    that holds the job. -/
def CallResolves (frontend : Frontend N F) (library : Library) (workflow : WorkflowFile N)
    (frame : CallFrame) (inputs : Inputs N) (jobId : Text) (job : Job N) (node : JobPlan N)
    (resolved : Dict (Value N)) : Prop :=
  ∃ declared call coerced matrix cell, job.uses = some declared ∧
    resolveCall frontend library frame declared = .ok call ∧
    coercedInputs frontend job call.trigger = .ok coerced ∧
    frontend.expandMatrix jobId job.matrix
      (some (Dict.ofList (coerced.map fun e => (e.1, e.2.2)))) none = .ok matrix ∧
    cell ∈ matrix.intoCells.1 ∧
    callInputs frontend jobId coerced matrix.intoCells.2.isSome cell inputs none = .ok resolved ∧
    node = callerNode frontend library workflow frame jobId job call matrix.intoCells.2 cell
      resolved

/-- The plans of a callee hold the given inputs: its caller node, and every job planned
    from it that calls no further workflow. -/
def HoldsInputs (frontend : Frontend N F) (library : Library) (node : JobPlan N)
    (inputs : Dict (Value N)) : Prop :=
  (∀ k, node.inputs.lookup k = inputs.lookup k) ∧
    ∀ called out plan, expandReusableCall frontend library called node = .ok out →
      plan ∈ out.jobs → plan.reusableCall = none → ∀ k, plan.inputs.lookup k = inputs.lookup k

theorem inputs_of_caller {workflow : WorkflowFile N} {frame : CallFrame} {inputs : Inputs N}
    {jobId : Text} {job : Job N} {part : List (JobPlan N × Option (ReusableCallMetadata N))}
    (h : expandJob frontend library workflow frame inputs none jobId job = .ok part)
    (huses : job.uses.isSome = true) {raw : JobPlan N × Option (ReusableCallMetadata N)}
    (hraw : raw ∈ part) :
    CallResolves frontend library workflow frame inputs jobId job raw.1 raw.1.inputs := by
  obtain ⟨declared, hdeclared⟩ := Option.isSome_iff_exists.mp huses
  unfold expandJob at h
  simp only [hdeclared] at h
  unfold expandCaller at h
  obtain ⟨call, hcall, h⟩ := bind_eq_ok h
  obtain ⟨coerced, hcoerced, h⟩ := bind_eq_ok h
  obtain ⟨_, _, h⟩ := bind_eq_ok h
  obtain ⟨matrix, hmatrix, h⟩ := bind_eq_ok h
  obtain ⟨cell, hmem, hcell⟩ := exists_of_mem_mapM h hraw
  obtain ⟨resolved, hresolved, hcell⟩ := bind_eq_ok hcell
  cases hcell
  exact ⟨declared, call, coerced, matrix, cell, hdeclared, hcall, hcoerced, hmatrix, hmem,
    hresolved, rfl⟩

/-- The jobs of a callee have the inputs of its caller node. -/
theorem inputs_of_callee {called : WorkflowFile N} {node : JobPlan N} {out : ExpandedWorkflows N}
    (hout : expandReusableCall frontend library called node = .ok out) {plan : JobPlan N}
    (hplan : plan ∈ out.jobs) (hplain : plan.reusableCall = none) (k : Text) :
    plan.inputs.lookup k = node.inputs.lookup k := by
  obtain ⟨call, jobId, job, part, raw, _, _, hpart, hraw, rfl⟩ :=
    exists_of_mem_expandReusableCall hout hplan
  show (raw.1.inputs.extend node.inputs).lookup k = _
  rw [inputs_of_plain hpart hraw hplain, Dict.lookup_extend, Option.getD_some, Option.or_self]

theorem clauses_eq_nil {job : Job N} (h : job.uses.isSome = false) : job.clauses frontend = [] := by
  simp [Job.clauses, h]

/-- When a workflow called from a called workflow gets the inputs its own call resolved:
    if and only if every input passed to the calling workflow is, under the same name
    and with the same value, among them. -/
theorem nested_inputs_iff {called : WorkflowFile N} {caller plan : JobPlan N}
    {out : ExpandedWorkflows N} (hout : expandReusableCall frontend library called caller = .ok out)
    (hplan : plan ∈ out.jobs) (hnested : plan.reusableCall.isSome = true) :
    ∃ call jobId job node resolved,
      caller.reusableCall = some call ∧ (jobId, job) ∈ called.jobs ∧
      plan = liftPlan caller call node ∧
      CallResolves frontend library called (calleeFrame call) (some caller.inputs) jobId job node
        resolved ∧
      (HoldsInputs frontend library plan resolved ↔
        ∀ k v, caller.inputs.lookup k = some v → resolved.lookup k = some v) := by
  obtain ⟨call, jobId, job, part, raw, hcall, hjob, hpart, hraw, rfl⟩ :=
    exists_of_mem_expandReusableCall hout hplan
  -- the call of the plan is that of its job
  have huses : job.uses.isSome = true := by
    by_contra h
    exact (secrets_of_expandJob hpart hraw).caller hnested (clauses_eq_nil (by simpa using h))
  refine ⟨call, jobId, job, raw.1, raw.1.inputs, hcall, hjob, rfl,
    inputs_of_caller hpart huses hraw, ?_⟩
  -- the inputs of the caller win over those the call resolved
  have hnode : ∀ k, (liftPlan caller call raw.1).inputs.lookup k =
      (caller.inputs.lookup k).or (raw.1.inputs.lookup k) := fun k => Dict.lookup_extend _ _ k
  -- what the plan holds is what was resolved
  constructor
  · intro hholds k v hv
    have h := hholds.1 k
    rw [hnode, hv, Option.some_or] at h
    exact h.symm
  · intro hsame
    have hall : ∀ k, (liftPlan caller call raw.1).inputs.lookup k = raw.1.inputs.lookup k := by
      intro k
      rw [hnode]
      cases hv : caller.inputs.lookup k with
      | none => rfl
      | some v => rw [Option.some_or, hsame k v hv]
    refine ⟨hall, ?_⟩
    intro called' out' plan hout' hplan' hplain k
    rw [inputs_of_callee hout' hplan' hplain, hall]

/-- The inputs of the innermost workflow, in the chain above. -/
theorem deploy_inputs_iff : ∃ call jobId job node resolved,
    releaseNode.reusableCall = some call ∧ (jobId, job) ∈ releaseFile.jobs ∧
    deployPlan = liftPlan releaseNode call node ∧
    CallResolves smallFrontend smallLibrary releaseFile (calleeFrame call)
      (some releaseNode.inputs) jobId job node resolved ∧
    (HoldsInputs smallFrontend smallLibrary deployPlan resolved ↔
      ∀ k v, releaseNode.inputs.lookup k = some v → resolved.lookup k = some v) := by
  obtain ⟨out, hout, hjobs⟩ := expand_releaseCall
  have hplan : deployPlan ∈ out.jobs := hjobs ▸ List.mem_cons_self
  exact nested_inputs_iff hout hplan rfl

/-- The innermost workflow is called with the stage `staging`, but since the workflow
    between was called with `production` it gets that. -/
theorem outer_input_overrides :
    ¬ ∀ (called : WorkflowFile Int) (caller plan node : JobPlan Int) (call : ReusableCallPlan)
      (out : ExpandedWorkflows Int) (jobId : Text) (job : Job Int) (resolved : Dict (Value Int)),
      expandReusableCall smallFrontend smallLibrary called caller = .ok out → plan ∈ out.jobs →
      caller.reusableCall = some call → (jobId, job) ∈ called.jobs →
      plan = liftPlan caller call node →
      CallResolves smallFrontend smallLibrary called (calleeFrame call) (some caller.inputs) jobId
        job node resolved →
      HoldsInputs smallFrontend smallLibrary plan resolved := by
  intro h
  obtain ⟨out, hout, hjobs⟩ := expand_releaseCall
  obtain ⟨m, hpart⟩ := expand_deploy
  have hholds := h releaseFile releaseNode deployPlan deployNode releaseCall out _ deployJob _ hout
    (hjobs ▸ List.mem_cons_self) release_reusableCall List.mem_cons_self rfl
    (inputs_of_caller hpart rfl List.mem_cons_self)
  have hstage : deployPlan.inputs.lookup "stage".toList =
      some (.string "production".toList) := rfl
  have hstage' : deployNode.inputs.lookup "stage".toList = some (.string "staging".toList) := rfl
  have heq := hholds.1 "stage".toList
  rw [hstage, hstage'] at heq
  have htext : "production".toList = "staging".toList := Value.string.inj (Option.some.inj heq)
  revert htext
  decide

end Workflow

end Preloop
