import PreloopControl.Workflow.DeferredMatrix
import PreloopControl.Workflow.Templates

/-!
# Expansion of Reusable Workflows

The jobs of a workflow file become job plans (`expand.rs`). A job that calls
another workflow becomes one caller node per matrix cell, which holds what the
call passes on: inputs, secrets, permissions. When the node is due, the called
workflow is expanded in turn and its plans are lifted under the caller
(`expand_reusable_call`). Callers inside it stay nodes, so a chain of calls is
unrolled one level at a time.

A job whose matrix waits for its needs becomes one node as well. When the needs are done the
job is looked up once more in its file, and each cell of the matrix is planned like a job of
that file (`expand_deferred_matrix_job`). Inside of a called workflow nothing lifts these plans.

What is read from the file system of the parser, and what only shapes a plan
without passing anything between levels, is a parameter (`Frontend`): the YAML
reader, matrices, step planning and the validation of the job graph. Where such a part
is modelled elsewhere, `Frontend.complete` puts it in.

## Main definitions

* `WorkflowFile`, `Job`, `WorkflowCallTrigger`: A workflow file.
* `coerceValue`, `callInputs`: The inputs of a call.
* `expandJobsWithReusablesInternal`: The plans of one workflow.
* `liftPlan`, `expandReusableCall`: A called workflow under its caller.
* `expandDeferredReusableCall`: One call per cell of a late matrix.
* `expandDeferredMatrixJob`: One plan per cell of a late matrix.
* `Frontend.complete`: The parser with its matrices.
-/

namespace Preloop

namespace Workflow

open Expressions

variable {N F : Type}

/-! ## Workflow files -/

/-- `ParserError`, as far as it arises here. -/
inductive ParserError
  | yaml (message : Text)
  | invalidExpression (message : Text)
  | invalidJobCondition (jobId message : Text)
  | unknownNeed (jobId need : Text)
  | needsCycle (witness : Text)
  | missingReusableWorkflow (path : Text)
  | maxNestingDepthExceeded
  | missingWorkflowCallTrigger
  | undeclaredInput (name : Text)
  | missingRequiredInput (name : Text)
  | invalidInputValue (name value expectedType : Text)
  | undeclaredSecret (name : Text)
  | missingRequiredSecret (name : Text)

/-- `InputType`. -/
inductive InputType
  | string
  | number
  | boolean
  | choice
  | environment

/-- `InputDefinition`. -/
structure InputDefinition (N : Type) where
  inputType : InputType := .string
  required : Bool := false
  default : Option (Value N) := none

/-- `WorkflowCallTrigger`: declared inputs, secrets (and whether they are required)
    and outputs. -/
structure WorkflowCallTrigger (N : Type) where
  inputs : Dict (InputDefinition N) := ∅
  secrets : Dict Bool := ∅
  outputs : Dict Text := ∅

/-- `Concurrency`. -/
structure Concurrency where
  group : Text
  cancelInProgress : Option Text

/-- `Job`: a job as written. -/
structure Job (N : Type) where
  name : Option Text := none
  needs : List Text := []
  ifCondition : Option Text := none
  matrix : Option (Value N) := none
  concurrency : Option Concurrency := none
  env : Dict Text := ∅
  environment : Option (Value N) := none
  permissions : Option (Value N) := none
  steps : List (StepPlan N) := []
  uses : Option Text := none
  with_ : Dict (Value N) := ∅
  secrets : Option (Value N) := none
  container : Option (Value N) := none
  services : Option (Value N) := none
  outputs : Dict (Value N) := ∅

/-- `Workflow`: a workflow as written. -/
structure WorkflowFile (N : Type) where
  env : Dict Text := ∅
  permissions : Option (Value N) := none
  concurrency : Option Concurrency := none
  callTrigger : Option (WorkflowCallTrigger N) := none
  jobs : List (Text × Job N) := []

/-- `MatrixExpansion`. -/
inductive MatrixExpansion (N : Type)
  | combinations (cells : List (Dict (Value N)))
  | deferred (expression : Text)

/-- `MatrixExpansion::into_cells`. -/
def MatrixExpansion.intoCells : MatrixExpansion N → List (Dict (Value N)) × Option Text
  | .combinations cells => (cells, none)
  | .deferred expression => ([∅], some expression)

/-- The inputs of the workflow that is being expanded, if it has any. -/
abbrev Inputs (N : Type) := Option (Dict (Value N))

/-- The outputs of the needed jobs. -/
abbrev NeedsOutputs (N : Type) := Dict (Dict (Value N))

/-- The rest of the parser. -/
structure Frontend (N F : Type) where
  engine : Engine N F
  /-- `parse_workflow`, with `workflow_call_trigger` of the result. -/
  parseWorkflow : Text → Except ParserError (WorkflowFile N)
  /-- `expand_matrix`. -/
  expandMatrix : Text → Option (Value N) → Inputs N → Option Text →
    Except ParserError (MatrixExpansion N)
  /-- `resolve_deferred_matrix_cells`. -/
  resolveDeferredMatrixCells : Text → Text → NeedsOutputs N → Inputs N →
    Except ParserError (List (Dict (Value N)))
  /-- `display_job_name`. -/
  displayJobName : Text → Dict (Value N) → Text
  /-- The steps of a job by `step_plan`, with the errors of its other settings. -/
  stepPlans : Text → Job N → WorkflowFile N → Dict (Value N) → Inputs N → Bool →
    Except ParserError (List (StepPlan N))
  /-- `validate_job_plans`. -/
  validateJobPlans : List (JobPlan N) → Except ParserError Unit
  /-- `resolves_after_job_build`. -/
  resolvesAfterJobBuild : Text → Bool
  /-- The components of a path, joined again. -/
  normalizePath : Text → Text
  /-- A number as an input, integer or float. -/
  inputNumber : Text → Option N
  /-- The number zero. -/
  zeroNumber : N
  /-- The message of an error in a template. -/
  errorText : TemplateError → Text

/-- The workflow files of a run by reference, and the commits they were pinned to. -/
structure Library where
  reusableWorkflows : Dict Text := ∅
  reusableWorkflowShas : Dict Text := ∅

/-! ## References -/

/-- `is_local_workflow_ref`. -/
def isLocalWorkflowRef (uses : Text) : Bool :=
  "./".toList.isPrefixOf uses || "$/".toList.isPrefixOf uses

/-- `is_plain_segment`. -/
def isPlainSegment (segment : Text) : Bool :=
  segment ≠ [] && segment ≠ ".".toList && segment ≠ "..".toList &&
    segment.all fun c => c.isAlphanum || c = '-' || c = '_' || c = '.'

/-- `is_plain_path`. -/
def isPlainPath (path : Text) : Bool := path ≠ [] && (path.splitOn '/').all isPlainSegment

/-- `is_reusable_workflow_path`. -/
def isReusableWorkflowPath (path : Text) : Bool :=
  ".github/workflows/".toList.isPrefixOf path && isPlainPath path

/-- A reference without the mark of its own repository. -/
def stripLocal (uses : Text) : Option Text :=
  (uses.dropPrefix? "./".toList).or (uses.dropPrefix? "$/".toList)

/-- `same_repository_path`. -/
def sameRepositoryPath (uses : Text) : Option Text :=
  (stripLocal uses).filter isReusableWorkflowPath

/-- The owner and the repository of a reference, and what follows. -/
def ownerAndRepo (uses : Text) : Option (Text × Text) := do
  let (owner, rest) ← Text.cut ['/'] uses
  let (repo, _) ← Text.cut ['/'] rest
  return (owner, repo)

/-- `scope_same_repository_ref`. -/
def scopeSameRepositoryRef (uses origin originPin : Text) : Option Text := do
  let path ← sameRepositoryPath uses
  let (owner, repo) ← ownerAndRepo origin
  if !isPlainSegment owner || !isPlainSegment repo || !isPlainPath originPin then none
  else return owner ++ '/' :: repo ++ '/' :: path ++ '@' :: originPin

/-- What follows the last `@`. -/
def afterLastAt (t : Text) : Text :=
  match Text.cut ['@'] t.reverse with
  | some (after, _) => after.reverse
  | none => []

/-- `origin_pin`. -/
def originPin (library : Library) (origin : Text) : Text :=
  (library.reusableWorkflowShas.lookup origin).getD (afterLastAt origin)

/-- `callee_reference`. -/
def calleeReference (library : Library) (declared : Text) (origin : Option Text) :
    Except ParserError Text :=
  match origin with
  | none => .ok declared
  | some origin =>
    if isLocalWorkflowRef declared then
      match scopeSameRepositoryRef declared origin (originPin library origin) with
      | some uses => .ok uses
      | none => .error (.missingReusableWorkflow declared)
    else .ok declared

/-- `reusable_workflow_repository`. -/
def reusableWorkflowRepository (uses : Text) : Option Text :=
  if isLocalWorkflowRef uses then none
  else (ownerAndRepo uses).map fun p => p.1 ++ '/' :: p.2

/-- `normalize_reusable_path`. -/
def normalizeReusablePath (frontend : Frontend N F) (uses : Text) : Text :=
  let withoutRef := uses.takeWhile (· ≠ '@')
  frontend.normalizePath ((stripLocal withoutRef).getD withoutRef)

/-! ## Permissions -/

/-- `PERMISSION_SCOPES`. -/
def permissionScopes : List Text :=
  ["actions", "attestations", "checks", "contents", "deployments", "discussions", "id-token",
    "issues", "packages", "pages", "pull-requests", "repository-projects", "security-events",
    "statuses", "vulnerability-alerts"].map String.toList

/-- `READ_ONLY_SCOPES`. -/
def readOnlyScopes : List Text := ["vulnerability-alerts".toList]

/-- `DEFAULT_TOKEN_PERMISSIONS`. -/
def defaultTokenPermissions : Dict Text :=
  Dict.ofList [("contents".toList, "read".toList), ("metadata".toList, "read".toList),
    ("packages".toList, "read".toList)]

/-- One level for all scopes, where the scope has it. -/
def allScopes (level : Text) : Dict Text :=
  Dict.ofList <| permissionScopes.map fun scope =>
    (scope, if level = "write".toList && readOnlyScopes.contains scope then
      "read".toList else level)

/-- `resolve_permissions`. -/
def resolvePermissions (job workflow : Option (Value N)) : Option (Dict Text) :=
  match job.or workflow with
  | some (.string s) =>
    if s = "read-all".toList then some (allScopes "read".toList)
    else if s = "write-all".toList then some (allScopes "write".toList)
    else some ∅
  | some (.object fields) =>
    some (Dict.ofList (fields.filterMap fun e => (asStr e.2).map fun level => (e.1, level)))
  | _ => none

/-- `id_token_granted`. -/
def idTokenGranted (permissions : Option (Value N)) : Bool :=
  match permissions with
  | some (.string s) => s = "write-all".toList
  | some (.object fields) =>
    ((getField fields "id-token".toList).bind asStr).any (· = "write".toList)
  | _ => false

/-- The lower of two levels, if both grant something. -/
def lowerLevel (called caller : Text) : Option Text :=
  let grants (level : Text) : Bool := level = "write".toList || level = "read".toList
  if called = "write".toList && caller = "write".toList then some "write".toList
  else if grants called && grants caller then some "read".toList
  else none

/-- `intersect_permissions`, over the effective permissions of both sides. -/
def intersectPermissions (called caller : Option (Dict Text)) : Dict Text :=
  Dict.ofList <| (called.getD defaultTokenPermissions).entries.filterMap fun e => do
    let level ← (caller.getD defaultTokenPermissions).lookup e.1
    let level ← lowerLevel e.2 level
    return (e.1, level)

/-! ## Calls -/

section Expansion

variable (frontend : Frontend N F) (library : Library)

/-- A dictionary as a value. -/
def toObject (m : Dict (Value N)) : Value N := .object (m.entries.map fun e => (e.1, e.2))

/-- An input as the event payload has it. -/
def eventInput : Value N → Text
  | .string s => s
  | .bool b => (if b then "true" else "false").toList
  | .null => []
  | other => frontend.engine.jsonText other

/-- `expression_context`. -/
def expressionContext (matrix : Dict (Value N)) (inputs : Inputs N) (eventName : Option Text) :
    Context N :=
  let guess := if inputs.any (fun m => !m.entries.isEmpty) then "workflow_dispatch" else "push"
  let event : Text × Value N := ("event_name".toList, .string (eventName.getD guess.toList))
  match inputs with
  | none => { roots := Dict.ofList [("matrix".toList, toObject matrix),
      ("github".toList, .object [event])] }
  | some m =>
    let strings := m.entries.map fun e => (e.1, Value.string (eventInput frontend e.2))
    { roots := Dict.ofList [("matrix".toList, toObject matrix), ("inputs".toList, toObject m),
        ("github".toList, .object [event,
          ("event".toList, .object [("inputs".toList, .object strings)])])] }

/-- `resolved_job_name`. -/
def resolvedJobName (name : Option Text) (baseId : Text) (matrix : Dict (Value N))
    (inputs : Inputs N) : Text :=
  match name with
  | none => frontend.displayJobName baseId matrix
  | some raw =>
    match resolveString frontend.engine raw (expressionContext frontend matrix inputs none) with
    | .ok name => name
    | .error _ => raw

/-- `expanded_job_id`. -/
def expandedJobId (base : Text) (matrix : Dict (Value N)) : Text :=
  if matrix.entries.isEmpty then base
  else base ++ " (".toList ++ (", ".toList).intercalate (matrix.values.map fun
    | .string s => s
    | other => frontend.engine.jsonText other) ++ ")".toList

/-- A value that is one marked expression is left for later. -/
def isPlaceholder (t : Text) : Bool := openMark.isPrefixOf t && closeMark.isSuffixOf t

/-- `coerce_value`. -/
def coerceValue (value : Value N) (inputType : InputType) (inputName : Text) :
    Except ParserError (Value N) :=
  match inputType with
  | .boolean =>
    match value with
    | .bool b => .ok (.bool b)
    | .string s =>
      if isPlaceholder (Text.trim s) then .ok value
      else if Text.eqIgnoreAsciiCase (Text.trim s) "true".toList then .ok (.bool true)
      else if Text.eqIgnoreAsciiCase (Text.trim s) "false".toList then .ok (.bool false)
      else .error (.invalidInputValue inputName s "boolean".toList)
    | other => .error
        (.invalidInputValue inputName (frontend.engine.jsonText other) "boolean".toList)
  | .number =>
    match value with
    | .number n => .ok (.number n)
    | .string s =>
      if isPlaceholder (Text.trim s) then .ok value
      else match frontend.inputNumber (Text.trim s) with
        | some n => .ok (.number n)
        | none => .error (.invalidInputValue inputName s "number".toList)
    | other => .error
        (.invalidInputValue inputName (frontend.engine.jsonText other) "number".toList)
  | .string | .choice | .environment =>
    match value with
    | .string s => .ok (.string s)
    | other => .ok (.string (frontend.engine.jsonText other))

/-- The value of an input that is neither passed nor declared with a default. -/
def emptyInput : InputType → Value N
  | .string | .choice | .environment => .string []
  | .number => .number frontend.zeroNumber
  | .boolean => .bool false

/-- One input of a call: what `with:` says, else the declared default. -/
def coerceInput (job : Job N) (name : Text) (definition : InputDefinition N) :
    Except ParserError (Value N) :=
  match job.with_.entries.find? fun e => Text.eqIgnoreAsciiCase e.1 name with
  | some e => coerceValue frontend e.2 definition.inputType name
  | none =>
    match definition.default with
    | some value => .ok value
    | none =>
      if definition.required then .error (.missingRequiredInput name)
      else .ok (emptyInput frontend definition.inputType)

/-- One input in the caller's context. A value that is no expression, or that can only
    be known later, is left as it is. -/
def resolveInput (jobId name : Text) (context : Context N) (inputType : InputType)
    (coerced : Value N) : Except ParserError (Value N) :=
  match coerced with
  | .string raw =>
    if Text.contains openMark raw && !frontend.resolvesAfterJobBuild raw then
      match resolveString frontend.engine raw context with
      | .error e => .error (.invalidExpression ("job `".toList ++ jobId ++ "` input `".toList ++
          name ++ "` failed to evaluate: ".toList ++ frontend.errorText e))
      | .ok resolved =>
        match coerceValue frontend (.string resolved) inputType name with
        | .ok value => .ok value
        | .error _ => .ok coerced
    else .ok coerced
  | other => .ok other

/-- The first name that is not declared, up to case, is an error. -/
def checkDeclared (names declared : List Text) (error : Text → ParserError) :
    Except ParserError Unit :=
  match names.find? fun name => !declared.any fun k => Text.eqIgnoreAsciiCase k name with
  | some name => .error (error name)
  | none => .ok ()

/-- The inputs of a call before they are evaluated, with their types. -/
def coercedInputs (job : Job N) (trigger : WorkflowCallTrigger N) :
    Except ParserError (List (Text × InputType × Value N)) := do
  checkDeclared (job.with_.entries.map (·.1)) (trigger.inputs.entries.map (·.1)) .undeclaredInput
  trigger.inputs.entries.mapM fun e => do
    let value ← coerceInput frontend job e.1 e.2
    return (e.1, e.2.inputType, value)

/-- The inputs of a call in one matrix cell. While the matrix is deferred they are
    left unevaluated. -/
def callInputs (jobId : Text) (coerced : List (Text × InputType × Value N)) (deferred : Bool)
    (matrix : Dict (Value N)) (inputs : Inputs N) (eventName : Option Text) :
    Except ParserError (Dict (Value N)) :=
  if deferred then .ok (Dict.ofList (coerced.map fun e => (e.1, e.2.2)))
  else do
    let context := expressionContext frontend matrix inputs eventName
    let values ← coerced.mapM fun e => do
      let value ← resolveInput frontend jobId e.1 context e.2.1 e.2.2
      return (e.1, value)
    return Dict.ofList values

/-- What a call says under `secrets:`. -/
structure SecretsClause where
  inherit : Bool
  map : Dict Text

/-- `is_secrets_inherit`. -/
def isSecretsInherit (secrets : Option (Value N)) : Bool :=
  match secrets with
  | some (.string s) => s = "inherit".toList
  | _ => false

/-- The mapping under `secrets:`, if there is one. -/
def secretsObject (job : Job N) : Option (List (Text × Value N)) :=
  match job.secrets with
  | some (.object fields) => some fields
  | _ => none

/-- The secrets a call passes on. -/
def secretsClause (job : Job N) : SecretsClause :=
  if isSecretsInherit job.secrets then ⟨true, ∅⟩
  else ⟨false, Dict.ofList (((secretsObject job).getD []).map fun e =>
    (e.1, (asStr e.2).getD (frontend.engine.jsonText e.2)))⟩

/-- A call passes only declared secrets, and all required ones. -/
def checkSecrets (job : Job N) (trigger : WorkflowCallTrigger N) : Except ParserError Unit := do
  if isSecretsInherit job.secrets then return ()
  let names := ((secretsObject job).getD []).map (·.1)
  if !trigger.secrets.entries.isEmpty then
    checkDeclared names (trigger.secrets.entries.map (·.1)) .undeclaredSecret
  match trigger.secrets.entries.find? fun e =>
      e.2 && !names.any fun k => Text.eqIgnoreAsciiCase k e.1 with
  | some e => .error (.missingRequiredSecret e.1)
  | none => return ()

/-! ## One workflow -/

/-- `MAX_REUSABLE_WORKFLOW_DEPTH`. -/
def maxReusableWorkflowDepth : Nat := 9

/-- `CallFrame`: the depth below the top workflow, and the remote workflow this one was
    fetched from. -/
structure CallFrame where
  depth : Nat := 0
  origin : Option Text := none

/-- `ReusableCallMetadata`. -/
structure ReusableCallMetadata (N : Type) where
  callerJobId : Text
  outputDefinitions : Dict Text
  innerJobIds : List Text
  inputs : Dict (Value N)
  callerConcurrency : Option Concurrency
  embeddedConcurrency : Option Concurrency
  matrix : Dict (Value N)
  ifCondition : Option Text
  workflowSha : Option Text
  workflowRepository : Option Text

/-- `ExpandedWorkflows`. -/
structure ExpandedWorkflows (N : Type) where
  jobs : List (JobPlan N)
  reusableCalls : Dict (ReusableCallMetadata N)

/-- A call whose workflow was found and parsed. -/
structure ResolvedCall (N : Type) where
  uses : Text
  path : Text
  called : WorkflowFile N
  trigger : WorkflowCallTrigger N

/-- The workflow a call names. -/
def resolveCall (frame : CallFrame) (declared : Text) : Except ParserError (ResolvedCall N) := do
  if maxReusableWorkflowDepth ≤ frame.depth then .error .maxNestingDepthExceeded
  let uses ← calleeReference library declared frame.origin
  let path := normalizeReusablePath frontend uses
  match (library.reusableWorkflows.lookup uses).or (library.reusableWorkflows.lookup path) with
  | none => .error (.missingReusableWorkflow uses)
  | some yaml =>
    let called ← frontend.parseWorkflow yaml
    match called.callTrigger with
    | none => .error .missingWorkflowCallTrigger
    | some trigger => return ⟨uses, path, called, trigger⟩

/-- The caller node of one cell. -/
def callerNode (workflow : WorkflowFile N) (frame : CallFrame) (jobId : Text) (job : Job N)
    (call : ResolvedCall N) (deferred : Option Text) (matrix : Dict (Value N))
    (inputs : Dict (Value N)) : JobPlan N where
  id := expandedJobId frontend jobId matrix
  baseId := jobId
  name := resolvedJobName frontend job.name jobId matrix (some inputs)
  needs := job.needs
  matrix := matrix
  deferredMatrix := deferred
  env := workflow.env.extend job.env
  ifCondition := job.ifCondition
  secretsInherit := (secretsClause frontend job).inherit
  inputs := inputs
  workflowFile := some call.path
  workflowRef := some call.uses
  workflowSha := library.reusableWorkflowShas.lookup call.uses
  workflowRepository := reusableWorkflowRepository call.uses
  secretsMap := (secretsClause frontend job).map
  oidcIdTokenGranted := idTokenGranted (job.permissions.or workflow.permissions)
  permissions := resolvePermissions job.permissions workflow.permissions
  environment := job.environment
  reusableCall := some
    { uses := call.uses
      workflowFile := call.path
      workflowSha := library.reusableWorkflowShas.lookup call.uses
      workflowRepository := reusableWorkflowRepository call.uses
      depth := frame.depth + 1 }

/-- What is recorded of a caller node. -/
def callMetadata (job : Job N) (call : ResolvedCall N) (matrix inputs : Dict (Value N))
    (id : Text) : ReusableCallMetadata N where
  callerJobId := id
  outputDefinitions := call.trigger.outputs
  innerJobIds := []
  inputs := inputs
  callerConcurrency := job.concurrency
  embeddedConcurrency := call.called.concurrency
  matrix := matrix
  ifCondition := job.ifCondition
  workflowSha := library.reusableWorkflowShas.lookup call.uses
  workflowRepository := reusableWorkflowRepository call.uses

/-- The nodes of a job that calls a workflow. -/
def expandCaller (workflow : WorkflowFile N) (frame : CallFrame) (inputs : Inputs N)
    (eventName : Option Text) (jobId declared : Text) (job : Job N) :
    Except ParserError (List (JobPlan N × Option (ReusableCallMetadata N))) := do
  let call ← resolveCall frontend library frame declared
  let coerced ← coercedInputs frontend job call.trigger
  checkSecrets job call.trigger
  let values := Dict.ofList (coerced.map fun e => (e.1, e.2.2))
  let matrix ← frontend.expandMatrix jobId job.matrix (some values) eventName
  matrix.intoCells.1.mapM fun cell => do
    let resolved ← callInputs frontend jobId coerced matrix.intoCells.2.isSome cell inputs eventName
    let node := callerNode frontend library workflow frame jobId job call matrix.intoCells.2 cell
      resolved
    return (node, some (callMetadata library job call cell resolved node.id))

/-- `non_empty_services`. -/
def nonEmptyServices : Option (Value N) → Option (Value N)
  | some (.object []) => none
  | services => services

/-- `job_plan_from_job`, with the deferred matrix filled in. -/
def jobPlanFromJob (workflow : WorkflowFile N) (inputs : Inputs N) (jobId : Text) (job : Job N)
    (deferred : Option Text) (matrix : Dict (Value N)) : Except ParserError (JobPlan N) := do
  let steps ← frontend.stepPlans jobId job workflow matrix inputs deferred.isSome
  return {
    id := expandedJobId frontend jobId matrix
    baseId := jobId
    name := resolvedJobName frontend job.name jobId matrix inputs
    needs := job.needs
    matrix := matrix
    deferredMatrix := deferred
    env := workflow.env.extend job.env
    steps := steps
    ifCondition := job.ifCondition
    secretsInherit := false
    container := job.container
    services := nonEmptyServices job.services
    inputs := inputs.getD ∅
    secretsMap := ∅
    jobOutputs := Dict.ofList (job.outputs.entries.map fun e =>
      (e.1, (asStr e.2).getD (frontend.engine.jsonText e.2)))
    oidcIdTokenGranted := idTokenGranted (job.permissions.or workflow.permissions)
    permissions := resolvePermissions job.permissions workflow.permissions
    environment := job.environment
    concurrencyGroup := job.concurrency.map (·.group)
    concurrencyCancelInProgress := job.concurrency.bind (·.cancelInProgress) }

/-- The plans of one job. -/
def expandJob (workflow : WorkflowFile N) (frame : CallFrame) (inputs : Inputs N)
    (eventName : Option Text) (jobId : Text) (job : Job N) :
    Except ParserError (List (JobPlan N × Option (ReusableCallMetadata N))) :=
  match job.uses with
  | some declared =>
    expandCaller frontend library workflow frame inputs eventName jobId declared job
  | none => do
    let matrix ← frontend.expandMatrix jobId job.matrix inputs eventName
    matrix.intoCells.1.mapM fun cell => do
      let plan ← jobPlanFromJob frontend workflow inputs jobId job matrix.intoCells.2 cell
      return (plan, none)

/-- `expand_jobs_with_reusables_internal`. -/
def expandJobsWithReusablesInternal (workflow : WorkflowFile N) (frame : CallFrame)
    (inputs : Inputs N) (eventName : Option Text) : Except ParserError (ExpandedWorkflows N) := do
  let parts ← workflow.jobs.mapM fun e =>
    expandJob frontend library workflow frame inputs eventName e.1 e.2
  return {
    jobs := parts.flatten.map (·.1)
    reusableCalls := Dict.ofList (parts.flatten.filterMap fun p =>
      p.2.map fun m => (m.callerJobId, m)) }

/-! ## Under the caller -/

/-- `merge_job_conditions`. -/
def mergeJobConditions : Option Text → Option Text → Option Text
  | none, none => none
  | some condition, none => some condition
  | none, some condition => some condition
  | some outer, some inner =>
    some ("(".toList ++ Text.trim (trimExpressionMarkers outer) ++ ") && (".toList ++
      Text.trim (trimExpressionMarkers inner) ++ ")".toList)

/-- An id below that of the caller. -/
def underCaller (caller id : Text) : Text := caller ++ '/' :: id

/-- The needs of a lifted plan: its own under the caller, then the caller's. -/
def liftNeeds (caller : JobPlan N) (needs : List Text) : List Text :=
  caller.needs.foldl (fun needs need => if needs.contains need then needs else needs ++ [need])
    (needs.map (underCaller caller.id))

/-- One plan of a called workflow under its caller, as `expand_reusable_call` rewrites
    it. -/
def liftPlan (caller : JobPlan N) (call : ReusableCallPlan) (plan : JobPlan N) : JobPlan N :=
  { plan with
    id := underCaller caller.id plan.id
    baseId := underCaller caller.id plan.baseId
    needs := liftNeeds caller plan.needs
    env := plan.env.extend caller.env
    inputs := plan.inputs.extend caller.inputs
    secretsInherit := caller.secretsInherit
    secretsMap := plan.secretsMap.extend caller.secretsMap
    workflowFile := some call.workflowFile
    workflowRef := some call.uses
    workflowSha := call.workflowSha
    workflowRepository := call.workflowRepository
    ifCondition := mergeJobConditions caller.ifCondition plan.ifCondition
    oidcIdTokenGranted := plan.oidcIdTokenGranted && caller.oidcIdTokenGranted
    permissions := some (intersectPermissions plan.permissions caller.permissions)
    oidcJobWorkflowRef := some call.uses
    matrix := plan.matrix.extend caller.matrix
    name := caller.name ++ " / ".toList ++ plan.name }

/-- `validate_expanded_subtree`. -/
def validateExpandedSubtree (plans : List (JobPlan N)) (external : List Text) :
    Except ParserError Unit :=
  frontend.validateJobPlans <| plans.map fun plan =>
    { plan with needs := plan.needs.filter fun need => !external.contains need }

/-- The frame of a called workflow. -/
def calleeFrame (call : ReusableCallPlan) : CallFrame where
  depth := call.depth
  origin := if isLocalWorkflowRef call.uses then none else some call.uses

/-- `expand_reusable_call`. -/
def expandReusableCall (called : WorkflowFile N) (caller : JobPlan N) :
    Except ParserError (ExpandedWorkflows N) :=
  match caller.reusableCall with
  | none => .error (.invalidExpression ("job `".toList ++ caller.id ++
      "` is not a reusable-workflow caller".toList))
  | some call =>
    if caller.deferredMatrix.isSome then
      .error (.invalidExpression ("job `".toList ++ caller.id ++
        "` has a needs-deferred matrix; resolve it with ".toList ++
        "expand_deferred_reusable_call before materializing the callee subtree".toList))
    else do
      let inner ← expandJobsWithReusablesInternal frontend library called (calleeFrame call)
        (some caller.inputs) none
      let jobs := inner.jobs.map (liftPlan caller call)
      validateExpandedSubtree frontend jobs caller.needs
      return {
        jobs := jobs
        reusableCalls := Dict.ofList (inner.reusableCalls.entries.map fun e =>
          (underCaller caller.id e.1,
            { e.2 with callerJobId := underCaller caller.id e.2.callerJobId })) }

/-- The part of an id after its last separator. -/
def localId (id : Text) : Option Text :=
  if '/' ∈ id then some (id.rtakeWhile (· ≠ '/')) else none

/-- The job a caller node was planned from. -/
def callerJob (workflow : WorkflowFile N) (baseId : Text) : Option (Job N) :=
  (workflow.jobs.lookup baseId).or ((localId baseId).bind fun id => workflow.jobs.lookup id)

/-- The inputs of a call in a cell that was resolved late: its expressions are evaluated
    again. -/
def lateInputs (caller : JobPlan N) (job : Option (Job N)) (cell : Dict (Value N)) :
    Except ParserError (Dict (Value N)) :=
  match job with
  | none => .ok caller.inputs
  | some job =>
    job.with_.entries.foldlM (fun inputs e =>
      match e.2 with
      | .string raw =>
        if Text.contains openMark raw then
          match resolveString frontend.engine raw
              (expressionContext frontend cell (some caller.inputs) none) with
          | .ok resolved => .ok (AList.insert e.1 (.string resolved) inputs)
          | .error err => .error (.invalidExpression (frontend.errorText err))
        else .ok inputs
      | _ => .ok inputs) caller.inputs

/-- A caller node in one cell of its deferred matrix. -/
def deferredCell (workflow : WorkflowFile N) (caller : JobPlan N) (cell : Dict (Value N)) :
    Except ParserError (JobPlan N) := do
  let job := callerJob workflow caller.baseId
  let inputs ← lateInputs frontend caller job cell
  return { caller with
    id := expandedJobId frontend caller.id cell
    name := resolvedJobName frontend (job.bind (·.name)) caller.id cell (some caller.inputs)
    matrix := cell
    deferredMatrix := none
    inputs := inputs }

/-- `expand_deferred_reusable_call`. -/
def expandDeferredReusableCall (called callerWorkflow : WorkflowFile N) (caller : JobPlan N)
    (needsOutputs : NeedsOutputs N) : Except ParserError (ExpandedWorkflows N) :=
  match caller.reusableCall, caller.deferredMatrix with
  | none, _ => .error (.invalidExpression ("job `".toList ++ caller.id ++
      "` is not a reusable-workflow caller".toList))
  | some _, none => .error (.invalidExpression ("job `".toList ++ caller.id ++
      "` has no deferred matrix to resolve".toList))
  | some _, some expression => do
    let cells ← frontend.resolveDeferredMatrixCells caller.baseId expression needsOutputs
      (some caller.inputs)
    let parts ← cells.mapM fun cell => do
      let plan ← deferredCell frontend callerWorkflow caller cell
      expandReusableCall frontend library called plan
    return {
      jobs := parts.flatMap (·.jobs)
      reusableCalls := parts.foldl (fun calls part => calls.extend part.reusableCalls) ∅ }

/-- The needs of a cell, under the callers of its node. -/
def cellNeeds (jobId : Text) (needs : List Text) : List Text :=
  needs.map fun need => jobId.rdropWhile (· ≠ '/') ++ need

/-- `expand_deferred_matrix_job`. -/
def expandDeferredMatrixJob (workflow : WorkflowFile N) (jobId expression : Text)
    (needsOutputs : NeedsOutputs N) (inputs : Inputs N) : Except ParserError (List (JobPlan N)) :=
  match callerJob workflow jobId with
  | none => .error (.invalidExpression ("job `".toList ++ jobId ++
      "` not found in workflow".toList))
  | some job => do
    let cells ← frontend.resolveDeferredMatrixCells jobId expression needsOutputs inputs
    cells.mapM fun cell => do
      let plan ← jobPlanFromJob frontend workflow inputs jobId job none cell
      return { plan with needs := cellNeeds jobId plan.needs }

end Expansion

/-! ## The parser with its matrices -/

/-- The fields of a dictionary. -/
def fieldsOf {V : Type} (m : Dict V) : List (Text × V) := m.entries.map fun e => (e.1, e.2)

/-- An expansion of `expand_matrix`. -/
def matrixExpansion : Matrices.Expansion N → MatrixExpansion N
  | .combinations cells => .combinations (cells.map Dict.ofList)
  | .deferred expression => .deferred expression

/-- A parser with `expand_matrix`, `resolve_deferred_matrix_cells` and
    `resolves_after_job_build`. How a `matrix:` is read, and which error of the parser an error of
    these is, is given. -/
def Frontend.complete [BEq N] (frontend : Frontend N F)
    (readMatrix : Value N → Matrices.MatrixValue N)
    (cellsError : Matrices.CellsError → ParserError) : Frontend N F :=
  { frontend with
    expandMatrix := fun jobId matrix inputs eventName =>
      ((Matrices.expandMatrix frontend.engine jobId (matrix.map readMatrix) (inputs.map fieldsOf)
        eventName).mapError fun e => cellsError (.matrix e)).map matrixExpansion
    resolveDeferredMatrixCells := fun jobId expression needsOutputs inputs =>
      ((Matrices.resolveDeferredMatrixCells frontend.engine jobId expression
        ((fieldsOf needsOutputs).map fun e => (e.1, fieldsOf e.2))
        (inputs.map fieldsOf)).mapError cellsError).map fun cells => cells.map Dict.ofList
    resolvesAfterJobBuild := Workflow.resolvesAfterJobBuild frontend.engine.parseNumber }

end Workflow

end Preloop
