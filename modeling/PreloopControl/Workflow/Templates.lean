import PreloopControl.Expressions.Eval

/-!
# Templates and Conditions

Texts of a workflow file that carry expressions. A template has marked spans that
are evaluated and replaced (`resolve_string`, `eval.rs`); a condition is one
expression, with or without the markers (`effective_condition`, `conditions.rs`).

Beside the two readers stands the collector of `secrets.rs`, which walks over
everything of a job that is evaluated and reports the secrets it names. It reads
both kinds of text with one scanner and its own idea of where a span ends.

## Main definitions

* `trimExpressionMarkers`, `evalExpression`, `evalBool`: One expression text.
* `findExpressionEnd`, `resolveString`: The template reader.
* `effectiveCondition`: The expression a condition stands for.
* `JobPlan`, `StepPlan`: What is planned for one job.
* `collectJobSecretReads`: The collector over a job.
-/

namespace Preloop

namespace Workflow

open Expressions

variable {N F : Type}

/-! ## Expressions in a text -/

/-- The opening marker. -/
def openMark : Text := "$\x7b\x7b".toList

/-- The closing marker. -/
def closeMark : Text := "\x7d\x7d".toList

/-- `Value::as_str`. -/
def asStr : Value N → Option Text
  | .string s => some s
  | _ => none

/-- `trim_expression_markers`. -/
def trimExpressionMarkers (t : Text) : Text :=
  match ((Text.trim t).dropPrefix? openMark).bind fun s => s.dropSuffix? closeMark with
  | some inner => Text.trim inner
  | none => Text.trim t

/-- `eval_expression`. -/
def evalExpression (engine : Engine N F) (t : Text) (ctx : Context N) : Result (Value N) := do
  let e ← parseExpression engine.parseNumber (trimExpressionMarkers t)
  evalFresh engine ctx e

/-- `eval_bool`. -/
def evalBool (engine : Engine N F) (t : Text) (ctx : Context N) : Result Bool :=
  (evalExpression engine t ctx).map (isTruthy engine)

/-- `collect_secret_reads`. -/
def collectSecretReads (engine : Engine N F) (t : Text) : Result SecretReads := do
  let e ← parseExpression engine.parseNumber (trimExpressionMarkers t)
  return collectSecretReadsFromExpr e {}

/-- `find_expression_end`: the expression before the first closing marker outside
    string literals, and the text after that marker. A doubled quote closes the
    literal and opens it again, which is where the source stands after skipping
    both. -/
def findExpressionEnd (inQuote : Bool) : Text → Option (Text × Text)
  | [] => none
  | c :: t =>
    if c = quote then (findExpressionEnd (!inQuote) t).map fun p => (c :: p.1, p.2)
    else if !inQuote && c = rbrace && t.head? = some rbrace then some ([], t.tail)
    else (findExpressionEnd inQuote t).map fun p => (c :: p.1, p.2)

/-- The errors of `resolve_string`. -/
inductive TemplateError
  | unclosed
  | expression (e : ExpressionError)

/-- The loop of `resolve_string`. -/
def resolveLoop (engine : Engine N F) (ctx : Context N) : Nat → Text → Except TemplateError Text
  | 0, remaining => .ok remaining
  | n + 1, remaining =>
    match Text.cut openMark remaining with
    | none => .ok remaining
    | some (before, after) =>
      match findExpressionEnd false after with
      | none => .error .unclosed
      | some (e, rest) => do
        let value ← (evalExpression engine (Text.trim e) ctx).mapError .expression
        let result ← resolveLoop engine ctx n rest
        return before ++ stringValue engine value ++ result

/-- `resolve_string`. -/
def resolveString (engine : Engine N F) (t : Text) (ctx : Context N) : Except TemplateError Text :=
  resolveLoop engine ctx t.length t

/-! ## Conditions -/

/-- What follows a string literal, after its opening quote. -/
def skipQuoted : Text → Text
  | [] => []
  | c :: t =>
    if c = quote then
      match t with
      | [] => []
      | c' :: t' => if c' = quote then skipQuoted t' else c' :: t'
    else skipQuoted t

/-- The identifiers `contains_status_check_function` looks for. -/
def isStatusFunction (word : Text) : Bool :=
  let lower := word.map Char.toLower
  lower = "success".toList || lower = "failure".toList || lower = "cancelled".toList ||
    lower = "always".toList

/-- Characters of a word, as `contains_status_check_function` reads it. -/
def wordPart (c : Char) : Bool := c = '_' || c.isAlphanum

/-- The loop of `contains_status_check_function`. -/
def statusCheckLoop : Nat → Text → Bool
  | 0, _ => false
  | _, [] => false
  | n + 1, c :: t =>
    if c = quote then statusCheckLoop n (skipQuoted t)
    else if identStart c then
      let rest := (t.dropWhile wordPart).dropWhile Text.isWhitespace
      (isStatusFunction (c :: t.takeWhile wordPart) && rest.head? = some '(') ||
        statusCheckLoop n rest
    else statusCheckLoop n t

/-- `contains_status_check_function`. -/
def containsStatusCheckFunction (t : Text) : Bool := statusCheckLoop t.length t

/-- `effective_condition`. -/
def effectiveCondition (raw : Option Text) : Text :=
  match raw with
  | none => "success()".toList
  | some condition =>
    if Text.trim condition = [] then "success()".toList
    else if containsStatusCheckFunction (trimExpressionMarkers condition) then
      trimExpressionMarkers condition
    else "success() && (".toList ++ (trimExpressionMarkers condition ++ ")".toList)

/-! ## Plans -/

/-- `StepPlan`, what is evaluated of it. -/
structure StepPlan (N : Type) where
  name : Option Text := none
  run : Option Text := none
  uses : Option Text := none
  env : Dict Text := ∅
  with_ : Dict (Value N) := ∅
  ifCondition : Option Text := none
  workingDirectory : Option Text := none
  shell : Option Text := none

/-- `ReusableCallPlan`. -/
structure ReusableCallPlan where
  uses : Text
  workflowFile : Text
  workflowSha : Option Text
  workflowRepository : Option Text
  depth : Nat

/-- `JobPlan`, without the fields that only reach the runner. -/
structure JobPlan (N : Type) where
  id : Text
  baseId : Text
  name : Text
  needs : List Text := []
  matrix : Dict (Value N) := ∅
  deferredMatrix : Option Text := none
  env : Dict Text := ∅
  steps : List (StepPlan N) := []
  ifCondition : Option Text := none
  secretsInherit : Bool := false
  container : Option (Value N) := none
  services : Option (Value N) := none
  inputs : Dict (Value N) := ∅
  workflowFile : Option Text := none
  workflowRef : Option Text := none
  workflowSha : Option Text := none
  workflowRepository : Option Text := none
  secretsMap : Dict Text := ∅
  jobOutputs : Dict Text := ∅
  oidcIdTokenGranted : Bool := false
  permissions : Option (Dict Text) := none
  oidcJobWorkflowRef : Option Text := none
  environment : Option (Value N) := none
  concurrencyGroup : Option Text := none
  concurrencyCancelInProgress : Option Text := none
  reusableCall : Option ReusableCallPlan := none

/-! ## The collector -/

section Collector

variable (engine : Engine N F)

/-- `collect_reads_from_expression`: what cannot be parsed may read anything. -/
def collectReadsFromExpression (t : Text) (reads : SecretReads) : SecretReads :=
  match collectSecretReads engine t with
  | .ok found =>
    { names := reads.names ∪ found.names, dynamic := reads.dynamic || found.dynamic }
  | .error _ => { reads with dynamic := true }

/-- The loop of `collect_reads_from_text`. A span ends at the first closing marker,
    string literal or not. -/
def collectTextLoop : Nat → Text → SecretReads → SecretReads
  | 0, _, reads => reads
  | n + 1, rest, reads =>
    match Text.cut openMark rest with
    | none => reads
    | some (_, after) =>
      match Text.cut closeMark after with
      | none => reads
      | some (e, rest) => collectTextLoop n rest (collectReadsFromExpression engine e reads)

/-- `collect_reads_from_text`. -/
def collectReadsFromText (t : Text) (reads : SecretReads) : SecretReads :=
  collectTextLoop engine t.length t reads

/-- `collect_reads_from_condition`. -/
def collectReadsFromCondition (t : Text) (reads : SecretReads) : SecretReads :=
  if Text.contains openMark t then collectReadsFromText engine t reads
  else collectReadsFromExpression engine t reads

mutual

/-- The texts `collect_reads_from_json` finds in a value, in order. -/
def jsonTexts : Value N → List Text
  | .string s => [s]
  | .array items => itemTexts items
  | .object fields => fieldTexts fields
  | _ => []

/-- The texts in the elements of an array. -/
def itemTexts : List (Value N) → List Text
  | [] => []
  | v :: vs => jsonTexts v ++ itemTexts vs

/-- The texts in the fields of an object. -/
def fieldTexts : List (Text × Value N) → List Text
  | [] => []
  | (_, v) :: fs => jsonTexts v ++ fieldTexts fs

end

/-- A place of a plan the collector looks at. -/
inductive ReadSite
  | text (t : Text)
  | condition (t : Text)
  | action (uses : Text)

/-- What the collector takes from a place. An action may read anything, unless it
    runs in its own image. -/
def ReadSite.collect (reads : SecretReads) : ReadSite → SecretReads
  | .text t => collectReadsFromText engine t reads
  | .condition t => collectReadsFromCondition engine t reads
  | .action uses =>
    if "docker://".toList.isPrefixOf uses then reads else { reads with dynamic := true }

/-- The places of `collect_reads_from_step`, in order. -/
def StepPlan.readSites (step : StepPlan N) : List ReadSite :=
  (step.name.toList ++ step.run.toList).map .text ++
    step.env.values.map .text ++
    (step.with_.values.flatMap jsonTexts).map .text ++
    step.ifCondition.toList.map .condition ++
    (step.workingDirectory.toList ++ step.shell.toList).map .text ++
    step.uses.toList.map .action

/-- The places of `collect_job_secret_reads`, in order. -/
def JobPlan.readSites (job : JobPlan N) : List ReadSite :=
  job.env.values.map .text ++
    job.ifCondition.toList.map .condition ++
    ((job.container.toList ++ job.services.toList ++ job.environment.toList).flatMap
      jsonTexts).map .text ++
    job.secretsMap.values.map .text ++
    job.jobOutputs.values.map .text ++
    (job.concurrencyGroup.toList ++ job.concurrencyCancelInProgress.toList ++ [job.name]).map
      .text ++
    job.steps.flatMap StepPlan.readSites

/-- `ENGINE_PROVIDED_SECRETS`. -/
def engineProvidedSecrets : List Text :=
  ["GITHUB_TOKEN", "ACTIONS_ID_TOKEN_REQUEST_TOKEN", "ACTIONS_ID_TOKEN_REQUEST_URL",
    "ACTIONS_RUNTIME_TOKEN", "ACTIONS_RUNTIME_URL", "ACTIONS_CACHE_URL",
    "ACTIONS_RESULTS_URL"].map String.toList

/-- `is_engine_provided`. -/
def isEngineProvided (name : Text) : Bool := engineProvidedSecrets.contains (name.map Char.toUpper)

/-- `collect_job_secret_reads`. -/
def collectJobSecretReads (job : JobPlan N) : SecretReads :=
  let reads := job.readSites.foldl (ReadSite.collect engine) {}
  { reads with names := reads.names.filter fun name => !isEngineProvided name }

end Collector

end Workflow

end Preloop
