import PreloopControl.Lib.SortedMap
import PreloopControl.Workflow.Tokens

/-!
# Task Steps

The steps of a job message (`azdo/job.rs`), as they are built from the steps of a job plan
(`job_builder.rs`). Values of the message are JSON; numbers on this wire are unsigned.

## Main definitions

* `TaskStep`: A step of a job message.
* `buildTaskStep`: The step of a plan.
-/

namespace Preloop

namespace Workflow

open Expressions

variable {N F Id : Type}

/-! ## JSON -/

/-- `serde_json::Value`, its numbers unsigned. -/
abbrev Json := Value Nat

/-- `u32`. -/
abbrev U32 := Fin (2 ^ 32)

/-- `BTreeMap<String, String>`. -/
abbrev StringMap := SortedMap Text Text

/-- `Value::as_array`. -/
def asArray : Json → Option (List Json)
  | .array items => some items
  | _ => none

/-- `Value::get` under a field name. -/
def jsonGet (value : Json) (key : String) : Option Json :=
  match value with
  | .object fields => getField fields key.toList
  | _ => none

/-- A text as a JSON string. -/
def jsonStr (s : String) : Json := .string s.toList

/-- An entry that is always there. -/
def entry (key : String) (value : Json) : Text × Json := (key.toList, value)

/-! ## References -/

/-- `TaskReference`. -/
structure TaskReference (Id : Type) where
  id : Option Id := none
  name : Option Text := none
  path : Option Text := none
  version : Option Text := none
  referenceType : Option Text := none

/-- The type of the reference of an image. -/
def registryType : Text := "containerRegistry".toList

/-- The type of the reference of a repository. -/
def repositoryType : Text := "repository".toList

/-! ## Steps -/

/-- `TaskStep`. -/
structure TaskStep (Id : Type) where
  id : Id
  name : Option Text
  contextName : Option Text
  displayName : Option Text
  displayNameToken : Option Json
  condition : Option Text
  script : Option Text
  reference : Option (TaskReference Id)
  inputs : StringMap
  env : StringMap
  continueOnError : Option Bool
  shell : Option Text
  workingDirectory : Option Text
  timeoutInMinutes : Option U32
  fileId : U32

/-! ## The job builder -/

/-- `StepPlan` with the fields that only reach the runner. -/
structure RunnerStep (N : Type) extends StepPlan N where
  continueOnError : Option Bool := none
  timeoutInMinutes : Option U32 := none

/-- `runner_condition`. -/
def runnerCondition (condition : Text) : Text :=
  ((((Text.trim condition).dropPrefix? openMark).bind fun s => s.dropSuffix? closeMark).map
    Text.trim).getD condition

/-- `step_input_to_string`. -/
def stepInputToString (engine : Engine N F) : Value N → Text
  | .string value => value
  | other => engine.jsonText other

/-- The reference `build_task_step` derives from `uses`. -/
def usesReference (uses : Text) : TaskReference Id :=
  match uses.dropPrefix? "docker://".toList with
  | some image => { name := some image, referenceType := some registryType }
  | none =>
    if "./".toList.isPrefixOf uses || ".\\".toList.isPrefixOf uses then
      { path := some uses, referenceType := some repositoryType }
    else match Text.cut ['@'] uses with
      | some (name, version) => { name := some name, version := some version }
      | none => { name := some uses }

/-- The text with its expressions resolved, or as it is. -/
def resolveOrKeep (engine : Engine N F) (ctx : Context N) (t : Text) : Text :=
  match resolveString engine t ctx with
  | .ok s => s
  | .error _ => t

/-- `build_task_step`, with the context name the caller sets. -/
def buildTaskStep (engine : Engine N F) (step : RunnerStep N) (ctx : Context N) (id : Id)
    (contextName : Text) (fileId : U32) : TaskStep Id where
  id := id
  name := step.name
  contextName := some contextName
  displayName := step.name
  displayNameToken := step.name.map fun n => .object [entry "type" (.number 0),
    entry "lit" (.string n), entry "col" (.number 0), entry "file" (.number fileId),
    entry "line" (.number 0)]
  condition := some ((step.ifCondition.map runnerCondition).getD "success()".toList)
  script := step.run
  reference := step.uses.map usesReference
  inputs := SortedMap.ofList (step.with_.entries.map fun e => (e.1, stepInputToString engine e.2))
  env := SortedMap.ofList (step.env.entries.map fun e => (e.1, e.2))
  continueOnError := step.continueOnError
  shell := step.shell.map (resolveOrKeep engine ctx)
  workingDirectory := step.workingDirectory.map (resolveOrKeep engine ctx)
  timeoutInMinutes := step.timeoutInMinutes
  fileId := fileId

end Workflow

end Preloop
