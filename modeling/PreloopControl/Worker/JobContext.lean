import PreloopControl.Lib.SortedMap
import PreloopControl.Workflow.Templates

/-!
# Job Context

What the steps of a job share while the worker runs them (`contexts.rs`), and how the parsed
file commands of a step change it (`file_commands.rs`). The file commands themselves are read
and parsed in a module of their own; here they are lists of entries.

Of a problem matcher's definition only the regular expressions are kept.

## Main definitions

* `JobContext`: What steps read and write.
* `JobContext.putEnvs`, `JobContext.addPaths`, `JobContext.attachOutputs`,
  `JobContext.saveFileState`: One file applied to the job.
-/

namespace Preloop

namespace Worker

open Expressions

/-! ## What is kept of a step -/

/-- `JobStatus`. -/
inductive JobStatus
  | success
  | failure
  | cancelled
deriving DecidableEq, Repr

/-- The words for the outcome and for the conclusion of a step. -/
inductive Conclusion
  | success
  | failure
  | cancelled
  | skipped
deriving DecidableEq, Repr

/-- `StepResult`. -/
structure StepResult where
  outcome : Conclusion
  conclusion : Conclusion
  outputs : SortedMap Text Text

/-- `AnnotationLevel`. -/
inductive AnnotationLevel
  | notice
  | warning
  | error
deriving DecidableEq, Repr

/-- `Annotation`. -/
structure Annotation where
  level : AnnotationLevel
  message : Text
  title : Option Text
  file : Option Text
  line : Option Nat
  endLine : Option Nat
  col : Option Nat
  endColumn : Option Nat
deriving DecidableEq, Repr

/-- `ArtifactSubject`. -/
structure ArtifactSubject where
  name : Text
  digest : Text
  kind : Text
deriving DecidableEq, Repr

/-- `ProblemMatcher`: its patterns, and how far a match over several lines has come. -/
structure ProblemMatcher where
  owner : Text
  patterns : List Text
  fromPath : Text
  state : List (Option Text)
deriving DecidableEq, Repr

/-! ## The job -/

/-- `JobContext`, with the two features of its variables that decide what steps change. -/
structure JobContext where
  env : SortedMap Text Text
  extraPath : List Text
  steps : SortedMap Text StepResult
  masks : List Text
  jobStatus : JobStatus
  state : SortedMap Text (SortedMap Text Text)
  stepAnnotations : SortedMap Text (List Annotation)
  jobAnnotations : List Annotation
  matchers : SortedMap Text ProblemMatcher
  artifactSubjects : SortedMap Text ArtifactSubject
  artifactsFeatureEnabled : Bool
  sendJobLevelAnnotationsEnabled : Bool

namespace JobContext

/-- `new`, and the environment injected before the first step. -/
def new (env : SortedMap Text Text) (masks : List Text)
    (artifactsFeatureEnabled sendJobLevelAnnotationsEnabled : Bool) : JobContext where
  env := env
  extraPath := []
  steps := ∅
  masks := masks
  jobStatus := .success
  state := ∅
  stepAnnotations := ∅
  jobAnnotations := []
  matchers := ∅
  artifactSubjects := ∅
  artifactsFeatureEnabled := artifactsFeatureEnabled
  sendJobLevelAnnotationsEnabled := sendJobLevelAnnotationsEnabled

/-- `job.steps.insert`. -/
def setStep (name : Text) (result : StepResult) (job : JobContext) : JobContext :=
  { job with steps := job.steps.insert name result }

/-- `job.state.entry(step_id).or_default()`, extended. -/
def saveState (stepId : Text) (state : List (Text × Text)) (job : JobContext) : JobContext :=
  let saved := (job.state.lookup stepId).getD ∅
  { job with state := job.state.insert stepId (state.foldl (fun m e => m.insert e.1 e.2) saved) }

end JobContext

/-! ## File commands -/

/-- `NODE_OPTIONS` is not set through a file. -/
def blockedEnv (key : Text) : Bool := Text.eqIgnoreAsciiCase key "NODE_OPTIONS".toList

/-- One variable of `GITHUB_ENV`. -/
def putEnv (env : SortedMap Text Text) (entry : Text × Text) : SortedMap Text Text :=
  if blockedEnv entry.1 then env else env.insert entry.1 entry.2

/-- `ARTIFACTS_MAX_AGGREGATE`. -/
def artifactsMaxAggregate : Nat := 500

/-- The step that state saved in a file belongs to: the owner of a lifecycle step. -/
def stateStepId (stepId : Text) : Text :=
  ((stepId.dropPrefix? "__pre_".toList).or (stepId.dropPrefix? "__post_".toList)).getD stepId

namespace JobContext

/-- The variables of `GITHUB_ENV`. -/
def putEnvs (vars : List (Text × Text)) (job : JobContext) : JobContext :=
  { job with env := vars.foldl putEnv job.env }

/-- The paths of `GITHUB_PATH`, in their order and before all others. -/
def addPaths (paths : List Text) (job : JobContext) : JobContext :=
  { job with extraPath := paths ++ job.extraPath }

/-- The outputs of `GITHUB_OUTPUT`, attached to the recorded step. -/
def attachOutputs (stepId : Text) (outputs : List (Text × Text)) (job : JobContext) : JobContext :=
  match job.steps.lookup stepId with
  | some result =>
    job.setStep stepId
      { result with outputs := outputs.foldl (fun m e => m.insert e.1 e.2) result.outputs }
  | none => job

/-- The state of `GITHUB_STATE`, saved for the owner. -/
def saveFileState (stepId : Text) (state : List (Text × Text)) (job : JobContext) : JobContext :=
  if state = [] then job else job.saveState (stateStepId stepId) state

end JobContext

end Worker

end Preloop
