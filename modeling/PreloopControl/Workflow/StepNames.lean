import PreloopControl.Workflow.TaskSteps

/-!
# The Names of the Steps

Every step of a job message has a name in the `steps` context (`job_builder.rs`). A step with an
`id` is called by it. The others are numbered: scripts together, the steps of an action among
themselves. A name that an earlier step has already gets the position of the step behind it.

## Main definitions

* `IdentifiedStep`: A step of a plan with its `id`.
* `contextNameOf`, `finalName`: The name of a step, and the one it gets.
* `buildSteps`: The steps of the message.
-/

namespace Preloop

namespace Workflow

open Expressions

variable {N F Id : Type}

/-- `StepPlan` with its `id`. -/
structure IdentifiedStep (N : Type) extends RunnerStep N where
  id : Option Text := none

/-- `run_counter` and `action_counters`. -/
structure NameCounters where
  runCounter : Nat := 0
  actionCounters : SortedMap Text Nat := ∅

/-- A text with a number behind it. -/
def suffixed (name : Text) (n : Nat) : Text := name ++ '_' :: Nat.toDigits 10 n

/-- The name of the first of its kind, and of a later one. -/
def numbered (base : Text) (counter : Nat) : Text :=
  if counter = 1 then base else suffixed base counter

/-- The action of a step, without its version. -/
def actionBase (uses : Text) : Text :=
  (uses.takeWhile (· ≠ '@')).map fun c => if c = '/' then '_' else c

/-- The name of the step at a position, and the counters behind it. -/
def contextNameOf (index : Nat) (step : IdentifiedStep N) (counters : NameCounters) :
    Text × NameCounters :=
  match step.id, step.uses, step.run with
  | some userId, _, _ => (userId, counters)
  | none, none, some _ =>
    let counter := counters.runCounter + 1
    (numbered "__run".toList counter, { counters with runCounter := counter })
  | none, some uses, _ =>
    let base := actionBase uses
    let counter := (counters.actionCounters.lookup base).getD 0 + 1
    (numbered ("__".toList ++ base) counter,
      { counters with actionCounters := counters.actionCounters.insert base counter })
  | none, none, none => (suffixed "__step".toList index, counters)

/-- The name a step gets. -/
def finalName (contextName : Text) (index : Nat) (usedNames : List Text) : Text :=
  if usedNames.contains contextName then suffixed contextName index else contextName

/-- The loop over the steps, from the one at a position on. -/
def buildStepsFrom (engine : Engine N F) (ctx : Context N) (fileId : U32) (ids : Nat → Id) :
    Nat → List (IdentifiedStep N) → NameCounters → List Text → List (TaskStep Id)
  | _, [], _, _ => []
  | index, step :: steps, counters, usedNames =>
    let named := contextNameOf index step counters
    let name := finalName named.1 index usedNames
    buildTaskStep engine step.toRunnerStep ctx (ids index) name fileId ::
      buildStepsFrom engine ctx fileId ids (index + 1) steps named.2 (name :: usedNames)

/-- The steps of `build_agent_job_message`, with the identifiers that are drawn for them. -/
def buildSteps (engine : Engine N F) (ctx : Context N) (fileId : U32) (ids : Nat → Id)
    (steps : List (IdentifiedStep N)) : List (TaskStep Id) :=
  buildStepsFrom engine ctx fileId ids 0 steps {} []

end Workflow

end Preloop
