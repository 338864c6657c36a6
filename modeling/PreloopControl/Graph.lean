import PreloopControl.Statements

/-!
# Needs and the Run Graph

The view of a run that dependency decisions read (`jobs::RunGraph`): the rows
that count, an expanded matrix parent being replaced by its legs, with their
statuses, base ids, needs and outputs.

A declared need names a job id or a base id, so it may match several rows.
`dependencyDecision` is the verdict of the promotion sweep on one blocked job,
taken from a graph that was read before the sweep began to write.

## Main definitions

* `RunGraph`: The rows that count for a run.
* `RunGraph.matching`: The rows a declared need stands for.
* `RunGraph.ancestorStatuses`: Statuses over the transitive needs.
* `dependencyDecision`: Run, skip, fail or wait.
-/

namespace Preloop

/-- `RunGraph`: the leaf rows of a run. -/
abbrev RunGraph := List Job

/-- `DependencyDecision`. -/
inductive DependencyDecision
  | run
  | skip
  | error
  | wait
deriving DecidableEq, Repr

namespace RunGraph

/-- `matching`: the rows with this id or this base id. -/
def matching (graph : RunGraph) (need : JobId) : List Job :=
  graph.filter fun j => j.jobId = need || j.baseId = need

/-- `matching_statuses`. -/
def matchingStatuses (graph : RunGraph) (need : JobId) : List ExecutionStatus :=
  (graph.matching need).map Job.status

/-- The rows matched by the needs of some rows. -/
def parents (graph : RunGraph) (ids : List JobId) : List JobId :=
  (graph.filter fun j => ids.contains j.jobId).flatMap fun j =>
    j.needs.flatMap fun need => (graph.matching need).map Job.jobId

/-- The rows reached from some rows by at most `n` need edges. -/
def reach (graph : RunGraph) : Nat → List JobId → List JobId
  | 0, ids => ids
  | n + 1, ids => graph.reach n (ids ++ graph.parents ids).eraseDups

/-- `ancestor_statuses`: the statuses over all transitive needs. A path without
    repetition is no longer than the graph, which bounds the worklist. -/
def ancestorStatuses (graph : RunGraph) (needs : List JobId) : List ExecutionStatus :=
  let start := needs.flatMap fun need => (graph.matching need).map Job.jobId
  let reached := graph.reach graph.length start
  (graph.filter fun j => reached.contains j.jobId).map Job.status

/-- One row per declared need that is settled: aggregated over its matches, with
    the outputs of the later match winning. -/
def needRows (graph : RunGraph) (needs : List JobId) : List NeedRow :=
  needs.filterMap fun need =>
    (aggregateNeedStatus (graph.matchingStatuses need)).map fun status =>
      ⟨need, status, (graph.matching need).flatMap fun j => j.outputs.getD []⟩

end RunGraph

/-- `dependency_decision`. A job without needs runs whatever its condition says:
    that one was decided when the job was submitted. -/
def dependencyDecision (ev : Evaluators) (graph : RunGraph) (j : Job) : DependencyDecision :=
  if j.needs.isEmpty then .run
  else
    let direct := j.needs.flatMap graph.matchingStatuses
    if direct.isEmpty || direct.any fun st => !st.isTerminal then .wait
    else
      let aggregate := (aggregateNeedStatus (graph.ancestorStatuses j.needs)).getD .skipped
      match ev.evalBool j.spec.ifCondition j.conditionContext aggregate
          (graph.needRows j.needs) with
      | some true => .run
      | some false => .skip
      | none => .error

end Preloop
