import PreloopControl.Lib.Worklist
import PreloopControl.Graph
import PreloopControl.ReusableOutputs
import PreloopControl.Workflow.Templates

/-!
# Dependency Decisions

Whether a job with needs may start is decided in three places: `logic.rs` and
`runtime_scheduling.rs` decide on the record of a run, `promote.rs` on the graph that
`jobs::run_graph` loads. A need stands for the jobs with its id or base id. If all of these
are settled, the status over all transitive needs sets the status functions, the results and
merged outputs of the needs become the root `needs`, and the condition decides.

The copies differ in how the outputs of the jobs that one need stands for are merged. The
record goes into a `serde_json::Map`, which keeps its fields in the order they came in, and
the graph into a `BTreeMap`.

## Main definitions

* `JobRows`: Statuses, base ids and needs, the part that both have.
* `JobRows.matchingIds`, `JobRows.ancestorStatuses`: What needs stand for.
* `RunRecord`, `RunGraph`: The two views of a run.
* `RunRecord.needsJsonContext`, `needsContext`: The root `needs`.
* `Logic.dependencyDecision`, `RuntimeScheduling.dependencyDecision`,
  `Promote.dependencyDecision`: The three decisions.

## Theorems

* `JobRows.exists_ancestors`: The search for transitive needs ends.
* `JobRows.mem_ancestors`: It finds the transitive needs.
-/

namespace Preloop

namespace Dependencies

open Expressions Workflow

/-! ## What needs stand for -/

/-- The jobs of a run, their base ids and their needs. -/
structure JobRows where
  statuses : SortedMap JobId ExecutionStatus
  baseIds : SortedMap JobId String
  needs : SortedMap JobId (List JobId)

namespace JobRows

/-- The ids of the jobs. -/
def ids (rows : JobRows) : List JobId := rows.statuses.entries.map (·.1)

/-- `matching_need_ids`, `RunGraph::matching`: the jobs with this id or this base id. -/
def matchingIds (rows : JobRows) (need : JobId) : List JobId :=
  rows.ids.filter fun id => id = need || (rows.baseIds.lookup id).any fun base => base = need

/-- `matching_need_statuses`, `RunGraph::matching_statuses`. -/
def matchingStatuses (rows : JobRows) (need : JobId) : List ExecutionStatus :=
  (rows.matchingIds need).filterMap rows.statuses.lookup

/-- The jobs that some needs stand for. -/
def matchingAll (rows : JobRows) (needs : List JobId) : List JobId :=
  needs.flatMap rows.matchingIds

/-- The jobs that the needs of a job stand for. -/
def parents (rows : JobRows) (id : JobId) : List JobId :=
  rows.matchingAll ((rows.needs.lookup id).getD [])

/-- How often the stack of `ancestor_statuses` is popped at most. -/
def pops (rows : JobRows) (needs : List JobId) : Nat :=
  (rows.matchingAll needs).length + (rows.ids.map fun id => (rows.parents id).length).sum

/-- The jobs that `ancestor_statuses` visits, in this order. -/
def ancestors (rows : JobRows) (needs : List JobId) : Option (List JobId) :=
  Worklist.visit rows.parents (rows.pops needs) (rows.matchingAll needs).reverse ∅

/-- `ancestor_statuses`. -/
def ancestorStatuses (rows : JobRows) (needs : List JobId) : List ExecutionStatus :=
  ((rows.ancestors needs).getD []).filterMap rows.statuses.lookup

theorem ids_nodup (rows : JobRows) : rows.ids.Nodup :=
  List.pairwise_map.mpr (rows.statuses.sorted.imp fun h => ne_of_lt h)

theorem mem_ids {rows : JobRows} {id : JobId} :
    id ∈ rows.ids ↔ ∃ status, rows.statuses.lookup id = some status := by
  rw [ids, List.mem_map]
  constructor
  · rintro ⟨⟨id', status⟩, hmem, rfl⟩
    exact ⟨status, SortedMap.lookup_of_mem hmem⟩
  · rintro ⟨status, hstatus⟩
    exact ⟨(id, status), SortedMap.mem_of_lookup hstatus, rfl⟩

theorem mem_ids_of_matching {rows : JobRows} {need id : JobId} (h : id ∈ rows.matchingIds need) :
    id ∈ rows.ids := List.mem_of_mem_filter h

theorem mem_ids_of_matchingAll {rows : JobRows} {needs : List JobId} {id : JobId}
    (h : id ∈ rows.matchingAll needs) : id ∈ rows.ids := by
  rcases List.mem_flatMap.mp h with ⟨need, _, hid⟩
  exact mem_ids_of_matching hid

/-- The search for transitive needs ends. -/
theorem exists_ancestors (rows : JobRows) (needs : List JobId) :
    ∃ order, rows.ancestors needs = some order := by
  refine Worklist.exists_visit rows.ids.toFinset ?_ ?_ ?_
  · exact fun _ _ parent hparent => List.mem_toFinset.mpr (mem_ids_of_matchingAll hparent)
  · exact fun id hid => List.mem_toFinset.mpr (mem_ids_of_matchingAll (List.mem_reverse.mp hid))
  · rw [Finset.sdiff_empty, List.sum_toFinset _ rows.ids_nodup, List.length_reverse, pops]

/-- The search finds the jobs that transitive needs stand for. -/
theorem mem_ancestors {rows : JobRows} {needs order : List JobId}
    (h : rows.ancestors needs = some order) (id : JobId) :
    id ∈ order ↔ ∃ start ∈ rows.matchingAll needs,
      Relation.ReflTransGen (fun job parent => parent ∈ rows.parents job) start id := by
  rw [Worklist.mem_visit h]
  simp only [List.mem_reverse]

/-- The job has a row and is settled. -/
def Settled (rows : JobRows) (id : JobId) : Prop :=
  ∃ status, rows.statuses.lookup id = some status ∧ status.isTerminal = true

end JobRows

/-! ## The two views of a run -/

/-- `RunRecord`, as far as needs go. -/
structure RunRecord (V : Type) extends Preloop.RunRecord V where
  jobBaseIds : SortedMap JobId String
  jobNeeds : SortedMap JobId (List JobId)

/-- `RunGraph`. -/
structure RunGraph (V : Type) extends JobRows where
  outputs : SortedMap JobId (SortedMap String V)

/-- The jobs of a record. -/
def RunRecord.rows {V : Type} (run : RunRecord V) : JobRows where
  statuses := run.jobs
  baseIds := run.jobBaseIds
  needs := run.jobNeeds

/-- The graph with the rows and the outputs of a record. -/
def RunRecord.graph {V : Type} (run : RunRecord V) : RunGraph V where
  toJobRows := run.rows
  outputs := run.jobOutputs

/-- `QueuedJob`, as far as its decision goes. -/
structure QueuedJob (N : Type) where
  needs : List JobId
  ifCondition : Option Text
  conditionContext : Context N

/-! ## The root `needs` -/

variable {N F : Type}

/-- `Map::insert`: a field that is there keeps its place. -/
def insertField (fields : List (Text × Value N)) (key : Text) (value : Value N) :
    List (Text × Value N) :=
  if fields.any fun e => e.1 = key then fields.map fun e => if e.1 = key then (key, value) else e
  else fields ++ [(key, value)]

/-- `Map::extend`, and `collect` from an empty map. -/
def extendFields (fields entries : List (Text × Value N)) : List (Text × Value N) :=
  entries.foldl (fun fields e => insertField fields e.1 e.2) fields

/-- The fields of an object that was a `BTreeMap`. -/
def fieldsOf (outputs : SortedMap String (Value N)) : List (Text × Value N) :=
  outputs.entries.map fun e => (e.1.toList, e.2)

/-- `status_string`. -/
def statusString : ExecutionStatus → Text
  | .queued | .pending | .inProgress => "in_progress".toList
  | .success => "success".toList
  | .failure => "failure".toList
  | .skipped => "skipped".toList
  | .cancelled => "cancelled".toList

/-- The result and the outputs of one need. -/
def needFields (result : Text) (outputs : List (Text × Value N)) : Value N :=
  .object [("result".toList, .string result), ("outputs".toList, .object outputs)]

/-- The outputs that the record merges for a need. -/
def RunRecord.mergedOutputs (run : RunRecord (Value N)) (need : JobId) : List (Text × Value N) :=
  (run.rows.matchingIds need).foldl (fun outputs id =>
    match run.jobOutputs.lookup id with
    | some jobOutputs => extendFields outputs (fieldsOf jobOutputs)
    | none => outputs) []

/-- `needs_json_context`. -/
def RunRecord.needsJsonContext (run : RunRecord (Value N)) (needs : List JobId) : Value N :=
  .object <| extendFields [] <| needs.filterMap fun need =>
    (aggregateNeedStatus (run.rows.matchingStatuses need)).map fun result =>
      (need.toList, needFields (statusString result) (run.mergedOutputs need))

/-- `NeedRow`. -/
structure NeedRow (V : Type) where
  jobId : JobId
  status : ExecutionStatus
  outputs : SortedMap String V

/-- `aggregate_needs_status`. -/
def aggregateNeedsStatus (statuses : List ExecutionStatus) : Option ExecutionStatus :=
  if statuses.isEmpty || statuses.any fun st => !st.isTerminal then none
  else if statuses.contains .failure then some .failure
  else if statuses.contains .cancelled then some .cancelled
  else if statuses.contains .skipped then some .skipped
  else if statuses.all fun st => st = .success then some .success
  else none

/-- The result in `needs_context`. -/
def needResult : ExecutionStatus → Text
  | .success => "success".toList
  | .failure => "failure".toList
  | .cancelled => "cancelled".toList
  | .skipped => "skipped".toList
  | _ => "unknown".toList

/-- `needs_context`. -/
def needsContext (needs : List (NeedRow (Value N))) : Value N :=
  .object <| extendFields [] <| needs.filterMap fun need =>
    (aggregateNeedsStatus [need.status]).map fun result =>
      (need.jobId.toList, needFields (needResult result) (fieldsOf need.outputs))

/-- The outputs that the graph merges for a need. -/
def RunGraph.mergedOutputs {V : Type} (graph : RunGraph V) (need : JobId) : SortedMap String V :=
  (graph.matchingIds need).foldl (fun outputs id =>
    match graph.outputs.lookup id with
    | some map => map.entries.foldl (fun outputs e => outputs.insert e.1 e.2) outputs
    | none => outputs) ∅

/-- `needs_rows`. -/
def RunGraph.needsRows {V : Type} (graph : RunGraph V) (needs : List JobId) : List (NeedRow V) :=
  needs.filterMap fun need =>
    (aggregateNeedStatus (graph.matchingStatuses need)).map fun status =>
      ⟨need, status, graph.mergedOutputs need⟩

/-! ## The three decisions -/

/-- Direct needs that stand for nothing, or for a job that is not settled. -/
def waits (direct : List ExecutionStatus) : Bool :=
  direct.isEmpty || direct.any fun status => !status.isTerminal

/-- What a condition is evaluated in: the status functions and the needs. -/
def conditionScope (context : Context N) (statuses : List ExecutionStatus) (needs : Value N) :
    Context N :=
  let aggregate := (aggregateNeedStatus statuses).getD .skipped
  { context with
    roots := context.roots.insert "needs".toList needs
    success := aggregate = .success
    failure := aggregate = .failure
    cancelled := aggregate = .cancelled }

/-- What a condition decides. -/
def conditionDecision (engine : Engine N F) (ifCondition : Option Text) (scope : Context N) :
    DependencyDecision :=
  match evalBool engine (effectiveCondition ifCondition) scope with
  | .ok true => .run
  | .ok false => .skip
  | .error _ => .error

/-- `dependency_decision` over some rows and a root `needs`. -/
def decision (engine : Engine N F) (rows : JobRows) (job : QueuedJob N) (needs : Value N) :
    DependencyDecision :=
  if job.needs.isEmpty then .run
  else if waits (job.needs.flatMap rows.matchingStatuses) then .wait
  else conditionDecision engine job.ifCondition
    (conditionScope job.conditionContext (rows.ancestorStatuses job.needs) needs)

/-- `dependency_decision` (`logic.rs`). -/
def Logic.dependencyDecision (engine : Engine N F) (run : RunRecord (Value N))
    (job : QueuedJob N) : DependencyDecision :=
  decision engine run.rows job (run.needsJsonContext job.needs)

/-- `dependency_decision` (`runtime_scheduling.rs`). -/
def RuntimeScheduling.dependencyDecision (engine : Engine N F) (run : RunRecord (Value N))
    (job : QueuedJob N) : DependencyDecision :=
  decision engine run.rows job (run.needsJsonContext job.needs)

/-- `dependency_decision` (`promote.rs`). -/
def Promote.dependencyDecision (engine : Engine N F) (graph : RunGraph (Value N))
    (job : QueuedJob N) : DependencyDecision :=
  decision engine graph.toJobRows job (needsContext (graph.needsRows job.needs))

end Dependencies

end Preloop
