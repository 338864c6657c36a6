import PreloopControl.Dependencies
import PreloopControl.Properties.SecretReads

/-!
# Needs without a Job, and Outputs out of Order

A job waits for needs that are not settled. The test is made on the statuses of all jobs
that the needs stand for in one list, so a need that stands for no job is only noticed if
no other need stands for one. The three decisions agree unless the condition reads the
outputs of a need in their order and several jobs reported them.

## Main definitions

* `JobRows.Undecided`: What a job has to wait for.
* `DecidesAlike`: The condition does not tell the two roots `needs` apart.

## Theorems

* `ancestorStatuses_exact`: What the status functions are judged by.
* `waits_iff`: When the direct needs make a job wait.
* `needs_alike`: The two roots are one if every need stands for at most one job.
* `decisions_agree_of_single`: The three decisions are the same there.
* `decisions_agree_iff`: When a job waits for what it has to wait for, and the three
  decisions are the same.
* `need_overlooked`: A job that starts too early, and one that is decided in two ways.
-/

namespace Preloop

namespace Dependencies

open Expressions Workflow

variable {N F : Type} {rows : JobRows} {needs : List JobId}

namespace JobRows

/-- Some need stands for no job, or for a job that is not settled. -/
def Undecided (rows : JobRows) (needs : List JobId) : Prop :=
  ∃ need ∈ needs, rows.matchingIds need = [] ∨ ∃ id ∈ rows.matchingIds need, ¬ rows.Settled id

/-- Every job that the needs stand for is settled. -/
def AllSettled (rows : JobRows) (needs : List JobId) : Prop :=
  ∀ need ∈ needs, ∀ id ∈ rows.matchingIds need, rows.Settled id

/-- The needs all stand for jobs, or none of them does. -/
def AllOrNone (rows : JobRows) (needs : List JobId) : Prop :=
  (∀ need ∈ needs, rows.matchingIds need ≠ []) ∨ ∀ need ∈ needs, rows.matchingIds need = []

end JobRows

/-! ## Waiting -/

/-- The statuses that the direct needs are judged by. -/
theorem mem_direct {status : ExecutionStatus} :
    status ∈ needs.flatMap rows.matchingStatuses ↔
      ∃ need ∈ needs, ∃ id ∈ rows.matchingIds need, rows.statuses.lookup id = some status := by
  simp only [List.mem_flatMap, JobRows.matchingStatuses, List.mem_filterMap]

/-- The search ends, and the statuses that a condition sees are those of all transitive
    needs. -/
theorem ancestorStatuses_exact (status : ExecutionStatus) :
    (∃ order, rows.ancestors needs = some order) ∧
    (status ∈ rows.ancestorStatuses needs ↔ ∃ start ∈ rows.matchingAll needs, ∃ id,
      Relation.ReflTransGen (fun job parent => parent ∈ rows.parents job) start id ∧
        rows.statuses.lookup id = some status) := by
  rcases rows.exists_ancestors needs with ⟨order, horder⟩
  refine ⟨⟨order, horder⟩, ?_⟩
  rw [JobRows.ancestorStatuses, horder, Option.getD_some, List.mem_filterMap]
  simp only [JobRows.mem_ancestors horder]
  constructor
  · rintro ⟨id, ⟨start, hstart, hpath⟩, hstatus⟩
    exact ⟨start, hstart, id, hpath, hstatus⟩
  · rintro ⟨start, hstart, id, hpath, hstatus⟩
    exact ⟨id, ⟨start, hstart, hpath⟩, hstatus⟩

/-- No status is there to be judged if and only if no need stands for a job. -/
theorem direct_eq_nil :
    needs.flatMap rows.matchingStatuses = [] ↔ ∀ need ∈ needs, rows.matchingIds need = [] := by
  constructor
  · intro h need hneed
    refine List.eq_nil_iff_forall_not_mem.mpr fun id hid => ?_
    rcases JobRows.mem_ids.mp (JobRows.mem_ids_of_matching hid) with ⟨status, hstatus⟩
    have hmem := mem_direct.mpr ⟨need, hneed, id, hid, hstatus⟩
    rw [h] at hmem
    cases hmem
  · intro h
    refine List.eq_nil_iff_forall_not_mem.mpr fun status hstatus => ?_
    rcases mem_direct.mp hstatus with ⟨need, hneed, id, hid, -⟩
    rw [h need hneed] at hid
    cases hid

/-- All statuses that are there are terminal if and only if the jobs are settled. -/
theorem direct_settled :
    (∀ status ∈ needs.flatMap rows.matchingStatuses, status.isTerminal = true) ↔
      rows.AllSettled needs := by
  constructor
  · intro h need hneed id hid
    rcases JobRows.mem_ids.mp (JobRows.mem_ids_of_matching hid) with ⟨status, hstatus⟩
    exact ⟨status, hstatus, h status (mem_direct.mpr ⟨need, hneed, id, hid, hstatus⟩)⟩
  · intro h status hstatus
    rcases mem_direct.mp hstatus with ⟨need, hneed, id, hid, hlookup⟩
    rcases h need hneed id hid with ⟨status', hlookup', hterm⟩
    rw [hlookup, Option.some.injEq] at hlookup'
    rw [hlookup', hterm]

/-- The direct needs make a job wait if none of them stands for a job, or some job that
    they stand for is not settled. -/
theorem waits_iff : waits (needs.flatMap rows.matchingStatuses) = true ↔
    (∀ need ∈ needs, rows.matchingIds need = []) ∨ ¬ rows.AllSettled needs := by
  rw [waits, Bool.or_eq_true, List.isEmpty_iff, direct_eq_nil, ← direct_settled, List.any_eq_true]
  simp only [Bool.not_eq_true', not_forall, Bool.not_eq_true, exists_prop]

/-- What a job has to wait for, if not every need stands for jobs that are settled. -/
theorem undecided_iff : rows.Undecided needs ↔
    (∃ need ∈ needs, rows.matchingIds need = []) ∨ ¬ rows.AllSettled needs := by
  simp only [JobRows.Undecided, JobRows.AllSettled, not_forall, exists_prop]
  constructor
  · rintro ⟨need, hneed, hnone | hopen⟩
    · exact .inl ⟨need, hneed, hnone⟩
    · exact .inr ⟨need, hneed, hopen⟩
  · rintro (⟨need, hneed, hnone⟩ | ⟨need, hneed, hopen⟩)
    · exact ⟨need, hneed, .inl hnone⟩
    · exact ⟨need, hneed, .inr hopen⟩

/-- A condition never decides to wait. -/
theorem conditionDecision_ne_wait (engine : Engine N F) (ifCondition : Option Text)
    (scope : Context N) : conditionDecision engine ifCondition scope ≠ .wait := by
  unfold conditionDecision
  cases evalBool engine (effectiveCondition ifCondition) scope with
  | error e => simp
  | ok value => cases value <;> simp

/-- A job waits if it has needs that make it wait. -/
theorem decision_eq_wait (engine : Engine N F) (job : QueuedJob N) (root : Value N) :
    decision engine rows job root = .wait ↔
      job.needs ≠ [] ∧ waits (job.needs.flatMap rows.matchingStatuses) = true := by
  unfold decision
  by_cases hneeds : job.needs.isEmpty = true
  · rw [if_pos hneeds]
    simp [List.isEmpty_iff.mp hneeds]
  · rw [if_neg hneeds]
    have hne : job.needs ≠ [] := fun h => hneeds (List.isEmpty_iff.mpr h)
    by_cases hwaits : waits (job.needs.flatMap rows.matchingStatuses) = true
    · rw [if_pos hwaits]
      exact ⟨fun _ => ⟨hne, hwaits⟩, fun _ => rfl⟩
    · rw [if_neg hwaits]
      exact ⟨fun h => absurd h (conditionDecision_ne_wait engine _ _),
        fun h => absurd h.2 hwaits⟩

/-- A job waits for what it has to wait for unless its needs are overlooked: some stand for
    jobs, all settled, and some for none. -/
theorem waits_for_needs_iff (engine : Engine N F) (job : QueuedJob N) (root : Value N) :
    (decision engine rows job root = .wait ↔ rows.Undecided job.needs) ↔
      (rows.AllSettled job.needs → rows.AllOrNone job.needs) := by
  rw [decision_eq_wait, waits_iff, undecided_iff, JobRows.AllOrNone]
  by_cases hsettled : rows.AllSettled job.needs
  · simp only [hsettled, not_true_eq_false, or_false, true_imp_iff]
    constructor
    · intro h
      by_cases hnone : ∃ need ∈ job.needs, rows.matchingIds need = []
      · exact .inr (h.mpr hnone).2
      · exact .inl fun need hneed hempty => hnone ⟨need, hneed, hempty⟩
    · rintro (hall | hnone)
      · refine ⟨fun ⟨hne, hempty⟩ => ?_, fun ⟨need, hneed, hempty⟩ => ?_⟩
        · rcases List.exists_mem_of_ne_nil _ hne with ⟨need, hneed⟩
          exact absurd (hempty need hneed) (hall need hneed)
        · exact absurd hempty (hall need hneed)
      · refine ⟨fun ⟨hne, hempty⟩ => ?_, fun ⟨need, hneed, _⟩ => ?_⟩
        · rcases List.exists_mem_of_ne_nil _ hne with ⟨need, hneed⟩
          exact ⟨need, hneed, hempty need hneed⟩
        · exact ⟨List.ne_nil_of_mem hneed, hnone⟩
  · -- a job that is not settled is seen by both
    have hne : job.needs ≠ [] := by
      rintro hnil
      exact hsettled fun need hneed => by rw [hnil] at hneed; cases hneed
    simp [hsettled, hne]

/-! ## The root `needs` -/

/-- Fields under new keys are added at the end. -/
theorem extendFields_append {fields entries : List (Text × Value N)}
    (h : (fields ++ entries).Pairwise fun a b => a.1 ≠ b.1) :
    extendFields fields entries = fields ++ entries := by
  induction entries generalizing fields with
  | nil => exact (List.append_nil fields).symm
  | cons e entries ih =>
      have hnew : ¬ (fields.any fun d => d.1 = e.1) = true := by
        rw [List.any_eq_true]
        rintro ⟨d, hd, heq⟩
        exact (List.pairwise_append.mp h).2.2 d hd e List.mem_cons_self (of_decide_eq_true heq)
      have hshift : fields ++ e :: entries = fields ++ [(e.1, e.2)] ++ entries := by simp
      rw [extendFields, List.foldl_cons, insertField, if_neg hnew, ← extendFields, hshift]
      rw [hshift] at h
      exact ih h

/-- The fields of a map have different keys. -/
theorem fieldsOf_pairwise (outputs : SortedMap String (Value N)) :
    (fieldsOf outputs).Pairwise fun a b => a.1 ≠ b.1 :=
  List.pairwise_map.mpr (outputs.sorted.imp fun hlt heq =>
    ne_of_lt hlt (String.toList_injective heq))

variable {run : RunRecord (Value N)}

/-- Both merge the outputs of one job to these outputs. -/
theorem mergedOutputs_of_single {need : JobId} (h : (run.rows.matchingIds need).length ≤ 1) :
    run.mergedOutputs need = fieldsOf (run.graph.mergedOutputs need) := by
  have hgraph : run.graph.matchingIds need = run.rows.matchingIds need := rfl
  rw [RunRecord.mergedOutputs, RunGraph.mergedOutputs, hgraph]
  cases hids : run.rows.matchingIds need with
  | nil => rfl
  | cons id rest =>
      have hrest : rest = [] := by
        rw [hids, List.length_cons] at h
        exact List.eq_nil_of_length_eq_zero (by omega)
      rw [hrest, List.foldl_cons, List.foldl_nil, List.foldl_cons, List.foldl_nil]
      have houtputs : run.graph.outputs.lookup id = run.jobOutputs.lookup id := rfl
      rw [houtputs]
      cases run.jobOutputs.lookup id with
      | none => rfl
      | some outputs =>
          dsimp only
          rw [extendFields_append (by rw [List.nil_append]; exact fieldsOf_pairwise outputs),
            List.nil_append, ← SortedMap.ofList, SortedMap.ofList_entries]

/-- A result of needs is settled, and both write it alike. -/
theorem needResult_of_aggregate {statuses : List ExecutionStatus} {result : ExecutionStatus}
    (h : aggregateNeedStatus statuses = some result) :
    aggregateNeedsStatus [result] = some result ∧ needResult result = statusString result := by
  have hresult : result ∈ [ExecutionStatus.failure, .cancelled, .skipped, .success] := by
    unfold aggregateNeedStatus at h
    split_ifs at h <;> rcases h <;> simp
  fin_cases hresult <;> exact ⟨rfl, rfl⟩

/-- The two roots are one if the outputs are merged alike. -/
theorem needs_alike_of_merged
    (h : ∀ need ∈ needs, run.mergedOutputs need = fieldsOf (run.graph.mergedOutputs need)) :
    run.needsJsonContext needs = needsContext (run.graph.needsRows needs) := by
  rw [RunRecord.needsJsonContext, needsContext, RunGraph.needsRows, List.filterMap_filterMap]
  congr 2
  refine List.filterMap_congr fun need hneed => ?_
  have hstatuses : run.graph.matchingStatuses need = run.rows.matchingStatuses need := rfl
  rw [hstatuses]
  cases hresult : aggregateNeedStatus (run.rows.matchingStatuses need) with
  | none => rfl
  | some result =>
      rcases needResult_of_aggregate hresult with ⟨haggregate, hwritten⟩
      simp only [Option.map_some, Option.bind_some, haggregate, hwritten, h need hneed]

/-- The two roots are one if every need stands for at most one job. -/
theorem needs_alike (h : ∀ need ∈ needs, (run.rows.matchingIds need).length ≤ 1) :
    run.needsJsonContext needs = needsContext (run.graph.needsRows needs) :=
  needs_alike_of_merged fun need hneed => mergedOutputs_of_single (h need hneed)

/-! ## The decisions -/

/-- The condition comes out the same, whichever root `needs` it is evaluated with. -/
def DecidesAlike (engine : Engine N F) (run : RunRecord (Value N)) (job : QueuedJob N) : Prop :=
  let scope := conditionScope job.conditionContext (run.rows.ancestorStatuses job.needs)
  let condition := effectiveCondition job.ifCondition
  (evalBool engine condition (scope (run.needsJsonContext job.needs))).toOption =
    (evalBool engine condition (scope (needsContext (run.graph.needsRows job.needs)))).toOption

/-- What a condition decides is what it comes out as. -/
theorem conditionDecision_eq_iff (engine : Engine N F) (ifCondition : Option Text)
    (scope scope' : Context N) :
    conditionDecision engine ifCondition scope = conditionDecision engine ifCondition scope' ↔
      (evalBool engine (effectiveCondition ifCondition) scope).toOption =
        (evalBool engine (effectiveCondition ifCondition) scope').toOption := by
  unfold conditionDecision
  cases evalBool engine (effectiveCondition ifCondition) scope with
  | error e =>
      cases evalBool engine (effectiveCondition ifCondition) scope' with
      | error e' => simp [Except.toOption]
      | ok value' => cases value' <;> simp [Except.toOption]
  | ok value =>
      cases evalBool engine (effectiveCondition ifCondition) scope' with
      | error e' => cases value <;> simp [Except.toOption]
      | ok value' => cases value <;> cases value' <;> simp [Except.toOption]

/-- The record and the graph decide alike unless the condition is reached and tells the
    roots apart. -/
theorem record_eq_graph_iff (engine : Engine N F) (job : QueuedJob N) :
    RuntimeScheduling.dependencyDecision engine run job =
        Promote.dependencyDecision engine run.graph job ↔
      (run.rows.AllSettled job.needs → DecidesAlike engine run job) := by
  have hrows : run.graph.toJobRows = run.rows := rfl
  unfold RuntimeScheduling.dependencyDecision Promote.dependencyDecision decision
  rw [hrows]
  by_cases hneeds : job.needs.isEmpty = true
  · rw [if_pos hneeds, if_pos hneeds]
    refine ⟨fun _ _ => ?_, fun _ => rfl⟩
    rw [DecidesAlike, List.isEmpty_iff.mp hneeds]
    rfl
  · rw [if_neg hneeds, if_neg hneeds]
    by_cases hwaits : waits (job.needs.flatMap run.rows.matchingStatuses) = true
    · rw [if_pos hwaits, if_pos hwaits]
      refine ⟨fun _ hsettled => ?_, fun _ => rfl⟩
      -- no need stands for a job, so that both roots are empty
      rcases waits_iff.mp hwaits with hnone | hopen
      · have hfew : ∀ need ∈ job.needs, (run.rows.matchingIds need).length ≤ 1 := by
          intro need hneed
          rw [hnone need hneed]
          exact Nat.zero_le 1
        rw [DecidesAlike, needs_alike hfew]
      · exact absurd hsettled hopen
    · rw [if_neg hwaits, if_neg hwaits, conditionDecision_eq_iff]
      refine ⟨fun h _ => h, fun h => h ?_⟩
      by_contra hopen
      exact hwaits (waits_iff.mpr (.inr hopen))

/-- Where every need stands for at most one job, the three decisions are the same. -/
theorem decisions_agree_of_single (engine : Engine N F) (run : RunRecord (Value N))
    (job : QueuedJob N) (h : ∀ need ∈ job.needs, (run.rows.matchingIds need).length ≤ 1) :
    Logic.dependencyDecision engine run job =
        RuntimeScheduling.dependencyDecision engine run job ∧
      RuntimeScheduling.dependencyDecision engine run job =
        Promote.dependencyDecision engine run.graph job := by
  refine ⟨rfl, (record_eq_graph_iff engine job).mpr fun _ => ?_⟩
  rw [DecidesAlike, needs_alike h]

/-- A job waits for what it has to wait for, and the three decisions on it are the same, if
    and only if settled needs all stand for jobs or none does, and the condition does not
    tell the two roots apart. -/
theorem decisions_agree_iff (engine : Engine N F) (run : RunRecord (Value N))
    (job : QueuedJob N) :
    ((Promote.dependencyDecision engine run.graph job = .wait ↔
        run.rows.Undecided job.needs) ∧
      Logic.dependencyDecision engine run job =
        RuntimeScheduling.dependencyDecision engine run job ∧
      RuntimeScheduling.dependencyDecision engine run job =
        Promote.dependencyDecision engine run.graph job) ↔
    (run.rows.AllSettled job.needs →
      run.rows.AllOrNone job.needs ∧ DecidesAlike engine run job) := by
  have hwait : (Promote.dependencyDecision engine run.graph job = .wait ↔
      run.rows.Undecided job.needs) ↔
        (run.rows.AllSettled job.needs → run.rows.AllOrNone job.needs) :=
    waits_for_needs_iff engine job _
  rw [hwait, record_eq_graph_iff]
  constructor
  · rintro ⟨hall, -, halike⟩ hsettled
    exact ⟨hall hsettled, halike hsettled⟩
  · intro h
    exact ⟨fun hsettled => (h hsettled).1, rfl, fun hsettled => (h hsettled).2⟩

/-- A job starts although one of its needs stands for no job, and a job over two legs starts
    by the record and is skipped by the graph. -/
theorem need_overlooked :
    let one : RunRecord (Value Int) := {
      jobs := .ofList [("a", .success)]
      jobOutputs := ∅
      reusableCalls := ∅
      jobBaseIds := .ofList [("a", "a")]
      jobNeeds := ∅ }
    let legs : RunRecord (Value Int) := {
      jobs := .ofList [("build (1)", .success), ("build (2)", .success)]
      jobOutputs := .ofList [("build (1)", .ofList [("b", .string "1".toList)]),
        ("build (2)", .ofList [("a", .string "2".toList)])]
      reusableCalls := ∅
      jobBaseIds := .ofList [("build (1)", "build"), ("build (2)", "build")]
      jobNeeds := ∅ }
    let ordered := "join(needs.build.outputs.*, ',') == '1,2'".toList
    (Promote.dependencyDecision integerEngine one.graph ⟨["a", "b"], none, {}⟩ = .run ∧
        one.rows.Undecided ["a", "b"]) ∧
      RuntimeScheduling.dependencyDecision integerEngine legs ⟨["build"], some ordered, {}⟩ = .run ∧
      Promote.dependencyDecision integerEngine legs.graph ⟨["build"], some ordered, {}⟩ =
        .skip := by
  intro one legs ordered
  have hmissing : one.rows.matchingIds "b" = [] := by decide
  refine ⟨⟨by decide +kernel, "b", by decide, .inl hmissing⟩, by decide +kernel, by decide +kernel⟩

end Dependencies

end Preloop
