import PreloopControl.Lib.LastWrite
import PreloopControl.Logic

/-!
# Folding Called Workflows

`propagate_reusable_outputs` (`reusable_workflows.rs`) over the record of a run. A caller
without recorded outputs whose inner jobs are all settled gets the outputs that its
definitions yield and, unless it is settled already, the aggregate status of its inner jobs.
A pass reads the record as it was before the pass, and the passes go on until one settles no
caller.

How a definition is evaluated and what the values are is left open. The fields of the record
that no pass reads are left out.

## Main definitions

* `RunRecord`, `ReusableCallMetadata`: What a pass reads.
* `RunRecord.propagateOnce`: A pass.
* `RunRecord.propagate`: The passes.

## Theorems

* `RunRecord.propagateOnce_spec`: What a pass does.
-/

namespace Preloop

/-- `ReusableCallMetadata`, as far as its outputs go. -/
structure ReusableCallMetadata (V : Type) where
  outputDefinitions : SortedMap String String
  innerJobIds : List JobId
  inputs : SortedMap String V

/-- `RunRecord`, as far as its callers go. -/
structure RunRecord (V : Type) where
  jobs : SortedMap JobId ExecutionStatus
  jobOutputs : SortedMap JobId (SortedMap String V)
  reusableCalls : SortedMap JobId (ReusableCallMetadata V)

/-- What an output definition is evaluated against: the outputs of the inner jobs and the
    inputs of the call. -/
structure CallContext (V : Type) where
  jobs : SortedMap String (SortedMap String V)
  inputs : SortedMap String V

/-- The values and the expressions of output definitions. -/
structure OutputEvaluator (V : Type) where
  /-- `resolve_string`. -/
  resolveString : String → CallContext V → Option String
  /-- `Value::String`. -/
  string : String → V

/-- `inner_id_without_prefix`. -/
def innerIdWithoutPrefix (caller inner : JobId) : String :=
  let before := (caller ++ "/").toList
  if before.isPrefixOf inner.toList then String.ofList (inner.toList.drop before.length)
  else inner

namespace RunRecord

variable {V : Type}

/-- The context of a caller's output definitions. -/
def callContext (run : RunRecord V) (caller : JobId) (call : ReusableCallMetadata V) :
    CallContext V where
  jobs := .ofList (call.innerJobIds.map fun id =>
    (innerIdWithoutPrefix caller id, (run.jobOutputs.lookup id).getD ∅))
  inputs := call.inputs

/-- `caller_outputs`: an expression that fails stands for itself. -/
def callerOutputs (ev : OutputEvaluator V) (run : RunRecord V) (caller : JobId)
    (call : ReusableCallMetadata V) : SortedMap String V :=
  call.outputDefinitions.mapValues fun expr =>
    ev.string ((ev.resolveString expr (run.callContext caller call)).getD expr)

/-- `all_complete`. -/
def allComplete (run : RunRecord V) (call : ReusableCallMetadata V) : Bool :=
  !call.innerJobIds.isEmpty &&
    call.innerJobIds.all fun id => (run.jobs.lookup id).any (·.isTerminal)

/-- The aggregate of the statuses of the inner jobs. -/
def callerAggregate (run : RunRecord V) (call : ReusableCallMetadata V) : ExecutionStatus :=
  (aggregateNeedStatus (call.innerJobIds.filterMap run.jobs.lookup)).getD .skipped

/-- The callers a pass folds. -/
def foldedCalls (run : RunRecord V) : List (JobId × ReusableCallMetadata V) :=
  run.reusableCalls.entries.filter fun (caller, call) =>
    (run.jobOutputs.lookup caller).isNone && run.allComplete call

/-- `outputs_to_add`. -/
def outputsToAdd (ev : OutputEvaluator V) (run : RunRecord V) :
    List (JobId × SortedMap String V) :=
  run.foldedCalls.map fun (caller, call) => (caller, run.callerOutputs ev caller call)

/-- `statuses_to_set`. -/
def statusesToSet (run : RunRecord V) : List (JobId × ExecutionStatus) :=
  (run.foldedCalls.filter fun (caller, _) =>
    (run.jobs.lookup caller).any fun status => !status.isTerminal).map fun (caller, call) =>
      (caller, run.callerAggregate call)

/-- `propagate_reusable_outputs_once`: the record and the callers it settled. -/
def propagateOnce (ev : OutputEvaluator V) (run : RunRecord V) : RunRecord V × List JobId :=
  ({ run with
      jobOutputs := (run.outputsToAdd ev).foldl (fun m e => m.insert e.1 e.2) run.jobOutputs
      jobs := run.statusesToSet.foldl (fun m e => m.insert e.1 e.2) run.jobs },
    run.statusesToSet.map (·.1))

/-- `propagate_reusable_outputs`, if a number of passes is enough. -/
def propagate (ev : OutputEvaluator V) : Nat → RunRecord V → Option (RunRecord V × List JobId)
  | 0, _ => none
  | passes + 1, run =>
    let (run, pass) := run.propagateOnce ev
    if pass.isEmpty then some (run, pass)
    else (propagate ev passes run).map fun (final, finalized) => (final, pass ++ finalized)

/-! ## What a pass does -/

/-- The job has a row and is settled. -/
def Settled (run : RunRecord V) (id : JobId) : Prop :=
  ∃ status, run.jobs.lookup id = some status ∧ status.isTerminal = true

/-- The job has a row and is not settled. -/
def Open (run : RunRecord V) (id : JobId) : Prop :=
  ∃ status, run.jobs.lookup id = some status ∧ status.isTerminal = false

/-- A caller that a pass folds. -/
structure Folds (run : RunRecord V) (caller : JobId) (call : ReusableCallMetadata V) : Prop where
  isCall : run.reusableCalls.lookup caller = some call
  fresh : run.jobOutputs.lookup caller = none
  nonempty : call.innerJobIds ≠ []
  complete : ∀ id ∈ call.innerJobIds, run.Settled id

variable {run : RunRecord V} {caller : JobId} {call : ReusableCallMetadata V}

theorem Folds.unique {call' : ReusableCallMetadata V} (h : run.Folds caller call)
    (h' : run.Folds caller call') : call' = call :=
  Option.some.inj (h'.isCall.symm.trans h.isCall)

theorem Settled.not_open {id : JobId} (h : run.Settled id) : ¬ run.Open id := by
  rintro ⟨status, hstatus, hno⟩
  rcases h with ⟨status', hstatus', hyes⟩
  rw [hstatus, Option.some.injEq] at hstatus'
  rw [hstatus', hyes] at hno
  cases hno

theorem any_terminal_iff {id : JobId} :
    (run.jobs.lookup id).any (·.isTerminal) = true ↔ run.Settled id := by
  rw [Settled]
  cases run.jobs.lookup id with
  | none => simp
  | some status => simp

theorem any_open_iff {id : JobId} :
    (run.jobs.lookup id).any (fun status => !status.isTerminal) = true ↔ run.Open id := by
  rw [Open]
  cases run.jobs.lookup id with
  | none => simp
  | some status => simp

theorem mem_foldedCalls : (caller, call) ∈ run.foldedCalls ↔ run.Folds caller call := by
  rw [foldedCalls, List.mem_filter]
  constructor
  · rintro ⟨hmem, hcond⟩
    simp only [allComplete, Bool.and_eq_true, Option.isNone_iff_eq_none, Bool.not_eq_true',
      List.isEmpty_eq_false_iff, List.all_eq_true, any_terminal_iff] at hcond
    exact ⟨SortedMap.lookup_of_mem hmem, hcond.1, hcond.2.1, hcond.2.2⟩
  · rintro ⟨hcall, hfresh, hnonempty, hcomplete⟩
    refine ⟨SortedMap.mem_of_lookup hcall, ?_⟩
    simp only [allComplete, Bool.and_eq_true, Option.isNone_iff_eq_none, Bool.not_eq_true',
      List.isEmpty_eq_false_iff, List.all_eq_true, any_terminal_iff]
    exact ⟨hfresh, hnonempty, hcomplete⟩

theorem mem_statusesToSet {status : ExecutionStatus} :
    (caller, status) ∈ run.statusesToSet ↔
      ∃ call, run.Folds caller call ∧ run.Open caller ∧ status = run.callerAggregate call := by
  rw [statusesToSet, List.mem_map]
  constructor
  · rintro ⟨⟨id, call⟩, hmem, hpair⟩
    rcases Prod.mk.inj hpair with ⟨rfl, rfl⟩
    rcases List.mem_filter.mp hmem with ⟨hfolded, hopen⟩
    exact ⟨call, mem_foldedCalls.mp hfolded, any_open_iff.mp hopen, rfl⟩
  · rintro ⟨call, hfolds, hopen, rfl⟩
    exact ⟨(caller, call), List.mem_filter.mpr
      ⟨mem_foldedCalls.mpr hfolds, any_open_iff.mpr hopen⟩, rfl⟩

theorem mem_outputsToAdd {ev : OutputEvaluator V} {outputs : SortedMap String V} :
    (caller, outputs) ∈ run.outputsToAdd ev ↔
      ∃ call, run.Folds caller call ∧ outputs = run.callerOutputs ev caller call := by
  rw [outputsToAdd, List.mem_map]
  constructor
  · rintro ⟨⟨id, call⟩, hmem, hpair⟩
    rcases Prod.mk.inj hpair with ⟨rfl, rfl⟩
    exact ⟨call, mem_foldedCalls.mp hmem, rfl⟩
  · rintro ⟨call, hfolds, rfl⟩
    exact ⟨(caller, call), mem_foldedCalls.mpr hfolds, rfl⟩

/-- What a pass does to a record. -/
structure PassSpec (ev : OutputEvaluator V) (run run' : RunRecord V) (pass : List JobId) :
    Prop where
  calls : run'.reusableCalls = run.reusableCalls
  mem_pass : ∀ {id}, id ∈ pass ↔ ∃ call, run.Folds id call ∧ run.Open id
  status_of_folds : ∀ {id call}, run.Folds id call → run.Open id →
    run'.jobs.lookup id = some (run.callerAggregate call)
  status_of_not_mem : ∀ {id}, id ∉ pass → run'.jobs.lookup id = run.jobs.lookup id
  outputs_of_folds : ∀ {id call}, run.Folds id call →
    run'.jobOutputs.lookup id = some (run.callerOutputs ev id call)
  outputs_of_not : ∀ {id}, (∀ call, ¬ run.Folds id call) →
    run'.jobOutputs.lookup id = run.jobOutputs.lookup id

/-- What a pass does. -/
theorem propagateOnce_spec (ev : OutputEvaluator V) (run : RunRecord V) :
    PassSpec ev run (run.propagateOnce ev).1 (run.propagateOnce ev).2 where
  calls := rfl
  mem_pass := by
    intro id
    rw [propagateOnce, List.mem_map]
    constructor
    · rintro ⟨⟨caller, status⟩, hmem, rfl⟩
      rcases mem_statusesToSet.mp hmem with ⟨call, hfolds, hopen, -⟩
      exact ⟨call, hfolds, hopen⟩
    · rintro ⟨call, hfolds, hopen⟩
      exact ⟨(id, run.callerAggregate call), mem_statusesToSet.mpr ⟨call, hfolds, hopen, rfl⟩, rfl⟩
  status_of_folds := by
    intro id call hfolds hopen
    refine SortedMap.lookup_foldl_insert_of_mem run.jobs
      (mem_statusesToSet.mpr ⟨call, hfolds, hopen, rfl⟩) fun status hstatus => ?_
    -- two calls that fold the same caller are one
    rcases mem_statusesToSet.mp hstatus with ⟨call', hfolds', -, rfl⟩
    rw [hfolds.unique hfolds']
  status_of_not_mem := by
    intro id hid
    refine SortedMap.lookup_foldl_insert_of_not_mem run.jobs fun status hstatus => ?_
    exact hid (List.mem_map_of_mem hstatus)
  outputs_of_folds := by
    intro id call hfolds
    refine SortedMap.lookup_foldl_insert_of_mem run.jobOutputs
      (mem_outputsToAdd.mpr ⟨call, hfolds, rfl⟩) fun outputs houtputs => ?_
    rcases mem_outputsToAdd.mp houtputs with ⟨call', hfolds', rfl⟩
    rw [hfolds.unique hfolds']
  outputs_of_not := by
    intro id hnone
    refine SortedMap.lookup_foldl_insert_of_not_mem run.jobOutputs fun outputs houtputs => ?_
    rcases mem_outputsToAdd.mp houtputs with ⟨call, hfolds, -⟩
    exact hnone call hfolds

end RunRecord

end Preloop
