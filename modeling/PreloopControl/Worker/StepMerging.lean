import PreloopControl.Worker.StepUpdates

/-!
# Merging Step Records

The record of each step as it is put together from the updates that come in, in whatever
order they come (`step_records.rs`), and what is made of the records when the job is
cancelled.

## Main definitions

* `applyStepUpdate`: One update.
* `reconcileCancelledSteps`: A completed record for every dispatched step.
-/

namespace Preloop

namespace Worker

/-- `apply_step_update`. -/
def applyStepUpdate (store : SortedMap Text StepUpdate) (incoming : PartialStepUpdate) :
    SortedMap Text StepUpdate :=
  store.insert incoming.externalId
    (mergeStepUpdate (store.lookup incoming.externalId) incoming)

/-- `step_conclusion::FAILED`. There is none for a cancelled step. -/
def conclusionFailed : Nat := 3

/-- `DispatchedTask`, but for whether it is synthetic, which nothing asks. -/
structure DispatchedTask where
  externalId : Text
  number : Nat
  name : Text
deriving DecidableEq, Repr

/-- The record of a dispatched task. -/
def reconciled (received : SortedMap Text StepUpdate) (completedAt : Text) (task : DispatchedTask) :
    StepUpdate :=
  match received.lookup task.externalId with
  | some existing =>
    if existing.status = statusCompleted then existing
    else
      { existing with
        status := statusCompleted
        conclusion := conclusionFailed
        name := if existing.name = [] then task.name else existing.name
        number := if existing.number = 0 then task.number else existing.number
        completedAt := existing.completedAt.or (some completedAt) }
  | none =>
    { externalId := task.externalId
      number := task.number
      name := task.name
      status := statusCompleted
      startedAt := none
      completedAt := some completedAt
      conclusion := conclusionFailed }

/-- `reconcile_cancelled_steps`. -/
def reconcileCancelledSteps (dispatched : List DispatchedTask)
    (received : SortedMap Text StepUpdate) (completedAt : Text) : List StepUpdate :=
  let out := dispatched.foldl (fun (out : SortedMap Text StepUpdate) task =>
    out.insert task.externalId (reconciled received completedAt task)) ∅
  (out.entries.map (·.2)).mergeSort fun a b => a.number ≤ b.number

end Worker

end Preloop
