import PreloopControl.Lib.Interleave
import PreloopControl.Lib.SortedMap
import PreloopControl.Lib.Text

/-!
# Step Updates

The part of `ServerQueue` (`server_queue.rs`) that reports step states, the merge of
an update into the state of its step (`step_records.rs`), and `flush_step_updates`
(`reporting.rs`).

A flush takes the dirty steps out under the lock, posts them without it, and takes
the lock again to mark or requeue. Between these stretches anything else may run,
and the task may be aborted; the drain task of a job is one that is.

The set of dirty keys is iterated in an order the code does not fix, so a take is
given one.

## Main definitions

* `mergeStepUpdate`: An update merged into the state of its step.
* `ServerQueue`: The states, and which of them are dirty.
* `FlushCall.advance`: A flush from one await point to the next.
* `flushMoves`: Updates are queued, flushes run and are aborted, in any order.
-/

namespace Preloop

namespace Worker

/-! ## Step records -/

/-- `step_status::IN_PROGRESS`. -/
def statusInProgress : Nat := 3

/-- `step_status::COMPLETED`. -/
def statusCompleted : Nat := 6

/-- `StepUpdate`. -/
structure StepUpdate where
  externalId : Text
  number : Nat
  name : Text
  status : Nat
  startedAt : Option Text
  completedAt : Option Text
  conclusion : Nat
deriving DecidableEq, Repr

/-- `PartialStepUpdate`: omitted fields keep what was there. -/
structure PartialStepUpdate where
  externalId : Text
  number : Option Nat
  name : Option Text
  status : Option Nat
  startedAt : Option Text
  hasStartedAt : Bool
  completedAt : Option Text
  hasCompletedAt : Bool
  conclusion : Option Nat
deriving DecidableEq, Repr

/-- `from_full`. -/
def PartialStepUpdate.fromFull (update : StepUpdate) : PartialStepUpdate where
  externalId := update.externalId
  number := some update.number
  name := some update.name
  status := some update.status
  startedAt := update.startedAt
  hasStartedAt := true
  completedAt := update.completedAt
  hasCompletedAt := true
  conclusion := some update.conclusion

/-- `status_rank`. -/
def statusRank (status : Nat) : Nat :=
  if status = statusInProgress then 1
  else if status = statusCompleted then 2
  else 0

/-- `merge_step_update`. -/
def mergeStepUpdate (existing : Option StepUpdate) (incoming : PartialStepUpdate) : StepUpdate :=
  let base := existing.getD {
    externalId := incoming.externalId
    number := incoming.number.getD 0
    name := incoming.name.getD []
    status := incoming.status.getD 0
    startedAt := none
    completedAt := none
    conclusion := 0 }
  let status :=
    match incoming.status with
    | some status => if statusRank base.status ≤ statusRank status then status else base.status
    | none => base.status
  let conclusion :=
    match incoming.conclusion with
    -- A real conclusion is never erased.
    | some conclusion =>
      if conclusion ≠ 0 ∨ base.conclusion = 0 then conclusion else base.conclusion
    | none => base.conclusion
  { externalId := incoming.externalId
    number := incoming.number.getD base.number
    name := incoming.name.getD base.name
    status := status
    startedAt :=
      if incoming.hasStartedAt && base.startedAt.isNone then incoming.startedAt
      else base.startedAt
    completedAt :=
      if incoming.hasCompletedAt then incoming.completedAt.or base.completedAt
      else base.completedAt
    conclusion :=
      if status = statusCompleted ∧ conclusion = 0 then
        ((existing.map StepUpdate.conclusion).filter (· ≠ 0)).getD conclusion
      else conclusion }

/-! ## Queue -/

/-- `WorkflowStepsUpdateBody`. -/
structure StepsUpdateBody where
  steps : List StepUpdate
  changeOrder : Nat
  jobId : Text
  planId : Text
deriving DecidableEq, Repr

/-- The step states of a `ServerQueue`. The generations are `u64`s that wrap. -/
structure ServerQueue where
  allSteps : SortedMap Text StepUpdate
  dirtyKeys : List Text
  changeOrder : Nat
  stepsGeneration : Nat
  publishedGeneration : Nat
  jobId : Text
  planId : Text

namespace ServerQueue

/-- `new`. -/
def new (jobId planId : Text) : ServerQueue := ⟨∅, [], 0, 0, 0, jobId, planId⟩

/-- `wrapping_add(1)`. -/
def nextGeneration (q : ServerQueue) : Nat := (q.stepsGeneration + 1) % 2 ^ 64

/-- `queue_update`. -/
def queueUpdate (update : StepUpdate) (q : ServerQueue) : ServerQueue :=
  let key := update.externalId
  let merged := mergeStepUpdate (q.allSteps.lookup key) (.fromFull update)
  if q.allSteps.lookup key = some merged then q
  else
    { q with
      dirtyKeys := q.dirtyKeys.insert key
      stepsGeneration := q.nextGeneration
      allSteps := q.allSteps.insert key merged }

/-- `take_steps_update_body`, the dirty keys in some order. -/
def takeStepsUpdateBody (keys : List Text) (q : ServerQueue) :
    Option (StepsUpdateBody × Nat × ServerQueue) :=
  if q.stepsGeneration = q.publishedGeneration then none
  else
    let steps := (keys.filterMap q.allSteps.lookup).mergeSort fun a b => a.number ≤ b.number
    some (⟨steps, q.changeOrder + 1, q.jobId, q.planId⟩, q.stepsGeneration,
      { q with dirtyKeys := [], changeOrder := q.changeOrder + 1 })

/-- `mark_steps_published`. -/
def markStepsPublished (generation : Nat) (q : ServerQueue) : ServerQueue :=
  { q with publishedGeneration := max q.publishedGeneration generation }

/-- `requeue_steps`. -/
def requeueSteps (steps : List StepUpdate) (q : ServerQueue) : ServerQueue :=
  { q with dirtyKeys := steps.foldl (fun dirty step => dirty.insert step.externalId) q.dirtyKeys }

/-- `has_step_updates`. -/
def hasStepUpdates (q : ServerQueue) : Bool := q.stepsGeneration ≠ q.publishedGeneration

end ServerQueue

/-! ## Flushes -/

/-- The queue of a job and the bodies whose post came back without an error. -/
structure Reporting where
  queue : ServerQueue
  acknowledged : List StepsUpdateBody

/-- Nothing was queued yet. -/
def Reporting.new (jobId planId : Text) : Reporting := ⟨.new jobId planId, []⟩

/-- Where a call of `flush_step_updates` stands: before its first lock, in the post,
    before its second lock with the post done or failed, or over. -/
inductive FlushCall
  | begun
  | posting (body : StepsUpdateBody) (generation : Nat)
  | posted (generation : Nat)
  | failed (body : StepsUpdateBody)
  | returned
deriving DecidableEq, Repr

/-- The states a flush took that were not acknowledged. -/
def FlushCall.held : FlushCall → List StepUpdate
  | posting body _ | failed body => body.steps
  | begun | posted _ | returned => []

/-- A flush up to its next await point, or its end; `ok` is how a post comes out. -/
def FlushCall.advance (keys : List Text) (ok : Bool) (s : Reporting) :
    FlushCall → Reporting × FlushCall
  | begun =>
    match s.queue.takeStepsUpdateBody keys with
    | none => (s, returned)
    | some (body, generation, queue) => ({ s with queue := queue }, posting body generation)
  | posting body generation =>
    if ok then ({ s with acknowledged := body :: s.acknowledged }, posted generation)
    else (s, failed body)
  | posted generation => ({ s with queue := s.queue.markStepsPublished generation }, returned)
  | failed body => ({ s with queue := s.queue.requeueSteps body.steps }, returned)
  | returned => (s, returned)

/-- A whole flush with nothing in between, as the job runner makes its last one. -/
def Reporting.flushStepUpdates (keys : List Text) (ok : Bool) (s : Reporting) : Reporting :=
  let took := FlushCall.begun.advance keys ok s
  let sent := took.2.advance keys ok took.1
  (sent.2.advance keys ok sent.1).1

/-- Updates are queued, and flushes start, advance and are aborted, in any order. -/
def flushMoves : Interleave.Moves Reporting FlushCall where
  env s s' := ∃ update, s' = { s with queue := s.queue.queueUpdate update }
  start call := call = .begun
  act _ s call s' call' :=
    (∃ keys ok, keys.Perm s.queue.dirtyKeys ∧ call.advance keys ok s = (s', call')) ∨
    (s' = s ∧ call' = .returned)

end Worker

end Preloop
