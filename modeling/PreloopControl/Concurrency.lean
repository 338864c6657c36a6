import PreloopControl.Graph

/-!
# Concurrency Groups

Holds, waits and job sets (`control/lite/concurrency.rs`). A group has at most
one hold row, which names the run, the job or the job set the slot belongs to,
and a queue of wait rows in `wait_id` order.

`acquire` is the only way an arrival enters a group. It decides from the hold
and the waiters it read at the start, and the callback that cancels a displaced
holder runs in the middle of it, so by the time the last statement is issued
the rows it decided on may be gone.

## Main definitions

* `Db.holderOf`, `holderColumns`: Decoding and encoding a holder.
* `takeHold`, `releaseHold`, `enqueueWait`, `removeWait`: The row operations.
* `Db.covered`: Some wait row stands for the job.
* `Db.runStuck`: The holder's run is judged to be waiting for external hosts.
* `acquire`: Admission to a group.
-/

namespace Preloop

open Txn

namespace Db

/-- `holder_of`: a job set whose row is gone decodes to the empty set. -/
def holderOf (s : Db) : HolderRow → Holder
  | .run r => .run r
  | .job r j => .job r j
  | .jobSet r id => .jobSet r ((s.jobsets.get id).elim [] JobSet.jobIds)

/-- `hold_row`: the current holder of a group and its display name. -/
def holdRow (s : Db) (key : GroupKey) : Option (Holder × String) :=
  (s.holds.get key).map fun h => (s.holderOf h.holder, h.displayName)

/-- `waiters`: oldest first. -/
def waiters (s : Db) (key : GroupKey) : List (Nat × Holder) :=
  (s.waits.selectBy (fun w => w.key = key) Wait.waitId).map fun w =>
    (w.waitId, s.holderOf w.holder)

/-- `first_waiter`. -/
def firstWaiter (s : Db) (key : GroupKey) : Option (Nat × Holder) := (s.waiters key).head?

/-- The row belongs to the job: its own, its run's, or a job set it is in. -/
def standsFor (s : Db) (r : RunId) (j : JobId) : HolderRow → Bool
  | .run r' => r' = r
  | .job r' j' => r' = r && j' = j
  | .jobSet r' id => r' = r && (s.jobsets.get id).any fun set => set.jobIds.contains j

/-- A wait row stands for the job (`job_has_wait`). -/
def covered (s : Db) (r : RunId) (j : JobId) : Bool :=
  s.waits.exists? fun w => s.standsFor r j w.holder

/-- `job_waits`. -/
def jobWaits (s : Db) (r : RunId) (j : JobId) : List (GroupKey × Holder) :=
  (s.waits.select fun w => s.standsFor r j w.holder).map fun w => (w.key, s.holderOf w.holder)

/-- `job_holds`. -/
def jobHolds (s : Db) (r : RunId) (j : JobId) : List (GroupKey × Holder) :=
  (s.holds.select fun h => s.standsFor r j h.holder).map fun h => (h.key, s.holderOf h.holder)

/-- `run_holds`. -/
def runHolds (s : Db) (r : RunId) : List (GroupKey × Holder) :=
  (s.holds.select fun h => h.holder.runId = r).map fun h => (h.key, s.holderOf h.holder)

/-- `jobset_holds`. -/
def jobsetHolds (s : Db) (id : Nat) : List GroupKey :=
  (s.holds.select fun h =>
    match h.holder with
    | .jobSet _ id' => id' = id
    | _ => false).map Hold.key

/-- `hold_display_name`. -/
def displayName (s : Db) (key : GroupKey) : Option String :=
  (s.holds.get key).map Hold.displayName

/-- `registered_platforms` over the runner rows. -/
def platforms (s : Db) : List String := registeredPlatforms (s.runners.rows.map Runner.labels)

/-- `run_stuck_on_external_hosts`: no macOS or Windows runner is registered and
    every job row of the run is settled or ready with a label for such a host. A
    missing run counts, and so does a run whose job rows are not inserted yet. -/
def runStuck (s : Db) (r : RunId) : Bool :=
  !(s.platforms.any fun os => os == "macos" || os == "windows") &&
    (!s.runExists r || (s.jobsOf r).all fun j =>
      j.status.isTerminal || (j.queueState = .ready && needsExternalHost j.runsOn))

/-- `event_order_of`. -/
def eventOrderOf (s : Db) (holder : Holder) : Option EventOrder :=
  (s.run holder.runId).bind Run.eventOrder

end Db

/-! ## Row operations -/

/-- `jobset_id`: the row of a member set, created on first use. -/
def jobsetId (r : RunId) (jobIds : List JobId) : Cmd Nat := do
  exec (.insertJobset r jobIds)
  match ← Tx.select fun s : Db => s.findJobset r jobIds with
  | some set => pure set.jobsetId
  | none => Tx.abort .backend

/-- `holder_columns`. -/
def holderColumns : Holder → Cmd HolderRow
  | .run r => pure (.run r)
  | .job r j => pure (.job r j)
  | .jobSet r jobIds => do
    let id ← jobsetId r jobIds
    pure (.jobSet r id)

/-- `take_hold`: a plain insertion. -/
def takeHold (key : GroupKey) (display : String) (holder : Holder) : Cmd Unit := do
  let columns ← holderColumns holder
  exec (.takeHold key display columns)

/-- `release_hold`: delete the hold row if the holder still owns it, and say
    whether it did. -/
def releaseHold (site : ReleaseSite) (key : GroupKey) (holder : Holder) : Cmd Bool := do
  let columns ← holderColumns holder
  let owned ← Tx.select fun s : Db => (s.holds.get key).any fun h => h.holder = columns
  exec (.releaseHold site key columns)
  pure owned

/-- `enqueue_wait`. -/
def enqueueWait (key : GroupKey) (holder : Holder) : Cmd Unit := do
  let columns ← holderColumns holder
  exec (.enqueueWait key columns)

/-- `requeue_wait`: the row returns under its old `wait_id`. -/
def requeueWait (key : GroupKey) (holder : Holder) (waitId : Nat) : Cmd Unit := do
  let columns ← holderColumns holder
  exec (.requeueWait key columns waitId)

/-- `remove_wait`. -/
def removeWait (site : UnwaitSite) (key : GroupKey) (holder : Holder) : Cmd Unit := do
  let columns ← holderColumns holder
  exec (.removeWait site key columns)

/-! ## Admission -/

/-- `AcqOutcome`. -/
inductive AcqOutcome
  | acquired
  | parked
  | arrivalCancelled
deriving DecidableEq, Repr

/-- One displaced waiter: cancelled when it is of another run, and its wait row
    removed either way. -/
def displaceWaiter (cancel : Holder → Cmd Unit) (key : GroupKey) (arrival : Holder)
    (waiter : Holder) : Cmd Unit := do
  exec (.mark (.displaces key arrival waiter))
  if waiter.runId ≠ arrival.runId then cancel waiter
  removeWait .displaced key waiter

/-- An existing holder of another run was triggered by a newer event. -/
def Db.superseded (s : Db) (holder : Holder) (existing : List Holder) : Bool :=
  (s.eventOrderOf holder).any fun arrival =>
    existing.any fun h =>
      h.runId ≠ holder.runId && (s.eventOrderOf h).any fun order => arrival.isOlderThan order

/-- `acquire`. -/
def acquire (cancel : Holder → Cmd Unit) (key : GroupKey) (display : String) (holder : Holder)
    (cancelInProgress : Bool) (queue : ConcurrencyQueue) : Cmd AcqOutcome := do
  exec (.mark (.arrives key holder))
  let current ← Tx.select fun s : Db => (s.holdRow key).map Prod.fst
  let pending ← Tx.select fun s : Db => (s.waiters key).map Prod.snd
  let superseded ← Tx.select fun s : Db => s.superseded holder (current.toList ++ pending)
  if (cancelInProgress || queue = .single) && superseded then
    pure .arrivalCancelled
  else
    let stuck ← Tx.select fun s : Db => current.any fun h => s.runStuck h.runId
    match current, stuck with
    | some currentHolder, true =>
      -- Evicted without a cancellation: whatever its run still has ready stays so.
      exec (.mark (.displaces key holder currentHolder))
      let _ ← releaseHold .stuck key currentHolder
      takeHold key display holder
      pure .acquired
    | _, _ =>
      match concurrencyAdmission holder.runId cancelInProgress (current.map Holder.runId),
          current with
      | .cancelCurrent, some currentHolder =>
        pending.forM (displaceWaiter cancel key holder)
        exec (.mark (.displaces key holder currentHolder))
        let _ ← releaseHold .displaced key currentHolder
        if currentHolder.runId ≠ holder.runId then cancel currentHolder
        takeHold key display holder
        pure .acquired
      | .waiting, _ =>
        match concurrencyQueueDecision queue pending.length with
        | .cancelArrival => pure .arrivalCancelled
        | .cancelPending =>
          pending.forM (displaceWaiter cancel key holder)
          enqueueWait key holder
          pure .parked
        | .park =>
          enqueueWait key holder
          pure .parked
      | _, _ =>
        takeHold key display holder
        pure .acquired

end Preloop
