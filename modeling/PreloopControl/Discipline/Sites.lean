import PreloopControl.Effects
import PreloopControl.Settle

/-!
# The Write Discipline

What the program knows at the point where it issues a statement, said once for
all statements, so that an invariant is proved statement by statement and never
by walking through the program again.

A statement is issued on rows some of which were read earlier in the same
transaction, when the invariant held too. `Site` collects both kinds of
knowledge: facts about the database the statement runs on, and facts about an
earlier one.

Many invariants are broken inside a transaction: a group is free between its
release and its hand-over, a run is completed before the event that announces
it is written. `Pending` lists what is open at a point, an invariant is indexed
by it, `Moves` says how a statement changes the list and `Shift` how it may be
changed without one. An invariant that is kept by every statement and every
shift (`Kept`) is kept by every command.

## Main definitions

* `Pending`: What is open at a point inside a transaction.
* `Site`: What is known where a statement is issued.
* `Moves`, `Shift`: How the open list changes.
* `KeptInside`, `Kept`: Invariants kept by the statements that may be nested,
  and by all statements.

## Theorems

* `KeptInside.frame`: A fact no nested statement changes may be added.
* `KeptInside.exec`, `Kept.exec`: The rules for one statement.
-/

namespace Preloop

open Txn

/-! ## What is open inside a transaction -/

/-- What is open at a point inside a transaction: groups released and not yet
    handed on, runs summarized and not yet dealt with (with whether there is a
    completion to announce), holders known to be settled, and holders whose wait
    row or whose hold was taken from them. -/
structure Pending where
  free : List GroupKey
  owed : List (RunId × Bool)
  gone : List Holder
  exposed : List Holder
  ousted : List Holder

namespace Pending

/-- Nothing is open, as between commands. -/
def none : Pending := ⟨[], [], [], [], []⟩

variable (x : Pending)

def addFree (key : GroupKey) : Pending := { x with free := key :: x.free }

def addOwed (r : RunId) : Pending := { x with owed := (r, true) :: x.owed }

def addGone (h : Holder) : Pending := { x with gone := h :: x.gone }

def addExposed (h : Holder) : Pending := { x with exposed := h :: x.exposed }

def addOusted (h : Holder) : Pending := { x with ousted := h :: x.ousted }

/-- A summary was taken: a terminal one settles the run. -/
def settle (r : RunId) (summary : ExecutionStatus) : Pending :=
  if summary.isTerminal then x.addGone (.run r) else x

/-- A summary was taken that is to be announced if it is terminal. -/
def conclude (r : RunId) (summary : ExecutionStatus) : Pending :=
  { x.settle r summary with owed := (r, summary.isTerminal) :: x.owed }

theorem settle_owed (r : RunId) (summary : ExecutionStatus) :
    (x.settle r summary).owed = x.owed := by
  unfold settle
  split <;> rfl

/-- What was open before a summary can be read off what is open after it. -/
theorem conclude_inj {x z : Pending} {r : RunId} {a b : ExecutionStatus}
    (h : x.conclude r a = z.conclude r b) : a.isTerminal = b.isTerminal ∧ x = z := by
  simp only [conclude, settle, Pending.mk.injEq, List.cons.injEq, Prod.mk.injEq, true_and] at h
  obtain ⟨hfree, ⟨hterm, howed⟩, hgone, hexposed, housted⟩ := h
  refine ⟨hterm, ?_⟩
  rw [hterm] at hfree hgone hexposed housted
  cases hb : b.isTerminal with
  | true =>
      simp only [hb, if_true, addGone, List.cons.injEq, true_and] at hfree hgone hexposed housted
      rw [Pending.mk.injEq]
      exact ⟨hfree, howed, hgone, hexposed, housted⟩
  | false =>
      simp only [hb, Bool.false_eq_true, if_false] at hfree hgone hexposed housted
      rw [Pending.mk.injEq]
      exact ⟨hfree, howed, hgone, hexposed, housted⟩

end Pending

/-! ## Facts about rows -/

namespace Db

/-- The holder as the holds and waits tables store it. -/
def encodes (s : Db) : Holder → HolderRow → Prop
  | .run r, .run r' => r' = r
  | .job r j, .job r' j' => r' = r ∧ j' = j
  | .jobSet r jobIds, .jobSet r' id =>
    r' = r ∧ ∃ set, s.jobsets.get id = some set ∧ set.runId = r ∧ set.jobIds = jobIds
  | _, _ => False

/-- The group is held by this holder. -/
def names (s : Db) (key : GroupKey) (h : Holder) : Prop :=
  ∃ row, s.holds.get key = some row ∧ s.encodes h row.holder

/-- The holder has a wait row. -/
def awaits (s : Db) (h : Holder) : Prop :=
  ∃ id row, s.waits.get id = some row ∧ s.encodes h row.holder

/-- The summary of a run's leaf jobs. -/
def summary (s : Db) (r : RunId) : ExecutionStatus :=
  summarizeRun ((s.runGraph r).map Job.status)

/-- Ids already handed out are below the counters, and jobs belong to runs. -/
structure Counters (s : Db) : Prop where
  runs : ∀ r row, s.run r = some row → r < s.nextRun
  jobs : ∀ r j row, s.job r j = some row → s.runExists r = true
  jobsets : ∀ id set, s.jobsets.get id = some set → id < s.nextJobset

/-- No job of the run is unsettled. -/
def allSettled (s : Db) (r : RunId) : Prop :=
  ∀ j row, s.job r j = some row → row.status.isTerminal = true

end Db

/-- The part of a job row that no statement rewrites. -/
def Job.frozen (j : Job) :
    JobKind × Option JobId × String × List JobId × Option String × Option String :=
  (j.kind, j.parentJobId, j.baseId, j.needs, j.spec.deferredMatrix, j.spec.reusableCall)

/-- The same job rows, with the same fixed part. -/
def Frozen (s0 s : Db) : Prop :=
  ∀ r j, (s.job r j).map Job.frozen = (s0.job r j).map Job.frozen

section Site

variable (P : Pending → Db → Prop) (rr : RunId → Prop) (c : Contract Stmt Db)

/-- A database of the same transaction or of one before it. -/
def Past (s0 : Db) : Prop := ∃ x, P x s0

/-- Where a holder may come from: a stored row, a job on its way through the
    sweep, a submission or a rerun. -/
def Known : Holder → Prop
  | .run _ => True
  | .job r j => rr r ∨ ∃ s0, Past P s0 ∧
      ((∃ key row, s0.holds.get key = some row ∧ row.holder = .job r j) ∨
       (∃ id row, s0.waits.get id = some row ∧ row.holder = .job r j) ∨
       (∃ row, s0.job r j = some row ∧ row.queueState = .blocked) ∨
       ∃ sub, s0.submits.get r = some sub ∧ sub.forkApprovalPending = false)
  | .jobSet r jobIds => ∃ s0, Past P s0 ∧
      ((∃ id set, s0.jobsets.get id = some set ∧ set.runId = r ∧ set.jobIds = jobIds) ∨
       (∃ key row, s0.holds.get key = some row ∧ s0.holderOf row.holder = .jobSet r jobIds) ∨
       (∃ id row, s0.waits.get id = some row ∧ s0.holderOf row.holder = .jobSet r jobIds) ∨
       ∃ j row, jobIds = [j] ∧ s0.job r j = some row ∧ row.queueState = .blocked)

/-- The holder was read off the group, as its holder or from its queue. -/
def OnGroup (key : GroupKey) (h : Holder) : Prop :=
  ∃ s0, Past P s0 ∧
    ((∃ row, s0.holds.get key = some row ∧ s0.holderOf row.holder = h) ∨
      ∃ id row, s0.waits.get id = some row ∧ row.key = key ∧ s0.holderOf row.holder = h)

/-- The holder arrived at the group. -/
def Arrived (key : GroupKey) (h : Holder) : Prop :=
  ∃ s0, Past P s0 ∧ c.rely (.mark (.arrives key h)) s0

/-- The job was read as a candidate of a sweep, under the same open list, and no
    job row was inserted or deleted since. -/
def Swept (x : Pending) (s : Db) (r : RunId) (j : JobId) (q : Job → Prop) : Prop :=
  ∃ s0 row, P x s0 ∧ Frozen s0 s ∧ s0.job r j = some row ∧ row.queueState = .blocked ∧ q row

/-- The job is inserted by a submission that was read before. -/
def Submitted (r : RunId) (q : Submit → Prop) : Prop :=
  ∃ s0 sub, P .none s0 ∧ s0.submits.get r = some sub ∧ q sub

/-- The job is under a lease that was read before. -/
def Leased (r : RunId) (j : JobId) : Prop :=
  ∃ s0 lease, P .none s0 ∧ lease ∈ s0.leases ∧ lease.runId = r ∧ lease.jobId = j

/-- The job was not there before this transaction, but its run was. -/
def Inserted (r : RunId) (j : JobId) : Prop :=
  ∃ s0, P .none s0 ∧ s0.job r j = none ∧ s0.runExists r = true

/-- What is known where a job row is written. -/
def JobSite (x : Pending) (s : Db) (r : RunId) (j : JobId) : JobWrite → Prop
  | .finish _ status => status.isTerminal = true
  | .enqueueReady .promoteNext =>
    Known P rr (.job r j) ∧ (∃ key, s.names key (.job r j)) ∧
      ∃ row, s.job r j = some row ∧ row.queueState = .held ∧ row.status.isTerminal = false
  | .enqueueReady .sweep =>
    Swept P x s r j fun row => row.spec.reusableCall = none ∧ row.spec.deferredMatrix = none
  | .enqueueReady .submit =>
    x = .none ∧ Submitted P r fun sub => sub.held = false ∧ sub.forkApprovalPending = false
  | .enqueueReady .rerun => x = .none ∧ rr r
  | .park .sweepJobset =>
    Swept P x s r j (fun row => row.spec.reusableCall.isSome) ∧
      ∃ id wait r' set members, s.waits.get id = some wait ∧ wait.holder = .jobSet r' set ∧
        s.jobsets.get set = some members ∧ members.runId = r ∧ j ∈ members.jobIds
  | .park .sweepEnvironment =>
    Swept P x s r j (fun row => row.spec.reusableCall = none ∧ row.spec.deferredMatrix = none) ∧
      ∀ row, s.job r j = some row → row.environmentGate.isSome = true
  | .park .sweepGate =>
    Swept P x s r j (fun row => row.spec.reusableCall = none ∧ row.spec.deferredMatrix = none) ∧
      s.awaits (.job r j)
  | .park .submit =>
    x = .none ∧ Submitted P r (fun sub => sub.held = false ∧ sub.forkApprovalPending = false) ∧
      s.awaits (.job r j) ∧ Inserted P r j
  | .park .rerun => x = .none ∧ rr r ∧ s.awaits (.job r j)
  | .unpark .promoteRun =>
    ∃ row, s.job r j = some row ∧ row.queueState = .held ∧ row.status = .pending
  | .unpark .promoteJobset => ∃ jobIds, j ∈ jobIds ∧ Known P rr (.jobSet r jobIds)
  | .unpark .releaseParked =>
    ∃ s0 run row, Past P s0 ∧ s0.run r = some run ∧ run.forkApprovalPending = false ∧
      s0.job r j = some row ∧ row.queueState = .held
  | .deferExpansion .caller => Swept P x s r j fun row => row.spec.reusableCall.isSome
  | .deferExpansion .matrix => Swept P x s r j fun row => row.spec.deferredMatrix.isSome
  | .requeue =>
    x = .none ∧ ∃ row, s.job r j = some row ∧ row.queueState = .claimed
  | .gateFailed status =>
    x = .none ∧ status.isTerminal = true ∧ (rr r ∨
      Submitted P r fun sub => sub.held = false ∧ sub.forkApprovalPending = false)
  | .expandedMatrix => x = .none ∧ Leased P r j
  | .startCaller => x = .none ∧ Leased P r j
  | .fold status _ => x = .none ∧ status.isTerminal = true
  | .restartCaller => x = .none ∧ rr r
  | .reset status queueState _ gate =>
    x = .none ∧ rr r ∧ status.isTerminal = false ∧ status ≠ .inProgress ∧
      (queueState = .held ∧ status = .pending ∧
          (gate.isSome = true ∨ ∃ s0, P .none s0 ∧ s0.awaits (.run r)) ∨
        queueState = .blocked ∨ queueState = .none)
  | .resetConcluded status => x = .none ∧ rr r ∧ status.isTerminal = true
  | .setTemplate _ _ | .setConditionContext _ => rr r
  | .setGate .stamp _ => True
  | .setGate _ gate => gate.isSome = true ∨ .job r j ∈ x.exposed
  | _ => True

/-- What is known where a run row is written. -/
def RunSite (x : Pending) (s : Db) (r : RunId) : RunWrite → Prop
  | .cancel => s.runExists r = true ∧ s.allSettled r
  | .expireFork => s.runExists r = true ∧ s.allSettled r
  | .clearFork => s.allSettled r
  | .poison => Submitted P r fun _ => True
  | .arrivalCancelled =>
    x = .none ∧ s.runExists r = true ∧ s.runCompleted r = false ∧
      ∀ j row, s.job r j = some row →
        (row.status.isTerminal = true ∧ row.queueState = .none) ∨
        ∃ s0 row0, P .none s0 ∧ s0.runCompleted r = true ∧ s0.job r j = some row0 ∧
          row.status = row0.status ∧ row.queueState = row0.queueState ∧ row.frozen = row0.frozen
  | .setGroup _ => rr r
  | .rerun _ => x = .none ∧ rr r ∧ s.runCompleted r = true
  | _ => True

/-- What is known where a job row is inserted. -/
def InsertSite (row : Job) : Prop :=
  (row.kind = .matrixParent ↔ row.spec.deferredMatrix.isSome = true) ∧
    ((row.status.isTerminal = true ∧ row.queueState = .none) ∨
      (row.status = .pending ∧ row.queueState = .held ∧ row.parentJobId = none ∧
        Submitted P row.runId fun sub =>
          sub.held = true ∨ sub.forkApprovalPending = true ∨ row.environmentGate.isSome = true) ∨
      (row.status.isTerminal = false ∧ row.status ≠ .inProgress ∧
        (row.queueState = .blocked ∨ row.queueState = .none) ∧ row.parentJobId = none ∧
        Submitted P row.runId fun sub => sub.held = false ∧ sub.forkApprovalPending = false) ∨
      (row.status = .pending ∧ row.queueState = .blocked ∧ ∃ j, Leased P row.runId j))

/-- What is known where a hold row is released. -/
def ReleaseFacts (x : Pending) (s : Db) (h : Holder) : ReleaseSite → Prop
  | .stuck => s.runStuck h.runId = true
  | .displaced => h ∈ x.ousted
  | .job => h ∈ x.gone
  | .run .poisoned => True
  | .run _ => .run h.runId ∈ x.gone
  | .jobset => True

/-- What is known where a statement is issued. -/
def Site (x : Pending) (s : Db) : Stmt → Prop
  | .job w r j => JobSite P rr x s r j w
  | .run w r => RunSite P rr x s r w
  | .insertRun row => x = .none ∧ row.runId = s.nextRun ∧ row.attempt = 1 ∧ row.status = .queued
  | .insertJob row => x = .none ∧ InsertSite P row
  | .insertMatrixParent row =>
    x = .none ∧ (∃ j, Leased P row.runId j) ∧ row.kind = .matrixParent ∧ row.status = .pending ∧
      row.queueState = .none ∧ row.parentJobId = none ∧ row.spec.deferredMatrix = none
  | .takeHold key _ row =>
    ∃ h, s.encodes h row ∧ Known P rr h ∧ (Arrived P c key h ∨ OnGroup P key h)
  | .enqueueWait key row => ∃ h, s.encodes h row ∧ Known P rr h ∧ Arrived P c key h
  | .requeueWait key row _ =>
    key ∈ x.free ∧ ∃ h, s.encodes h row ∧ Known P rr h ∧ OnGroup P key h
  | .releaseHold site _ row => ∃ h, s.encodes h row ∧ Known P rr h ∧ ReleaseFacts x s h site
  | .dropHold key => x = .none ∧ s.firstWaiter key = none
  | .removeWait _ _ row => ∃ h, s.encodes h row ∧ Known P rr h
  | .removeWaitById id => ∀ w, s.waits.get id = some w → s.holderOf w.holder ∈ x.exposed
  | .deleteRunWaits .poisoned _ => True
  | .deleteRunWaits .rerun r => x = .none ∧ rr r
  | .deleteRunWaits _ r => .run r ∈ x.gone
  | .deleteJobsetWaits r id =>
    ∀ set, s.jobsets.get id = some set → set.runId = r ∧ .jobSet r set.jobIds ∈ x.exposed
  | .deleteRunJobsets r => .run r ∈ x.gone ∨ (x = .none ∧ rr r)
  | .insertJobset r jobIds => Known P rr (.jobSet r jobIds)
  | .deleteRun r => x = .none ∧ s.runLive r = false
  | .summarize .settleAgain r => ∃ z : Pending, x = z.conclude r (s.summary r)
  | .summarize (.failFast concluded) r =>
    ∃ (z : Pending) (first : ExecutionStatus), x = z.conclude r first ∧
      concluded = first.isTerminal
  | .keepSubmit sub =>
    x = .none ∧ ((∃ s0 row, P .none s0 ∧ c.rely (.insertRun row) s0 ∧ row.runId = sub.runId ∧
        row.forkApprovalPending = sub.forkApprovalPending) ∨
      Submitted P sub.runId fun sub0 =>
        sub.held = sub0.held ∧ sub.forkApprovalPending = sub0.forkApprovalPending)
  | .keepLease lease =>
    x = .none ∧ ∃ row, s.job lease.runId lease.jobId = some row ∧ row.queueState = .expanding ∧
      row.expandGeneration = lease.generation
  | .resumeExpansions | .forgetMemory => x = .none
  | .mark (.noWaiter key) => s.firstWaiter key = none
  | .mark (.displaces key arrival victim) => Arrived P c key arrival ∧ OnGroup P key victim
  | _ => True

/-! ## How the open list changes -/

/-- The open list before and after a statement. -/
def Moves (s : Db) (x y : Pending) : Stmt → Prop
  | .job (.finish _ _) r j => y = x.addGone (.job r j)
  | .job (.fold _ _) r j => y = x.addGone (.job r j)
  | .job (.enqueueReady .promoteNext) r j => x = y.addExposed (.job r j)
  | .cancelRunJobs r => y = x.addGone (.run r)
  | .expireRunJobs r => y = x.addGone (.run r)
  | .run .cancel r => y = if s.runCompleted r then x else x.addOwed r
  | .run .expireFork r => y = if s.runCompleted r then x else x.addOwed r
  | .run .poison r => y = x.addOwed r
  | .run .arrivalCancelled r => y = x.addOwed r
  | .summarize .settleNode r => y = x.conclude r (s.summary r)
  | .summarize .settleAgain r =>
    ∃ (z : Pending) (before : ExecutionStatus), x = z.conclude r before ∧ y =
      z.conclude r (s.summary r)
  | .summarize (.failFast _) r =>
    ∃ (z : Pending) (before : ExecutionStatus), x = z.conclude r before ∧ y =
      z.conclude r (s.summary r)
  | .summarize (.finalize false) r => y = x.conclude r (s.summary r)
  | .summarize _ r => y = x.settle r (s.summary r)
  | .takeHold key _ _ => x = y.addFree key
  | .releaseHold _ key row =>
    y = if (s.holds.get key).any fun h => h.holder = row then x.addFree key else x
  | .emit event => if event.topic = .runCompleted then x = y.addOwed event.runId else y = x
  | .mark (.noWaiter key) => x = y.addFree key
  | .mark (.notGranted key _) => x = y.addFree key
  | _ => y = x

/-- A holder whose wait row was consumed needs none any more: it is settled, it
    waits again, or none of its jobs is held by it alone. -/
def Excused (x : Pending) (s : Db) (h : Holder) : Prop :=
  h ∈ x.gone ∨ s.awaits h ∨
    match h with
    | .job r j => ∀ row, s.job r j = some row →
        row.queueState ≠ .held ∨ row.status.isTerminal = true
    | .run r => ∀ j row, s.job r j = some row → row.queueState = .held → row.status = .pending →
        s.covered r j = true
    | .jobSet r jobIds => (∀ j ∈ jobIds, ∀ row, s.job r j = some row → row.queueState ≠ .held) ∨
        ∃ s0 id wait, Past P s0 ∧ s0.jobsets = s.jobsets ∧ s0.waits.get id = some wait ∧
          s0.holderOf wait.holder = .jobSet r jobIds ∧ s.findJobset r jobIds = none

/-- Changes of the open list that need no statement. -/
inductive Shift (s : Db) : Pending → Pending → Prop
  | free (x : Pending) (key : GroupKey) : Shift s x (x.addFree key)
  | expose (x : Pending) (h : Holder) : Shift s x (x.addExposed h)
  | oust (x : Pending) (h : Holder) : Shift s x (x.addOusted h)
  | forget (x : Pending) (g : List Holder) (h : ∀ a ∈ g, a ∈ x.gone) :
      Shift s x { x with gone := g }
  | jobSettled (x : Pending) (r : RunId) (j : JobId)
      (h : ∀ row, s.job r j = some row → row.status.isTerminal = true) :
      Shift s x (x.addGone (.job r j))
  | runSettled (x : Pending) (r : RunId) (h : (s.summary r).isTerminal = true) :
      Shift s x (x.addGone (.run r))
  | runMissing (x : Pending) (r : RunId) (h : s.runExists r = false) :
      Shift s x (x.addGone (.run r))
  | setSettled (x : Pending) (r : RunId) (jobIds : List JobId)
      (h : ∀ j ∈ jobIds, .job r j ∈ x.gone ∨
        ∀ row, s.job r j = some row → row.status.isTerminal = true) :
      Shift s x (x.addGone (.jobSet r jobIds))
  | ofRun (x : Pending) (h : Holder) (hrun : .run h.runId ∈ x.gone) : Shift s x (x.addGone h)
  | unowed (x : Pending) (r : RunId) : Shift s { x with owed := (r, false) :: x.owed } x
  | excuse (x : Pending) (h : Holder) (hex : Excused P x s h) : Shift s (x.addExposed h) x
  | replaced (x : Pending) (h : Holder) (hgone : h ∈ x.gone) : Shift s (x.addOusted h) x

end Site

/-! ## Invariants kept by the program -/

/-- Statements that may be issued inside the hand-over of a group. -/
def Stmt.inner : Stmt → Bool
  | .job w _ _ =>
    match w with
    | .finish _ _ | .bumpGeneration | .enqueueReady .promoteNext | .enqueueReady .sweep
    | .park .sweepJobset | .park .sweepEnvironment | .park .sweepGate | .unpark .promoteRun
    | .unpark .promoteJobset | .deferExpansion _ | .setGate .sweep _ | .setRunsOn _
    | .setMessage _ => true
    | _ => false
  | .run .start _ | .run .cancel _ => true
  | .cancelRunJobs _ | .refreshRemainingNeeds .. => true
  | .summarize site _ =>
    match site with
    | .settleNode | .settleAgain | .failFast _ | .failJobset | .cancelJob => true
    | _ => false
  | .takeHold .. | .releaseHold .. | .enqueueWait .. | .requeueWait .. | .removeWait ..
  | .removeWaitById _ | .deleteJobsetWaits .. | .insertJobset .. | .insertGate _
  | .acquireGate .. | .acquirePromotedGate .. | .jobsetReady _ | .deleteJobset _
  | .deleteRunJobsets _ | .request .. | .dropCancellation _ | .queueCancellation ..
  | .emit _ | .mark _ => true
  | .deleteRunWaits why _ => why ≠ .rerun
  | _ => false

/-- An invariant kept by the statements that may be nested. -/
structure KeptInside (P : Pending → Db → Prop) (rr : RunId → Prop) (c : Contract Stmt Db) :
    Prop where
  counters : ∀ {x s}, P x s → s.Counters
  shift : ∀ {x y s}, Shift P s x y → P x s → P y s
  step : ∀ {x y st s s'}, st.inner = true → Site P rr c x s st → Moves s x y st → P x s →
    c.rely st s → st.apply s = .ok s' → P y s' ∧ c.guar st s

/-- An invariant kept by every statement. -/
structure Kept (P : Pending → Db → Prop) (rr : RunId → Prop) (c : Contract Stmt Db) : Prop
    extends KeptInside P rr c where
  outer : ∀ {x y st s s'}, st.inner = false → Site P rr c x s st → Moves s x y st → P x s →
    c.rely st s → st.apply s = .ok s' → P y s' ∧ c.guar st s

section Mono

variable {P P' : Pending → Db → Prop} {rr : RunId → Prop} {c : Contract Stmt Db}

theorem Past.mono (hP : ∀ x s, P x s → P' x s) {s0 : Db} (h : Past P s0) : Past P' s0 :=
  h.imp fun x hx => hP x s0 hx

theorem Known.mono (hP : ∀ x s, P x s → P' x s) {h : Holder} (hk : Known P rr h) :
    Known P' rr h := by
  cases h with
  | run r => trivial
  | job r j => exact hk.imp id fun ⟨s0, hpast, hrow⟩ => ⟨s0, hpast.mono hP, hrow⟩
  | jobSet r jobIds =>
      obtain ⟨s0, hpast, hrow⟩ := hk
      exact ⟨s0, hpast.mono hP, hrow⟩

theorem OnGroup.mono (hP : ∀ x s, P x s → P' x s) {key : GroupKey} {h : Holder}
    (hon : OnGroup P key h) : OnGroup P' key h :=
  hon.imp fun _ hs0 => ⟨hs0.1.mono hP, hs0.2⟩

theorem Arrived.mono (hP : ∀ x s, P x s → P' x s) {key : GroupKey} {h : Holder}
    (harr : Arrived P c key h) : Arrived P' c key h :=
  harr.imp fun _ hs0 => ⟨hs0.1.mono hP, hs0.2⟩

theorem Swept.mono (hP : ∀ x s, P x s → P' x s) {x : Pending} {s : Db} {r : RunId} {j : JobId}
    {q : Job → Prop} (h : Swept P x s r j q) : Swept P' x s r j q := by
  obtain ⟨s0, row, hs0, hrest⟩ := h
  exact ⟨s0, row, hP x s0 hs0, hrest⟩

/-- Only statements that may be nested need this: their sites name earlier
    databases in few ways. -/
theorem Site.mono (hP : ∀ x s, P x s → P' x s) {x : Pending} {s : Db} {st : Stmt}
    (hin : st.inner = true) (h : Site P rr c x s st) : Site P' rr c x s st := by
  cases st with
  -- writes of job rows: only a few sites name an earlier database
  | job w r j =>
      cases w with
      | enqueueReady site =>
          cases site with
          | promoteNext => exact ⟨h.1.mono hP, h.2⟩
          | sweep => exact Swept.mono hP h
          | submit => exact absurd hin Bool.false_ne_true
          | rerun => exact absurd hin Bool.false_ne_true
      | park site =>
          cases site with
          | sweepJobset => exact ⟨h.1.mono hP, h.2⟩
          | sweepEnvironment => exact ⟨h.1.mono hP, h.2⟩
          | sweepGate => exact ⟨h.1.mono hP, h.2⟩
          | submit => exact absurd hin Bool.false_ne_true
          | rerun => exact absurd hin Bool.false_ne_true
      | unpark site =>
          cases site with
          | promoteRun => exact h
          | promoteJobset =>
              obtain ⟨jobIds, hj, hk⟩ := h
              exact ⟨jobIds, hj, hk.mono hP⟩
          | releaseParked => exact absurd hin Bool.false_ne_true
      | deferExpansion site =>
          cases site with
          | caller => exact Swept.mono hP h
          | matrix => exact Swept.mono hP h
      | finish site status => exact h
      | bumpGeneration => trivial
      | setGate site gate =>
          cases site <;> exact h
      | setRunsOn labels => trivial
      | setMessage message => trivial
      | _ => exact absurd hin Bool.false_ne_true
  | run w r =>
      cases w with
      | start => trivial
      | cancel => exact h
      | _ => exact absurd hin Bool.false_ne_true
  -- the rows that are taken or put name a holder that was known, which the weaker property keeps
  | takeHold key display row =>
      exact h.imp fun h hh =>
        ⟨hh.1, hh.2.1.mono hP, hh.2.2.imp (Arrived.mono hP) (OnGroup.mono hP)⟩
  | enqueueWait key row => exact h.imp fun h hh => ⟨hh.1, hh.2.1.mono hP, hh.2.2.mono hP⟩
  | requeueWait key row id =>
      exact ⟨h.1, h.2.imp fun h hh => ⟨hh.1, hh.2.1.mono hP, hh.2.2.mono hP⟩⟩
  | releaseHold site key row => exact h.imp fun h hh => ⟨hh.1, hh.2.1.mono hP, hh.2.2⟩
  | removeWait site key row => exact h.imp fun h hh => ⟨hh.1, hh.2.mono hP⟩
  | insertJobset r jobIds =>
      have hk : Known P rr (.jobSet r jobIds) := h
      exact hk.mono hP
  | mark m =>
      cases m with
      | displaces => exact ⟨h.1.mono hP, h.2.mono hP⟩
      | _ => exact h
  | insertRun row => exact absurd hin Bool.false_ne_true
  | insertJob row => exact absurd hin Bool.false_ne_true
  | insertMatrixParent row => exact absurd hin Bool.false_ne_true
  | keepSubmit row => exact absurd hin Bool.false_ne_true
  | keepLease row => exact absurd hin Bool.false_ne_true
  | deleteRunWaits why r => cases why <;> exact h
  | summarize site r => cases site <;> exact h
  | _ => exact h
-- these speak of the database as it is

theorem Excused.mono (hP : ∀ x s, P x s → P' x s) {x : Pending} {s : Db} {h : Holder}
    (hex : Excused P x s h) : Excused P' x s h := by
  refine hex.imp id (Or.imp id ?_)
  intro hmatch
  cases h with
  | run r => exact hmatch
  | job r j => exact hmatch
  | jobSet r jobIds =>
      exact hmatch.imp id fun ⟨s0, id, wait, hpast, hrest⟩ =>
        ⟨s0, id, wait, hpast.mono hP, hrest⟩

theorem Shift.mono (hP : ∀ x s, P x s → P' x s) {x y : Pending} {s : Db} (h : Shift P s x y) :
    Shift P' s x y := by
  cases h with
  | free _ key => exact .free x key
  | expose _ h => exact .expose x h
  | oust _ h => exact .oust x h
  | forget _ g h => exact .forget x g h
  | jobSettled _ r j h => exact .jobSettled x r j h
  | runSettled _ r h => exact .runSettled x r h
  | runMissing _ r h => exact .runMissing x r h
  | setSettled _ r jobIds h => exact .setSettled x r jobIds h
  | ofRun _ h hrun => exact .ofRun x h hrun
  | unowed _ r => exact .unowed y r
  | excuse _ h hex => exact .excuse y h (hex.mono hP)
  | replaced _ h hgone => exact .replaced y h hgone

end Mono

section Rules

variable {P : Pending → Db → Prop} {rr : RunId → Prop} {c : Contract Stmt Db}

/-- A fact that no nested statement changes may be carried along. -/
theorem KeptInside.frame (K : KeptInside P rr c) {F : Db → Prop}
    (hF : ∀ {st : Stmt} {s s' : Db}, st.inner = true → st.apply s = .ok s' → F s → F s') :
    KeptInside (fun x s => P x s ∧ F s) rr c where
  counters h := K.counters h.1
  shift hs h := ⟨K.shift (hs.mono fun _ _ hPF => hPF.1) h.1, h.2⟩
  step hin hsite hmove h hrely happly := by
    have hsite' := Site.mono (fun _ _ hPF => hPF.1) hin hsite
    obtain ⟨hP, hg⟩ := K.step hin hsite' hmove h.1 hrely happly
    exact ⟨⟨hP, hF hin happly h.2⟩, hg⟩

variable {x y : Pending} {F G : Db → Prop}

/-- One statement, with a fact about the database before and after. -/
theorem KeptInside.exec (K : KeptInside P rr c) (st : Stmt) (hin : st.inner = true)
    (hsite : ∀ s, P x s → F s → Site P rr c x s st) (hmove : ∀ s, F s → Moves s x y st)
    (hG : ∀ s s', F s → st.apply s = .ok s' → G s') :
    Triple c (fun s => P x s ∧ F s) (Preloop.exec st) fun _ s => P y s ∧ G s := by
  refine Triple.issue ?_
  rintro s s' ⟨hP, hf⟩ hrely happly
  obtain ⟨hP', hg⟩ := K.step hin (hsite s hP hf) (hmove s hf) hP hrely happly
  exact ⟨⟨hP', hG s s' hf happly⟩, hg⟩

/-- One statement that leaves the open list alone. -/
theorem KeptInside.keep (K : KeptInside P rr c) (st : Stmt) (hin : st.inner = true)
    (hsite : ∀ s, P x s → Site P rr c x s st) (hmove : ∀ s, Moves s x x st) :
    Triple c (P x) (Preloop.exec st) fun _ => P x := by
  refine Triple.issue ?_
  intro s s' hP hrely happly
  exact K.step hin (hsite s hP) (hmove s) hP hrely happly

/-- One statement on tables that the fact does not read. -/
theorem KeptInside.carry (K : KeptInside P rr c) (st : Stmt) {tables : List TableName}
    (hin : st.inner = true) (hsite : ∀ s, P x s → Site P rr c x s st)
    (hmove : ∀ s, Moves s x x st) (hF : Ignores tables F)
    (hw : (st.writes.all fun t => tables.contains t) = true) :
    Triple c (fun s => P x s ∧ F s) (Preloop.exec st) fun _ s => P x s ∧ F s :=
  K.exec st hin (fun s hP _ => hsite s hP) (fun s _ => hmove s) fun _ _ hf happly =>
    hF hw happly hf

theorem KeptInside.unsettle (K : KeptInside P rr c) {r : RunId} {summary : ExecutionStatus}
    {s : Db} (h : P (x.settle r summary) s) : P x s := by
  unfold Pending.settle at h
  split at h
  · exact K.shift (.forget (x.addGone (.run r)) x.gone fun _ ha => List.mem_cons_of_mem _ ha) h
  · exact h

theorem KeptInside.drop (K : KeptInside P rr c) {h : Holder} {s : Db} (hP : P (x.addGone h) s) :
    P x s :=
  K.shift (.forget (x.addGone h) x.gone fun _ ha => List.mem_cons_of_mem _ ha) hP

theorem Kept.exec (K : Kept P rr c) (st : Stmt) (hsite : ∀ s, P x s → F s → Site P rr c x s st)
    (hmove : ∀ s, F s → Moves s x y st) (hG : ∀ s s', F s → st.apply s = .ok s' → G s') :
    Triple c (fun s => P x s ∧ F s) (Preloop.exec st) fun _ s => P y s ∧ G s := by
  refine Triple.issue ?_
  rintro s s' ⟨hP, hf⟩ hrely happly
  have hstep : P y s' ∧ c.guar st s := by
    cases hin : st.inner with
    | true => exact K.step hin (hsite s hP hf) (hmove s hf) hP hrely happly
    | false => exact K.outer hin (hsite s hP hf) (hmove s hf) hP hrely happly
  exact ⟨⟨hstep.1, hG s s' hf happly⟩, hstep.2⟩

/-- One statement that changes the open list in one way. -/
theorem Kept.move (K : Kept P rr c) (st : Stmt) (hsite : ∀ s, P x s → Site P rr c x s st)
    (hmove : ∀ s, Moves s x y st) : Triple c (P x) (Preloop.exec st) fun _ => P y := by
  refine Triple.issue ?_
  intro s s' hP hrely happly
  cases hin : st.inner with
  | true => exact K.step hin (hsite s hP) (hmove s) hP hrely happly
  | false => exact K.outer hin (hsite s hP) (hmove s) hP hrely happly

theorem Kept.keep (K : Kept P rr c) (st : Stmt) (hsite : ∀ s, P x s → Site P rr c x s st)
    (hmove : ∀ s, Moves s x x st) : Triple c (P x) (Preloop.exec st) fun _ => P x :=
  K.move st hsite hmove

theorem Kept.carry (K : Kept P rr c) (st : Stmt) {tables : List TableName}
    (hsite : ∀ s, P x s → Site P rr c x s st) (hmove : ∀ s, Moves s x x st) (hF : Ignores tables F)
    (hw : (st.writes.all fun t => tables.contains t) = true) :
    Triple c (fun s => P x s ∧ F s) (Preloop.exec st) fun _ s => P x s ∧ F s :=
  K.exec st (fun s hP _ => hsite s hP) (fun s _ => hmove s) fun _ _ hf happly => hF hw happly hf

end Rules

end Preloop
