import PreloopControl.Expressions.Eval
import PreloopControl.Lib.Preference
import PreloopControl.Logic

/-!
# Claiming from the Ready Queue

`claim_one` (`control/lite/poll.rs`) with the preference it shares with the other backend
(`control/logic.rs`): the tables it reads, the two reads of the ready queue, the ladder
that says who may claim a row, and the claim.

The joins are lookups under the primary key. Times are microseconds.

## Main definitions

* `runnerGroupMatches`, `runnerMatches`, `claimPreference`: Who is preferred.
* `QueueDb`, `readyRows`: The tables, and the ready queue in its global order.
* `claimPermitted`, `decode`: The candidates of a read.
* `claimOne`: The runner's own bindings first, then the queue in windows.
* `claimAmong`: The job that the preference selects from some rows taken as one list.

## Theorems

* `claimAmong_eq`: What is selected is the preferred row.
* `claim_of_mem`: A row of the queue can be claimed.
-/

namespace Preloop

open Txn Expressions Preference

/-! ## Matching -/

/-- `RunnerCapabilities`. -/
structure RunnerCapabilities where
  known : Bool
  labels : List String
  runnerGroupId : Option Int
  runnerGroupName : Option String

/-- `RunnerMatchRow`. -/
structure RunnerMatchRow where
  labels : List String
  known : Bool
  groupId : Option Int
  groupName : Option String

/-- `str::parse::<i64>`. -/
def parseI64 (t : Text) : Option Int :=
  match t with
  | '-' :: digits => ((digitsValue 10 decimalDigit digits).filter (· ≤ 2 ^ 63)).map fun n => -n
  | '+' :: digits => ((digitsValue 10 decimalDigit digits).filter (· < 2 ^ 63)).map fun n => n
  | digits => ((digitsValue 10 decimalDigit digits).filter (· < 2 ^ 63)).map fun n => n

/-- `str::eq_ignore_ascii_case`. -/
def eqIgnoreAsciiCase (a b : String) : Bool := Text.eqIgnoreAsciiCase a.toList b.toList

/-- `runner_group_matches`. -/
def runnerGroupMatches (ev : Evaluators) (required : Option String) (runner : RunnerMatchRow) :
    Bool :=
  match (required.map ev.trim).filter (· ≠ "") with
  | none => true
  | some required =>
      runner.known &&
        match parseI64 required.toList with
        | some id =>
            runner.groupId = some id ||
              (runner.groupId.isNone && runner.groupName.isNone && id = 1)
        | none =>
            match runner.groupId, runner.groupName with
            | _, some name => eqIgnoreAsciiCase name required
            | none, none => eqIgnoreAsciiCase "Default" required
            | some id, none => id = 1 && eqIgnoreAsciiCase "Default" required

/-- `runner_matches`. -/
def runnerMatches (ev : Evaluators) (jobLabels : List String) (requiredGroup : Option String)
    (runner : RunnerMatchRow) : Bool :=
  jobMatchesRunner ev jobLabels runner.labels && runnerGroupMatches ev requiredGroup runner

/-- `job_labels_covered_exactly`. -/
def jobLabelsCoveredExactly (ev : Evaluators) (jobLabels runnerLabels : List String) : Bool :=
  jobLabels.isEmpty || !runnerLabels.isEmpty &&
    let runnerSet := runnerLabels.map ev.toLowercase
    jobLabels.all fun required => runnerSet.contains (ev.toLowercase required)

/-- `ClaimCandidate`. -/
structure ClaimCandidate where
  runId : RunId
  jobId : JobId
  runsOn : List String
  runnerGroup : Option String
  assignedRunnerId : Option Nat
  assignmentFresh : Bool
  queuePosition : Nat
  claimable : Bool

section Preference

variable (ev : Evaluators) (runnerId : Option Nat) (runnerLabels : List String)
  (requiredGroup : Option String) (runner : RunnerMatchRow)

/-- `exact`. -/
def exactMatch (c : ClaimCandidate) : Bool :=
  jobLabelsCoveredExactly ev c.runsOn runnerLabels &&
    runnerGroupMatches ev (c.runnerGroup.or requiredGroup) runner

/-- `assigned`. -/
def assignedTo (c : ClaimCandidate) : Bool :=
  runnerId.isSome && c.assignedRunnerId = runnerId && c.assignmentFresh

/-- `eligible`. -/
def eligible (c : ClaimCandidate) : Bool :=
  c.claimable && runnerMatches ev c.runsOn c.runnerGroup runner

/-- The four tiers of the preference. -/
def claimTiers : List (ClaimCandidate → Bool) :=
  [fun c => eligible ev runner c && assignedTo runnerId c &&
      exactMatch ev runnerLabels requiredGroup runner c,
    fun c => eligible ev runner c && assignedTo runnerId c,
    fun c => eligible ev runner c && exactMatch ev runnerLabels requiredGroup runner c,
    fun c => eligible ev runner c]

/-- `claim_preference`. -/
def claimPreference (candidates : List ClaimCandidate) : Option Nat :=
  preferredIndex (claimTiers ev runnerId runnerLabels requiredGroup runner) candidates

end Preference

/-! ## Tables -/

/-- `namespaces.state`. -/
inductive NamespaceState
  | active
  | suspended
  | draining
  | deleted
deriving DecidableEq, Repr

/-- What `claim_one` reads and writes of a row of `jobs`, its labels decoded. -/
structure QueueJob where
  runId : RunId
  jobId : JobId
  namespaceId : String
  poolKey : String
  queueState : QueueState
  status : ExecutionStatus
  runsOn : List String
  runnerGroup : Option String
  priority : Int
  runOrder : Int
  jobOrder : Int
  enqueuedAt : Option Int
  claimedBy : Option Nat
  claimedAt : Option Int

/-- The primary key of `jobs`. -/
def QueueJob.key (j : QueueJob) : RunId × JobId := (j.runId, j.jobId)

/-- A row of `job_assignments`. -/
structure Assignment where
  runnerId : Option Nat
  assignedAt : Int
  firstAssignedAt : Int

/-- The tables behind a claim. -/
structure QueueDb where
  jobs : Table QueueJob.key
  assignments : RunId × JobId → Option Assignment
  provisionRequestedAt : RunId × JobId → Option Int
  runners : Nat → Bool
  namespaceState : String → Option NamespaceState
  maxRunningJobs : String → Option Int
  poolMaxRunningJobs : String → String → Option Int

namespace QueueDb

/-- `NAMESPACE_ADMITS_CLAIM`. -/
def admitsClaim (db : QueueDb) (j : QueueJob) : Bool :=
  let state := (db.namespaceState j.namespaceId).getD .active
  let running : Int := db.jobs.rows.countP fun c =>
    c.namespaceId = j.namespaceId && c.queueState = .claimed
  let runningInPool : Int := db.jobs.rows.countP fun c =>
    c.namespaceId = j.namespaceId && c.poolKey = j.poolKey && c.queueState = .claimed
  (state = .active || state = .draining) &&
    (db.maxRunningJobs j.namespaceId).all (fun limit => running < limit) &&
    (db.poolMaxRunningJobs j.namespaceId j.poolKey).all fun limit => runningInPool < limit

/-- `j.priority DESC, j.run_order, j.job_order, j.run_id, j.job_id`. -/
def orderKey (j : QueueJob) : Int ×ₗ Int ×ₗ Int ×ₗ Nat ×ₗ String :=
  toLex (-j.priority, toLex (j.runOrder, toLex (j.jobOrder, toLex (j.runId, j.jobId))))

/-- The ready jobs whose namespace admits a claim, in the global queue order. -/
def readyQueue (db : QueueDb) : List QueueJob :=
  (db.jobs.rows.filter fun j => j.queueState = .ready && db.admitsClaim j).insertionSort
    fun a b => orderKey a ≤ orderKey b

end QueueDb

/-! ## Candidates -/

/-- The columns of an assignment in a read row. -/
structure RowAssignment where
  runnerId : Option Nat
  fresh : Bool
  firstFresh : Bool
  registered : Bool

/-- `ReadyRow`. -/
structure ReadyRow where
  runId : RunId
  jobId : JobId
  runsOn : List String
  runnerGroup : Option String
  enqueuedAt : Int
  assignment : Option RowAssignment
  provisionAt : Option Int

/-- The key of the row's job. -/
def ReadyRow.key (row : ReadyRow) : RunId × JobId := (row.runId, row.jobId)

/-- A polling runner. -/
structure ClaimPoll where
  runnerId : Option Nat
  verifiedRunnerId : Option Nat
  caps : RunnerCapabilities
  requireAssignments : Bool

/-- `CLAIM_BINDING_TTL`. -/
def claimBindingTtl : Int := 120 * 1000000

/-- `LIMIT 64`. -/
def claimWindow : Nat := 64

section Claim

variable (ev : Evaluators) (poll : ClaimPoll) (now : Int)

/-- The row the reads select for a job. -/
def readyRow (db : QueueDb) (j : QueueJob) : ReadyRow where
  runId := j.runId
  jobId := j.jobId
  runsOn := j.runsOn
  runnerGroup := j.runnerGroup
  enqueuedAt := j.enqueuedAt.getD 0
  assignment := (db.assignments j.key).map fun a =>
    { runnerId := a.runnerId
      fresh := now - claimBindingTtl < a.assignedAt
      firstFresh := now - claimBindingTtl < a.firstAssignedAt
      registered := a.runnerId.any db.runners }
  provisionAt := db.provisionRequestedAt j.key

/-- The ready queue as it is read. -/
def readyRows (db : QueueDb) : List ReadyRow := db.readyQueue.map (readyRow now db)

/-- `claim_permitted`: who may claim a row. -/
def claimPermitted (row : ReadyRow) : Bool :=
  let verified := poll.verifiedRunnerId.isSome
  let enqueueCeilingExpired :=
    0 < row.enqueuedAt && claimBindingTtl ≤ saturate (now - row.enqueuedAt)
  let provisionFresh := row.provisionAt.map fun at_ => decide (now - claimBindingTtl < at_)
  -- without strict assignments a stale row counts as absent
  let assignment := row.assignment.filter fun a => poll.requireAssignments || a.fresh
  let provisionFresh := provisionFresh.filter fun fresh => poll.requireAssignments || fresh
  match assignment with
  | some a =>
      if !a.firstFresh || enqueueCeilingExpired then verified
      else
        match a.runnerId with
        | none => verified
        | some id =>
            if !a.registered || !a.fresh then verified else poll.verifiedRunnerId = some id
  | none =>
      if provisionFresh = some true && !enqueueCeilingExpired then false
      else if provisionFresh.isSome then verified
      else !poll.requireAssignments

/-- The candidate of a row at some position. -/
def candidate (queuePosition : Nat) (row : ReadyRow) : ClaimCandidate where
  runId := row.runId
  jobId := row.jobId
  runsOn := row.runsOn
  runnerGroup := row.runnerGroup
  assignedRunnerId := row.assignment.bind RowAssignment.runnerId
  assignmentFresh := row.assignment.any RowAssignment.fresh
  queuePosition := queuePosition
  claimable := claimPermitted poll now row

/-- `decode`: the candidates of a batch, `basePosition` the first one's position. -/
def decode (basePosition : Nat) : List ReadyRow → List ClaimCandidate
  | [] => []
  | row :: rows => candidate poll now basePosition row :: decode (basePosition + 1) rows

/-- `runner_match`. -/
def runnerMatch : RunnerMatchRow :=
  ⟨poll.caps.labels, poll.caps.known, poll.caps.runnerGroupId, poll.caps.runnerGroupName⟩

/-- The preference of the polling runner. -/
def preference (candidates : List ClaimCandidate) : Option Nat :=
  claimPreference ev poll.verifiedRunnerId poll.caps.labels none (runnerMatch poll) candidates

/-- The row is a fresh binding to a runner. -/
def boundTo (proven : Nat) (row : ReadyRow) : Bool :=
  row.assignment.any fun a => a.runnerId = some proven && a.fresh

/-- `assigned_sql`: the first fresh bindings to a runner in the queue order. -/
def assignedRows (db : QueueDb) (proven : Nat) : List ReadyRow :=
  ((db.readyQueue.filter fun j => (db.assignments j.key).any fun a =>
    a.runnerId = some proven && now - claimBindingTtl < a.assignedAt).take claimWindow).map
      (readyRow now db)

/-- `batch_sql`: a window of the queue. -/
def batchRows (db : QueueDb) (offset : Nat) : List ReadyRow :=
  ((db.readyQueue.drop offset).take claimWindow).map (readyRow now db)

/-- `claim`: the conditional update of the chosen row; nothing if no row was hit. -/
def claim (db : QueueDb) (chosen : ClaimCandidate) : Option QueueDb :=
  let hit := fun j : QueueJob =>
    j.runId = chosen.runId && j.jobId = chosen.jobId && j.queueState = .ready
  if db.jobs.exists? hit then
    some { db with
      jobs := db.jobs.updateWhere hit (fun j =>
        { j with
          queueState := .claimed
          status := .inProgress
          claimedBy := poll.runnerId
          claimedAt := some now }) fun _ => rfl }
  else none

/-- `Vec::swap_remove`. -/
def swapRemove {α : Type} (l : List α) (i : Nat) : List α :=
  match l.getLast? with
  | none => []
  | some last => (l.set i last).dropLast

theorem length_swapRemove {α : Type} {l : List α} {i : Nat} {x : α} (h : l[i]? = some x) :
    (swapRemove l i).length < l.length := by
  have hlt : i < l.length := (List.getElem?_eq_some_iff.mp h).1
  unfold swapRemove
  cases l.getLast? with
  | none => exact Nat.zero_lt_of_lt hlt
  | some last =>
      rw [List.length_dropLast, List.length_set]
      omega

/-- The claim from the runner's own bindings: candidates are tried until one is claimed. -/
def claimBindings (db : QueueDb) (candidates : List ClaimCandidate) :
    Option ((RunId × JobId) × QueueDb) :=
  match preference ev poll candidates with
  | none => none
  | some index =>
      match _h : candidates[index]? with
      | none => none
      | some chosen =>
          match claim poll now db chosen with
          | some db' => some ((chosen.runId, chosen.jobId), db')
          | none => claimBindings db (swapRemove candidates index)
termination_by candidates.length
decreasing_by exact length_swapRemove _h

/-- The claim from the queue, window by window until one has a candidate. -/
def claimWindows (db : QueueDb) (offset : Nat) : Option ((RunId × JobId) × QueueDb) :=
  let rows := batchRows now db offset
  let candidates := decode poll now offset rows
  match (preference ev poll candidates).bind (candidates[·]?) with
  | some chosen => (claim poll now db chosen).map fun db' => ((chosen.runId, chosen.jobId), db')
  | none =>
      if _h : rows.length < claimWindow then none else claimWindows db (offset + claimWindow)
termination_by db.readyQueue.length - offset
decreasing_by
  simp only [rows, batchRows, List.length_map, List.length_take, List.length_drop] at _h
  unfold claimWindow at *
  omega

/-- `claim_one`: the claimed job and the tables after the claim. -/
def claimOne (db : QueueDb) : Option ((RunId × JobId) × QueueDb) :=
  match poll.verifiedRunnerId with
  | some proven =>
      (claimBindings ev poll now db (decode poll now 0 (assignedRows now db proven))).orElse
        fun _ => claimWindows ev poll now db 0
  | none => claimWindows ev poll now db 0

/-- The job that the preference selects from some rows taken as one list. -/
def claimAmong (rows : List ReadyRow) : Option (RunId × JobId) :=
  let candidates := decode poll now 0 rows
  ((preference ev poll candidates).bind (candidates[·]?)).map fun c => (c.runId, c.jobId)

/-! ## Rows and candidates -/

/-- The tiers as properties of a row. -/
def rowTiers : List (ReadyRow → Bool) :=
  (claimTiers ev poll.verifiedRunnerId poll.caps.labels none (runnerMatch poll)).map
    fun tier row => tier (candidate poll now 0 row)

/-- The tier of a row, nothing if it is not eligible. -/
def claimTier (row : ReadyRow) : Option Nat :=
  tierOf (claimTiers ev poll.verifiedRunnerId poll.caps.labels none (runnerMatch poll))
    (candidate poll now 0 row)

variable {ev poll now}

theorem tierOf_rowTiers (row : ReadyRow) :
    tierOf (rowTiers ev poll now) row = claimTier ev poll now row := by
  rw [tierOf, rowTiers, List.findIdx?_map]
  rfl

/-- The position of a candidate plays no part in its tier. -/
theorem claimTiers_candidate {tier : ClaimCandidate → Bool}
    (h : tier ∈ claimTiers ev poll.verifiedRunnerId poll.caps.labels none (runnerMatch poll))
    (position : Nat) (row : ReadyRow) :
    tier (candidate poll now position row) = tier (candidate poll now 0 row) := by
  simp only [claimTiers, List.mem_cons, List.not_mem_nil, or_false] at h
  rcases h with rfl | rfl | rfl | rfl
  · rfl
  · rfl
  · rfl
  · rfl

theorem find?_decode (now : Int) {tier : ClaimCandidate → Bool}
    (h : tier ∈ claimTiers ev poll.verifiedRunnerId poll.caps.labels none (runnerMatch poll))
    (rows : List ReadyRow) (base : Nat) :
    ((decode poll now base rows).find? tier).map (fun c => (c.runId, c.jobId)) =
      (rows.find? fun row => tier (candidate poll now 0 row)).map ReadyRow.key := by
  induction rows generalizing base with
  | nil => rfl
  | cons row rows ih =>
      rw [decode, List.find?_cons, List.find?_cons, claimTiers_candidate h]
      cases tier (candidate poll now 0 row) with
      | true => rfl
      | false => exact ih (base + 1)

variable (ev poll now) in
/-- What the preference chooses from a batch is its preferred row. -/
theorem preference_decode (rows : List ReadyRow) (base : Nat) :
    ((preference ev poll (decode poll now base rows)).bind
        ((decode poll now base rows)[·]?)).map (fun c => (c.runId, c.jobId)) =
      (preferred (rowTiers ev poll now) rows).map ReadyRow.key := by
  rw [preference, claimPreference, getElem?_preferredIndex, preferred, preferred, rowTiers,
    List.findSome?_map]
  -- tier by tier: decoding a batch moves no row past another
  have hall : ∀ tiers : List (ClaimCandidate → Bool), (∀ tier ∈ tiers,
      tier ∈ claimTiers ev poll.verifiedRunnerId poll.caps.labels none (runnerMatch poll)) →
      (tiers.findSome? fun tier => (decode poll now base rows).find? tier).map
          (fun c => (c.runId, c.jobId)) =
        (tiers.findSome? fun tier => rows.find? fun row => tier (candidate poll now 0 row)).map
          ReadyRow.key := by
    intro tiers
    induction tiers with
    | nil => exact fun _ => rfl
    | cons tier tiers ih =>
        intro htiers
        have hhead := find?_decode now (htiers tier List.mem_cons_self) rows base
        have htail := ih fun t ht => htiers t (List.mem_cons_of_mem tier ht)
        rw [List.findSome?_cons, List.findSome?_cons]
        cases hfind : (decode poll now base rows).find? tier with
        | some c =>
            rw [hfind] at hhead
            rcases Option.map_eq_some_iff.mp hhead.symm with ⟨row, hrow, hkey⟩
            rw [hrow, Option.map_some, Option.map_some, hkey]
        | none =>
            rw [hfind] at hhead
            rw [Option.map_eq_none_iff.mp hhead.symm]
            exact htail
  exact hall _ fun _ h => h

/-- What is selected from some rows is the preferred one. -/
theorem claimAmong_eq (rows : List ReadyRow) :
    claimAmong ev poll now rows = (preferred (rowTiers ev poll now) rows).map ReadyRow.key :=
  preference_decode ev poll now rows 0

/-! ## The claim -/

theorem mem_decode {rows : List ReadyRow} {base : Nat} {c : ClaimCandidate}
    (h : c ∈ decode poll now base rows) : ∃ row ∈ rows, (c.runId, c.jobId) = row.key := by
  induction rows generalizing base with
  | nil => cases h
  | cons row rows ih =>
      rcases List.mem_cons.mp h with rfl | h
      · exact ⟨row, List.mem_cons_self, rfl⟩
      · rcases ih h with ⟨other, hmem, hkey⟩
        exact ⟨other, List.mem_cons_of_mem row hmem, hkey⟩

/-- A row of the queue can be claimed: it is still ready. -/
theorem claim_of_mem {db : QueueDb} {c : ClaimCandidate}
    (h : ∃ row ∈ readyRows now db, (c.runId, c.jobId) = row.key) :
    ∃ db', claim poll now db c = some db' := by
  rcases h with ⟨row, hrow, hkey⟩
  rcases List.mem_map.mp hrow with ⟨j, hj, rfl⟩
  rw [QueueDb.readyQueue, List.mem_insertionSort, List.mem_filter] at hj
  rcases hj with ⟨hmem, hready⟩
  rcases Prod.mk.inj hkey with ⟨hrun, hjob⟩
  rw [Bool.and_eq_true, decide_eq_true_eq] at hready
  have hhit : db.jobs.exists? (fun j => j.runId = c.runId && j.jobId = c.jobId &&
      j.queueState = .ready) = true := by
    refine List.any_eq_true.mpr ⟨j, hmem, ?_⟩
    rw [hrun, hjob, hready.1]
    simp [readyRow]
  exact ⟨_, if_pos hhit⟩

end Claim

end Preloop
