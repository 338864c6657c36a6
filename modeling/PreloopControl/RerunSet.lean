import PreloopControl.Lib.Closure
import PreloopControl.Lib.LastWrite
import PreloopControl.Rerun

/-!
# The Selection of a Rerun

`rerun_set` (`control/logic.rs`) over the rows that a backend reads for it. The kind and the
status of a row are the texts of their columns. The seeds of the mode are closed by passes
over the rows that may be selected: all but the expanded matrix parents, which still count
where a need or a parent is looked up. A row joins in the middle of a pass, and those after
it see it.

`rerunSet` of the commands lets the rows of a round join together, and bounds the rounds by the
number of rows; here a row that joins is seen by those behind it, the bound is an argument, and
the loop has not ended where it runs out.

## Main definitions

* `RerunJobRow`, `RerunJobRow.ofJob`: A row as the selector sees it.
* `Selection.rerunSeeds`: What the mode asks for.
* `Selection.joins`: The test of the loop.
* `Selection.rerunSet`: The selection, if the passes are enough.
-/

namespace Preloop

/-- `RerunJobRow`. -/
structure RerunJobRow where
  jobId : JobId
  kind : String
  baseId : String
  parentJobId : Option String
  status : String
  needs : List JobId
deriving DecidableEq, Repr

/-- The word of `jobs.kind`. -/
def JobKind.asStr : JobKind → String
  | .job => "job"
  | .matrixParent => "matrix_parent"
  | .matrixLeg => "matrix_leg"
  | .reusableCaller => "reusable_caller"

/-- `status_str`. -/
def ExecutionStatus.statusStr : ExecutionStatus → String
  | .queued => "queued"
  | .pending => "pending"
  | .inProgress => "in_progress"
  | .success => "success"
  | .failure => "failure"
  | .skipped => "skipped"
  | .cancelled => "cancelled"

/-- `selector_rows_of`, on one row. -/
def RerunJobRow.ofJob (j : Job) : RerunJobRow where
  jobId := j.jobId
  kind := j.kind.asStr
  baseId := j.baseId
  parentJobId := j.parentJobId
  status := j.status.statusStr
  needs := j.needs

namespace Selection

/-- `dead_parent`: a matrix parent with children. -/
def deadParent (jobs : List RerunJobRow) (row : RerunJobRow) : Bool :=
  row.kind = "matrix_parent" && jobs.any fun job => job.parentJobId = some row.jobId

/-- `matchable`: the rows that may be selected. -/
def matchable (jobs : List RerunJobRow) : List RerunJobRow :=
  jobs.filter fun row => !deadParent jobs row

/-- `kind_of`. -/
def kindOf (jobs : List RerunJobRow) : SortedMap JobId String :=
  .ofList (jobs.map fun job => (job.jobId, job.kind))

/-- `matches`: a need, or an id that was asked for, names the row or its base. -/
def rowMatches (row : RerunJobRow) (need : JobId) : Bool :=
  row.jobId = need || row.baseId = need

/-- The rows a mode asks for. -/
def seedRows (mode : RerunMode) (jobs : List RerunJobRow) : List RerunJobRow :=
  match mode with
  | .all => matchable jobs
  | .failed => (matchable jobs).filter fun row =>
      row.status = "failure" || row.status = "cancelled" || row.status = "timed_out"
  | .job id => (matchable jobs).filter fun row => rowMatches row id

/-- The seeds of a mode. A mode other than all has to find one. -/
def rerunSeeds (mode : RerunMode) (jobs : List RerunJobRow) :
    Except (ControlError × String) (Finset JobId) :=
  let seeds := ((seedRows mode jobs).map (·.jobId)).toFinset
  match mode with
  | .all => .ok seeds
  | .failed =>
      if seeds = ∅ then
        .error (.conflict, "run has no failed or cancelled jobs to re-run")
      else .ok seeds
  | .job id =>
      if (seedRows mode jobs).isEmpty then
        .error (.notFound, s!"no job matching `{id}` in this run")
      else .ok seeds

/-- The test of the loop: `is_dependent`, `parent_is_member_caller` or
    `is_caller_of_member`. -/
def joins (jobs : List RerunJobRow) (set : Finset JobId) (row : RerunJobRow) : Bool :=
  let isDependent := row.needs.any fun need =>
    (jobs.filter fun candidate => rowMatches candidate need).any fun candidate =>
      candidate.jobId ∈ set
  let parentIsMemberCaller := row.parentJobId.any fun parent =>
    (kindOf jobs).lookup parent = some "reusable_caller" && parent ∈ set
  let isCallerOfMember := row.kind = "reusable_caller" && jobs.any fun child =>
    child.parentJobId = some row.jobId && child.jobId ∈ set
  isDependent || parentIsMemberCaller || isCallerOfMember

/-- `rerun_set`, if its loop ends within a number of passes. -/
def rerunSet (passes : Nat) (mode : RerunMode) (jobs : List RerunJobRow) :
    Option (Except (ControlError × String) (Finset JobId)) :=
  match rerunSeeds mode jobs with
  | .error e => some (.error e)
  | .ok seeds =>
      (Closure.close (·.jobId) (joins jobs) passes (matchable jobs) seeds).map .ok

end Selection

end Preloop
