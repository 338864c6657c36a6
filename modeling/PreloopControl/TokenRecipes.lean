import PreloopControl.Schema
import PreloopControl.Lib.Machine
import PreloopControl.Lib.SortedMap

/-!
# Token Recipes

The rows of `github_token_requests`: what a job's token is minted from when an attempt of it
is claimed. A recipe is stored with the attempt that a submission mints, moves to the
attempt that replaces one in flight, is dropped when a report settles its attempt, and is
copied from the newest attempt when a job is run again.

The tables are `job_requests` and `github_token_requests`. What the commands do to other
tables is left out: the outcome of `complete_node` is an argument, and that a job is only
submitted once, which the key of `jobs` grants, is a condition on its attempts.

## Main definitions

* `GitHubTokenRequest`: A recipe.
* `TokenDb`: The two tables.
* `TokenDb.mintRequest`, `TokenDb.retryAttempt`, `TokenDb.mintAttempt`: How attempts come
  to their recipes.
* `TokenDb.settleRequestTx`, `TokenDb.settleRequestsForJob`: The two ways to settle.
* `TokenCall`, `tokenMachine`: The commands, in any order.

## Theorems

* `TokenDb.insertAttempt_spec`: What a new attempt finds and leaves.
* `currentAttempt_spec`, `newestAttempt_spec`: The attempts that commands ask for.
-/

namespace Preloop

open Txn

/-- `GitHubTokenRequest`. -/
structure GitHubTokenRequest where
  repository : String
  permissions : SortedMap String String
  declared : Bool
  untrusted : Bool
deriving DecidableEq

/-- The tables `job_requests` and `github_token_requests`. -/
structure TokenDb where
  requests : Table Request.requestId
  recipes : SortedMap Nat GitHubTokenRequest
  nextRequest : Nat

/-- The request is an attempt of a job. -/
def Request.ofJob (r : RunId) (j : JobId) (q : Request) : Bool := q.runId = r && q.jobId = j

namespace TokenDb

/-- No attempts yet. -/
def init : TokenDb := ⟨Table.empty, ∅, 0⟩

/-! ## The attempts of a job -/

/-- The newest attempt in flight. -/
def currentAttempt (s : TokenDb) (r : RunId) (j : JobId) : Option Request :=
  (s.requests.selectBy (fun q => q.ofJob r j && q.result.isNone) Request.requestId).getLast?

/-- The newest attempt. -/
def newestAttempt (s : TokenDb) (r : RunId) (j : JobId) : Option Request :=
  (s.requests.selectBy (Request.ofJob r j) Request.requestId).getLast?

/-- `attempt_request_id`. -/
def attemptRequestId (s : TokenDb) (r : RunId) (j : JobId) : Option String → Option Nat
  | some agent =>
    (s.requests.select fun q => q.agentJobId = agent && q.ofJob r j).head?.map Request.requestId
  | none => (s.currentAttempt r j).map Request.requestId

/-- An update of the attempts that meet a condition. -/
def updateRequests (s : TokenDb) (p : Request → Bool) (f : Request → Request)
    (hf : ∀ q, (f q).requestId = q.requestId) : TokenDb :=
  { s with requests := s.requests.updateWhere p f hf }

/-! ## New attempts -/

/-- `insert_attempt`. The runtime identity is unique, and so is a job's attempt in flight
    (`job_requests_inflight`). -/
def insertAttempt (s : TokenDb) (r : RunId) (j : JobId) (agentJobId : String) :
    Option (TokenDb × Nat) :=
  if s.requests.exists? fun q => q.agentJobId = agentJobId || q.ofJob r j && q.result.isNone then
    none
  else
    let row : Request := ⟨s.nextRequest, r, j, agentJobId, none, none, none, false⟩
    (s.requests.insert? row).map fun requests =>
      ({ s with requests, nextRequest := s.nextRequest + 1 }, s.nextRequest)

/-- `mint_request`: a recipe that is stored under the id already would stay. -/
def mintRequest (s : TokenDb) (r : RunId) (j : JobId) (agentJobId : String)
    (tokenRequest : Option GitHubTokenRequest) : Option TokenDb :=
  (s.insertAttempt r j agentJobId).map fun (s, id) =>
    match tokenRequest with
    | some recipe =>
      if (s.recipes.lookup id).isSome then s else { s with recipes := s.recipes.insert id recipe }
    | none => s

/-- `UPDATE github_token_requests SET request_id`. -/
def moveRecipe (s : TokenDb) (old new : Nat) : Option TokenDb :=
  match s.recipes.lookup old with
  | none => some s
  | some recipe =>
    if (s.recipes.lookup new).isSome then none
    else some { s with recipes := (s.recipes.erase old).insert new recipe }

/-- `retry_attempt`. -/
def retryAttempt (s : TokenDb) (r : RunId) (j : JobId) (agentJobId : String) : Option TokenDb :=
  match s.currentAttempt r j with
  | none => some s
  | some q =>
    let s := s.updateRequests (fun row => row.requestId = q.requestId)
      (fun row => { row with result := some .cancelled, runnerId := none, sessionId := none })
      fun _ => rfl
    (s.insertAttempt r j agentJobId).bind fun (s, retry) => s.moveRecipe q.requestId retry

/-- `settle_stale_requests`, for one job with this raw status. -/
def settleStaleRequests (s : TokenDb) (r : RunId) (j : JobId) (status : ExecutionStatus) :
    TokenDb :=
  s.updateRequests (fun q => q.ofJob r j && q.result.isNone)
    (fun q => { q with result := some (if status.isTerminal then status else .cancelled) })
    fun _ => rfl

/-- `mint_attempt`, without a rebuilt template: the recipe of the newest attempt is copied. -/
def mintAttempt (s : TokenDb) (r : RunId) (j : JobId) (agentJobId : String) : Option TokenDb :=
  s.mintRequest r j agentJobId
    ((s.newestAttempt r j).bind fun q => s.recipes.lookup q.requestId)

/-! ## Settling -/

theorem requestId_stamped (result : ExecutionStatus) (q : Request) :
    { q with result := some result }.requestId = q.requestId := rfl

/-- `stamp_result`: the first verdict stays. -/
def stampResult (s : TokenDb) (id : Nat) (result : ExecutionStatus) : TokenDb :=
  if result.isTerminal then
    s.updateRequests (fun q => q.requestId = id && q.result.isNone)
      (fun q => { q with result := some result }) (requestId_stamped result)
  else s

theorem requestId_unbound (q : Request) : { q with sessionId := none }.requestId = q.requestId :=
  rfl

/-- `settle_request_tx`: the recipe of the attempt is dropped. -/
def settleRequestTx (s : TokenDb) (id : Nat) (result : ExecutionStatus) : TokenDb :=
  let s := { s with recipes := s.recipes.erase id }
  let s := s.updateRequests (fun q => q.requestId = id) (fun q => { q with sessionId := none })
    requestId_unbound
  s.stampResult id result

/-- `settle_requests_for_job`: recipes stay. -/
def settleRequestsForJob (s : TokenDb) (r : RunId) (j : JobId) (result : ExecutionStatus) :
    TokenDb :=
  ((s.requests.select fun q => q.ofJob r j && q.result.isNone).map Request.requestId).foldl
    (fun s id => s.stampResult id result) s

/-- `complete_job`, given what `complete_node` makes of the job: nothing if the report is a
    replay, and the effective status otherwise. -/
def completeJob (s : TokenDb) (r : RunId) (j : JobId) (agentJobId : Option String)
    (status : ExecutionStatus) (effective : Option ExecutionStatus) : TokenDb :=
  let s := match s.attemptRequestId r j agentJobId with
    | some id => s.settleRequestTx id status
    | none => s
  match effective with
  | some effective => s.settleRequestsForJob r j effective
  | none => s

/-- `settle_job`, given what `complete_node` makes of the job. -/
def settleJob (s : TokenDb) (r : RunId) (j : JobId) (agentJobId : Option String)
    (effective : Option ExecutionStatus) : TokenDb :=
  match effective with
  | none => s
  | some effective =>
    let attempt := s.attemptRequestId r j agentJobId
    let s := s.settleRequestsForJob r j effective
    match attempt with
    | some id => s.settleRequestTx id effective
    | none => s

end TokenDb

/-! ## The commands -/

/-- The commands on the two tables. -/
inductive TokenCall
  /-- `mint_request` for a job that is new. -/
  | submit (r : RunId) (j : JobId) (agentJobId : String) (recipe : Option GitHubTokenRequest)
  /-- A runner claims an attempt. -/
  | claim (id runnerId : Nat) (sessionId : Option String)
  /-- `release_claimed_request`. -/
  | release (id : Nat)
  /-- `record_token_request`: a claim that found no recipe derived one. -/
  | recordTokenRequest (id : Nat) (recipe : GitHubTokenRequest)
  /-- `retry_attempt`. -/
  | requeue (r : RunId) (j : JobId) (agentJobId : String)
  /-- `complete_job`. -/
  | completeJob (r : RunId) (j : JobId) (agentJobId : Option String) (status : ExecutionStatus)
      (effective : Option ExecutionStatus)
  /-- `settle_job`. -/
  | settleJob (r : RunId) (j : JobId) (agentJobId : Option String)
      (effective : Option ExecutionStatus)
  /-- `settle_request`. -/
  | settleRequest (id : Nat) (result : ExecutionStatus)
  /-- `settle_requests_for_job`, for a job that the control plane concludes. -/
  | conclude (r : RunId) (j : JobId) (status : ExecutionStatus)
  /-- The part of `rerun_run_tx` for one job: its stale attempts are settled, and a new one
      is minted. -/
  | rerun (r : RunId) (j : JobId) (status : ExecutionStatus) (agentJobId : String)

/-- A submission stored this recipe for a job, or none. -/
structure SubmittedJob where
  runId : RunId
  jobId : JobId
  recipe : Option GitHubTokenRequest
deriving DecidableEq

namespace TokenDb

theorem requestId_bound (runnerId : Nat) (sessionId : Option String) (q : Request) :
    { q with runnerId := some runnerId, sessionId }.requestId = q.requestId := rfl

theorem requestId_released (q : Request) :
    { q with runnerId := none, sessionId := none, timeoutTriggered := false }.requestId =
      q.requestId := rfl

/-- What a command makes of the tables, if it commits. -/
def call (s : TokenDb) : TokenCall → Option TokenDb
  | .submit r j agentJobId recipe =>
    if s.requests.exists? (Request.ofJob r j) then none else s.mintRequest r j agentJobId recipe
  | .claim id runnerId sessionId =>
    some (s.updateRequests (fun q => q.requestId = id && q.result.isNone)
      (fun q => { q with runnerId := some runnerId, sessionId })
      (requestId_bound runnerId sessionId))
  | .release id =>
    some (s.updateRequests (fun q => q.requestId = id && q.result.isNone)
      (fun q => { q with runnerId := none, sessionId := none, timeoutTriggered := false })
      requestId_released)
  | .recordTokenRequest id recipe =>
    if (s.requests.get id).isSome then some { s with recipes := s.recipes.insert id recipe }
    else none
  | .requeue r j agentJobId => s.retryAttempt r j agentJobId
  | .completeJob r j agentJobId status effective =>
    some (s.completeJob r j agentJobId status effective)
  | .settleJob r j agentJobId effective => some (s.settleJob r j agentJobId effective)
  | .settleRequest id result =>
    some (if (s.requests.get id).isSome then s.settleRequestTx id result else s)
  | .conclude r j status => some (s.settleRequestsForJob r j status)
  | .rerun r j status agentJobId => (s.settleStaleRequests r j status).mintAttempt r j agentJobId

/-- The recipe that a command stores with a new job. -/
def submissions : TokenCall → List SubmittedJob
  | .submit r j _ recipe => [⟨r, j, recipe⟩]
  | _ => []

end TokenDb

/-- The two tables under the commands. What is seen are the submissions. -/
def tokenMachine : Machine TokenDb TokenCall SubmittedJob where
  advance call s := (s.call call).map fun s' => (s', TokenDb.submissions call)

/-! ## What the commands ask for and leave behind -/

namespace TokenDb

variable {s s' : TokenDb} {r : RunId} {j : JobId} {q : Request}

theorem ofJob_iff : q.ofJob r j = true ↔ q.runId = r ∧ q.jobId = j := by
  rw [Request.ofJob, Bool.and_eq_true, decide_eq_true_eq, decide_eq_true_eq]

/-- The newest attempt in flight. -/
theorem currentAttempt_spec (h : s.currentAttempt r j = some q) :
    s.requests.get q.requestId = some q ∧ q.ofJob r j = true ∧ q.result = none := by
  rcases Table.getLast?_selectBy h with ⟨⟨hrow, hcond⟩, -⟩
  rw [Bool.and_eq_true, Option.isNone_iff_eq_none] at hcond
  exact ⟨hrow, hcond.1, hcond.2⟩

/-- The newest attempt of a job: no other one has a greater id. -/
def Newest (s : TokenDb) (q : Request) : Prop :=
  s.requests.get q.requestId = some q ∧
    ∀ id q', s.requests.get id = some q' → q'.ofJob q.runId q.jobId = true → id ≤ q.requestId

/-- The newest attempt. -/
theorem newestAttempt_spec (h : s.newestAttempt r j = some q) :
    s.Newest q ∧ q.ofJob r j = true := by
  rcases Table.getLast?_selectBy h with ⟨⟨hrow, hjob⟩, hle⟩
  refine ⟨⟨hrow, fun id q' hq' hjob' => ?_⟩, hjob⟩
  rcases ofJob_iff.mp hjob with ⟨rfl, rfl⟩
  have hid := Table.key_of_get hq'
  subst hid
  exact hle q' hq' hjob'

/-- What a new attempt finds and leaves. -/
theorem insertAttempt_spec {agentJobId : String} {id : Nat}
    (h : s.insertAttempt r j agentJobId = some (s', id)) :
    id = s.nextRequest ∧ s'.nextRequest = s.nextRequest + 1 ∧ s'.recipes = s.recipes ∧
      (∀ k, s'.requests.get k =
        if s.nextRequest = k then some ⟨s.nextRequest, r, j, agentJobId, none, none, none, false⟩
        else s.requests.get k) ∧
      ∀ k q, s.requests.get k = some q → q.ofJob r j = true → q.result ≠ none := by
  unfold insertAttempt at h
  split at h
  · cases h
  · next hfree =>
      rcases Option.map_eq_some_iff.mp h with ⟨requests, hinsert, hpair⟩
      rcases Prod.mk.inj hpair with ⟨rfl, rfl⟩
      refine ⟨rfl, rfl, rfl, (Table.insert?_eq_some hinsert).2, fun k q hq hjob hlive => hfree ?_⟩
      refine Table.exists?_iff.mpr ⟨k, q, hq, ?_⟩
      rw [hjob, hlive]
      simp

end TokenDb

end Preloop
