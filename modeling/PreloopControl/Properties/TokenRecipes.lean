import PreloopControl.TokenRecipes

/-!
# The Recipe Follows the Job

A job that is submitted with a recipe keeps it over any number of requeues. A report drops
the recipe of the attempt it settles, so that a job that is run again after a report has no
recipe to copy, whereas the comment of `mint_attempt` says that the previous one is carried
forward. What the control plane settles keeps its recipe.

The attempts of a job follow each other: there is one in flight at most, and it is the
newest. The invariant says of the newest attempt that it has the recipe of the submission,
or that it is settled and has none.

## Main definitions

* `KeepsRecipe`: No attempt is minted after the recipe was dropped, and none loses it.
* `TokenDb.Aged`: Attempts that were changed, none of them revived.
* `RecipesKept`: The invariant.

## Theorems

* `RecipesKept.aged`, `RecipesKept.minted`: What commands keep.
* `recipe_follows_job`: The current attempt has the recipe of the submission.
* `rerun_without_recipe`: A job that is run again after a report.
-/

namespace Preloop

open Machine Txn

/-- What a command may not do for the recipe to follow its job. A report that drops the
    recipe of an attempt in flight settles it, a claim derives no other recipe for a newest
    attempt, and a job that has a recipe is run again only while its newest attempt has it. -/
def KeepsRecipe (past : List SubmittedJob) (s : TokenDb) : TokenCall → Prop
  | .completeJob r j agentJobId status effective =>
    ∀ id ∈ s.attemptRequestId r j agentJobId, ∀ q ∈ s.requests.get id, q.result = none →
      (s.recipes.lookup id).isSome = true → status.isTerminal ∨ effective.any (·.isTerminal)
  | .settleJob r j agentJobId effective =>
    ∀ id ∈ s.attemptRequestId r j agentJobId, ∀ q ∈ s.requests.get id, q.result = none →
      (s.recipes.lookup id).isSome = true → effective.all (·.isTerminal)
  | .settleRequest id result =>
    ∀ q ∈ s.requests.get id, q.result = none →
      (s.recipes.lookup id).isSome = true → result.isTerminal
  | .recordTokenRequest id recipe =>
    ∀ q ∈ s.requests.get id, s.newestAttempt q.runId q.jobId = some q →
      ∀ sub ∈ past, q.ofJob sub.runId sub.jobId → sub.recipe = some recipe
  | .rerun r j _ _ =>
    ∀ sub ∈ past, sub.runId = r → sub.jobId = j → sub.recipe.isSome = true →
      ∀ q ∈ s.newestAttempt r j, (s.recipes.lookup q.requestId).isSome = true
  | _ => True

instance (past : List SubmittedJob) (s : TokenDb) (call : TokenCall) :
    Decidable (KeepsRecipe past s call) :=
  match call with
  | .completeJob .. => by unfold KeepsRecipe; infer_instance
  | .settleJob .. => by unfold KeepsRecipe; infer_instance
  | .settleRequest .. => by unfold KeepsRecipe; infer_instance
  | .recordTokenRequest .. => by unfold KeepsRecipe; infer_instance
  | .rerun .. => by unfold KeepsRecipe; infer_instance
  | .submit .. | .claim .. | .release .. | .requeue .. | .conclude .. => isTrue trivial

namespace TokenDb

variable {s s' s'' : TokenDb} {r : RunId} {j : JobId}

/-! ## Attempts that were changed -/

/-- A later state of an attempt. -/
structure Later (q q' : Request) : Prop where
  requestId : q'.requestId = q.requestId
  runId : q'.runId = q.runId
  jobId : q'.jobId = q.jobId
  result : q'.result = none → q.result = none

theorem Later.refl (q : Request) : Later q q := ⟨rfl, rfl, rfl, id⟩

theorem Later.trans {q q' q'' : Request} (h : Later q q') (h' : Later q' q'') : Later q q'' :=
  ⟨h'.requestId.trans h.requestId, h'.runId.trans h.runId, h'.jobId.trans h.jobId,
    fun hlive => h.result (h'.result hlive)⟩

theorem Later.ofJob {q q' : Request} (h : Later q q') : q'.ofJob r j = q.ofJob r j := by
  rw [Request.ofJob, Request.ofJob, h.runId, h.jobId]

/-- The attempt that a report is about. -/
theorem attemptRequestId_spec {agentJobId : Option String} {id : Nat}
    (h : s.attemptRequestId r j agentJobId = some id) :
    ∃ q, s.requests.get id = some q ∧ q.ofJob r j = true := by
  cases agentJobId with
  | none =>
      rcases Option.map_eq_some_iff.mp h with ⟨q, hq, rfl⟩
      rcases currentAttempt_spec hq with ⟨hrow, hjob, -⟩
      exact ⟨q, hrow, hjob⟩
  | some agent =>
      rcases Option.map_eq_some_iff.mp h with ⟨q, hq, rfl⟩
      rcases Table.mem_select.mp (List.mem_of_head? hq) with ⟨hrow, hcond⟩
      rw [Bool.and_eq_true] at hcond
      exact ⟨q, hrow, hcond.2⟩

/-- The same attempts, none of them revived. -/
structure Aged (s s' : TokenDb) : Prop where
  next : s'.nextRequest = s.nextRequest
  later : ∀ {id q}, s.requests.get id = some q →
    ∃ q', s'.requests.get id = some q' ∧ Later q q'
  earlier : ∀ {id q'}, s'.requests.get id = some q' →
    ∃ q, s.requests.get id = some q ∧ Later q q'

theorem Aged.refl (s : TokenDb) : Aged s s :=
  ⟨rfl, fun h => ⟨_, h, .refl _⟩, fun h => ⟨_, h, .refl _⟩⟩

theorem Aged.trans (h : Aged s s') (h' : Aged s' s'') : Aged s s'' where
  next := h'.next.trans h.next
  later := by
    intro id q hq
    rcases h.later hq with ⟨q', hq', hlater⟩
    rcases h'.later hq' with ⟨q'', hq'', hlater'⟩
    exact ⟨q'', hq'', hlater.trans hlater'⟩
  earlier := by
    intro id q'' hq''
    rcases h'.earlier hq'' with ⟨q', hq', hlater'⟩
    rcases h.earlier hq' with ⟨q, hq, hlater⟩
    exact ⟨q, hq, hlater.trans hlater'⟩

theorem Aged.of_requests (h : Aged s s') (hrequests : s''.requests = s.requests)
    (hnext : s''.nextRequest = s.nextRequest) : Aged s'' s' := by
  refine ⟨by rw [h.next, hnext], fun hq => ?_, fun hq' => ?_⟩
  · rw [hrequests] at hq
    exact h.later hq
  · rw [hrequests]
    exact h.earlier hq'

/-- A settled attempt stays settled. -/
theorem Aged.settled (h : Aged s s') {id : Nat}
    (hset : ∀ q, s.requests.get id = some q → q.result ≠ none) :
    ∀ q', s'.requests.get id = some q' → q'.result ≠ none := by
  intro q' hq' hlive
  rcases h.earlier hq' with ⟨q, hq, hlater⟩
  exact hset q hq (hlater.result hlive)

theorem aged_updateRequests (p : Request → Bool) (f : Request → Request)
    (hf : ∀ q, (f q).requestId = q.requestId) (hlater : ∀ q, Later q (f q)) :
    Aged s (s.updateRequests p f hf) := by
  have hone : ∀ q, Later q (if p q then f q else q) := by
    intro q
    by_cases hp : p q = true
    · rw [if_pos hp]
      exact hlater q
    · rw [if_neg hp]
      exact .refl q
  refine ⟨rfl, fun {id q} hq => ?_, fun {id q'} hq' => ?_⟩
  · refine ⟨if p q then f q else q, ?_, hone q⟩
    rw [updateRequests, Table.get_updateWhere, hq, Option.map_some]
  · rw [updateRequests, Table.get_updateWhere, Option.map_eq_some_iff] at hq'
    rcases hq' with ⟨q, hq, rfl⟩
    exact ⟨q, hq, hone q⟩

/-! ## Settling -/

theorem aged_stampResult (id : Nat) (result : ExecutionStatus) :
    Aged s (s.stampResult id result) := by
  unfold stampResult
  by_cases hterm : result.isTerminal = true
  · rw [if_pos hterm]
    exact aged_updateRequests _ _ _ fun q => ⟨rfl, rfl, rfl, fun h => by cases h⟩
  · rw [if_neg hterm]
    exact .refl s

theorem recipes_stampResult (id : Nat) (result : ExecutionStatus) :
    (s.stampResult id result).recipes = s.recipes := by
  unfold stampResult
  split <;> rfl

/-- A verdict settles its attempt. -/
theorem settled_stampResult {id : Nat} {result : ExecutionStatus}
    (hterm : result.isTerminal = true) :
    ∀ q, (s.stampResult id result).requests.get id = some q → q.result ≠ none := by
  intro q hq
  rw [stampResult, if_pos hterm, updateRequests, Table.get_updateWhere,
    Option.map_eq_some_iff] at hq
  rcases hq with ⟨old, hold, rfl⟩
  by_cases hlive : (decide (old.requestId = id) && old.result.isNone) = true
  · rw [if_pos hlive]
    simp
  · rw [if_neg hlive]
    intro hnone
    rw [Table.key_of_get hold, hnone] at hlive
    simp at hlive

theorem aged_settleRequestTx (id : Nat) (result : ExecutionStatus) :
    Aged s (s.settleRequestTx id result) := by
  unfold settleRequestTx
  refine Aged.trans ?_ (aged_stampResult id result)
  refine Aged.of_requests (s := { s with recipes := s.recipes.erase id }) ?_ rfl rfl
  exact aged_updateRequests _ _ _ fun q => ⟨rfl, rfl, rfl, fun h => h⟩

theorem recipes_settleRequestTx (id : Nat) (result : ExecutionStatus) :
    (s.settleRequestTx id result).recipes = s.recipes.erase id := by
  rw [settleRequestTx, recipes_stampResult]
  rfl

theorem settled_settleRequestTx {id : Nat} {result : ExecutionStatus}
    (hterm : result.isTerminal = true) :
    ∀ q, (s.settleRequestTx id result).requests.get id = some q → q.result ≠ none :=
  settled_stampResult hterm

/-- Verdicts for some attempts. -/
theorem foldl_stampResult (result : ExecutionStatus) (ids : List Nat) (s : TokenDb) :
    Aged s (ids.foldl (fun s id => s.stampResult id result) s) ∧
      (ids.foldl (fun s id => s.stampResult id result) s).recipes = s.recipes ∧
      (result.isTerminal = true → ∀ id ∈ ids, ∀ q,
        (ids.foldl (fun s id => s.stampResult id result) s).requests.get id = some q →
          q.result ≠ none) := by
  induction ids generalizing s with
  | nil => exact ⟨.refl s, rfl, fun _ _ h => (nomatch h)⟩
  | cons id ids ih =>
      rw [List.foldl_cons]
      rcases ih (s.stampResult id result) with ⟨haged, hrecipes, hsettled⟩
      refine ⟨(aged_stampResult id result).trans haged,
        hrecipes.trans (recipes_stampResult id result), fun hterm => ?_⟩
      exact List.forall_mem_cons.mpr
        ⟨haged.settled (settled_stampResult hterm), hsettled hterm⟩

theorem aged_settleRequestsForJob (result : ExecutionStatus) :
    Aged s (s.settleRequestsForJob r j result) := (foldl_stampResult result _ s).1

theorem recipes_settleRequestsForJob (result : ExecutionStatus) :
    (s.settleRequestsForJob r j result).recipes = s.recipes := (foldl_stampResult result _ s).2.1

/-- A verdict for a job settles its attempts. -/
theorem settled_settleRequestsForJob {result : ExecutionStatus} (hterm : result.isTerminal = true)
    {id : Nat} {q : Request} (hq : (s.settleRequestsForJob r j result).requests.get id = some q)
    (hjob : q.ofJob r j = true) : q.result ≠ none := by
  intro hlive
  rcases (aged_settleRequestsForJob result).earlier hq with ⟨old, hold, hlater⟩
  have hid := Table.key_of_get hold
  refine (foldl_stampResult result _ s).2.2 hterm id ?_ q hq hlive
  rw [← hid]
  refine List.mem_map_of_mem (Table.mem_select.mpr ⟨by rw [hid, hold], ?_⟩)
  rw [← hlater.ofJob, hjob, hlater.result hlive]
  rfl

/-! ## The newest attempt -/

theorem Aged.newest (h : Aged s s') {q q' : Request} (hq : s.Newest q)
    (hq' : s'.requests.get q'.requestId = some q') (hlater : Later q q') : s'.Newest q' := by
  refine ⟨hq', fun id other hother hjob => ?_⟩
  rcases h.earlier hother with ⟨old, hold, hage⟩
  rw [hlater.requestId]
  refine hq.2 id old hold ?_
  rw [← hage.ofJob, ← hlater.runId, ← hlater.jobId, hjob]

theorem Aged.newest_old (h : Aged s s') {q q' : Request} (hq' : s'.Newest q')
    (hq : s.requests.get q.requestId = some q) (hlater : Later q q') : s.Newest q := by
  refine ⟨hq, fun id other hother hjob => ?_⟩
  rcases h.later hother with ⟨new, hnew, hage⟩
  rw [← hlater.requestId]
  refine hq'.2 id new hnew ?_
  rw [hage.ofJob, hlater.runId, hlater.jobId, hjob]

/-- A job with attempts has a newest one. -/
theorem exists_newestAttempt {id : Nat} {q : Request} (hq : s.requests.get id = some q)
    (hjob : q.ofJob r j = true) : ∃ newest, s.newestAttempt r j = some newest := by
  have hmem : q ∈ s.requests.selectBy (Request.ofJob r j) Request.requestId :=
    Table.mem_selectBy.mpr ⟨by rw [Table.key_of_get hq, hq], hjob⟩
  cases hlast : s.newestAttempt r j with
  | some newest => exact ⟨newest, rfl⟩
  | none =>
      rw [newestAttempt, List.getLast?_eq_none_iff] at hlast
      rw [hlast] at hmem
      cases hmem

/-- There is one newest attempt of a job. -/
theorem newestAttempt_eq {q : Request} (hq : s.Newest q) (hjob : q.ofJob r j = true) :
    s.newestAttempt r j = some q := by
  rcases exists_newestAttempt hq.1 hjob with ⟨newest, hnewest⟩
  rcases newestAttempt_spec hnewest with ⟨hmax, hjob'⟩
  rcases ofJob_iff.mp hjob with ⟨rfl, rfl⟩
  have hle := hq.2 _ _ hmax.1 hjob'
  rcases ofJob_iff.mp hjob' with ⟨hrun, hid⟩
  have hge := hmax.2 _ _ hq.1 (ofJob_iff.mpr ⟨hrun.symm, hid.symm⟩)
  have hsame : newest.requestId = q.requestId := by omega
  have hrow := hmax.1
  rw [hsame, hq.1] at hrow
  rw [hnewest, ← hrow]

end TokenDb

/-! ## The invariant -/

/-- The attempts of a job follow each other, and the newest has the recipe of the submission
    unless it is settled. -/
structure RecipesKept (past : List SubmittedJob) (s : TokenDb) : Prop where
  rowBelow : ∀ {id q}, s.requests.get id = some q → id < s.nextRequest
  recipeBelow : ∀ {id recipe}, s.recipes.lookup id = some recipe → id < s.nextRequest
  live : ∀ {id q}, s.requests.get id = some q → q.result = none → s.Newest q
  issued : ∀ {sub}, sub ∈ past →
    ∃ id q, s.requests.get id = some q ∧ q.ofJob sub.runId sub.jobId = true
  follows : ∀ {sub q}, sub ∈ past → s.Newest q → q.ofJob sub.runId sub.jobId = true →
    s.recipes.lookup q.requestId = sub.recipe ∨
      s.recipes.lookup q.requestId = none ∧ q.result ≠ none

namespace RecipesKept

variable {past : List SubmittedJob} {s s' : TokenDb} {r : RunId} {j : JobId}

theorem init : RecipesKept [] TokenDb.init where
  rowBelow h := by cases h
  recipeBelow h := by cases h
  live h := by cases h
  issued h := by cases h
  follows h := by cases h

/-- Attempts may be changed, and settled ones may lose their recipes. -/
theorem aged (h : RecipesKept past s) (haged : s.Aged s')
    (hrecipes : ∀ id, s'.recipes.lookup id = s.recipes.lookup id ∨
      s'.recipes.lookup id = none ∧ ∀ q, s'.requests.get id = some q → q.result ≠ none) :
    RecipesKept past s' where
  rowBelow := by
    intro id q' hq'
    rcases haged.earlier hq' with ⟨q, hq, -⟩
    rw [haged.next]
    exact h.rowBelow hq
  recipeBelow := by
    intro id recipe hrecipe
    rw [haged.next]
    rcases hrecipes id with hsame | ⟨hnone, -⟩
    · exact h.recipeBelow (hsame.symm.trans hrecipe)
    · rw [hnone] at hrecipe
      cases hrecipe
  live := by
    intro id q' hq' hlive
    rcases haged.earlier hq' with ⟨q, hq, hlater⟩
    have hid := Table.key_of_get hq'
    refine haged.newest (h.live hq (hlater.result hlive)) ?_ hlater
    rw [hid, hq']
  issued := by
    -- a newest attempt that is alive stays the newest
    intro sub hsub
    rcases h.issued hsub with ⟨id, q, hq, hjob⟩
    rcases haged.later hq with ⟨q', hq', hlater⟩
    exact ⟨id, q', hq', by rw [hlater.ofJob, hjob]⟩
  follows := by
    intro sub q' hsub hnewest hjob
    rcases haged.earlier hnewest.1 with ⟨q, hq, hlater⟩
    -- its recipe is the one it had, or it is settled
    rcases hrecipes q'.requestId with hsame | ⟨hnone, hsettled⟩
    · have hid := hlater.requestId
      have hold : s.Newest q := haged.newest_old hnewest (by rw [← hid, hq]) hlater
      rcases h.follows hsub hold (by rw [← hlater.ofJob, hjob]) with hfollows | ⟨hnone, hdone⟩
      · exact .inl (by rw [hsame, hid, hfollows])
      · exact .inr ⟨by rw [hsame, hid, hnone], fun hlive => hdone (hlater.result hlive)⟩
    · exact .inr ⟨hnone, hsettled q' hnewest.1⟩

/-- Recipes that stay. -/
theorem same (h : RecipesKept past s) (haged : s.Aged s') (hrecipes : s'.recipes = s.recipes) :
    RecipesKept past s' :=
  h.aged haged fun id => .inl (by rw [hrecipes])

/-- A dropped recipe, if the attempt ends up settled or had none. -/
theorem dropped (h : RecipesKept past s) (haged : s.Aged s') {id : Nat}
    (hrecipes : s'.recipes = s.recipes.erase id)
    (hsettled : ∀ q, s.requests.get id = some q → q.result = none →
      (s.recipes.lookup id).isSome = true → ∀ q', s'.requests.get id = some q' →
        q'.result ≠ none) :
    RecipesKept past s' := by
  refine h.aged haged fun k => ?_
  rw [hrecipes, SortedMap.lookup_erase]
  by_cases hk : k = id
  · subst hk
    rw [if_pos rfl]
    cases hrecipe : s.recipes.lookup k with
    | none => exact .inl rfl
    | some recipe =>
        refine .inr ⟨rfl, fun q' hq' hlive => ?_⟩
        rcases haged.earlier hq' with ⟨q, hq, hlater⟩
        exact hsettled q hq (hlater.result hlive) (by rw [hrecipe]; rfl) q' hq' hlive
  · rw [if_neg (Ne.symm hk)]
    exact .inl rfl

/-- A new attempt, with the recipe of the submission. An attempt of the same job may have
    lost its own. -/
theorem minted (h : RecipesKept past s) {agentJobId : String} {id : Nat} {mid : TokenDb}
    (hinsert : s.insertAttempt r j agentJobId = some (mid, id))
    (hrequests : s'.requests = mid.requests) (hnext : s'.nextRequest = mid.nextRequest)
    (hown : ∀ sub ∈ past, sub.runId = r → sub.jobId = j → s'.recipes.lookup id = sub.recipe)
    (hother : ∀ k ≠ id, s'.recipes.lookup k = s.recipes.lookup k ∨
      s'.recipes.lookup k = none ∧ ∀ q, s.requests.get k = some q → q.ofJob r j = true) :
    RecipesKept past s' := by
  rcases TokenDb.insertAttempt_spec hinsert with ⟨rfl, hmid, -, hget, hfree⟩
  rw [← hrequests] at hget
  have hold : ∀ {k q}, s.requests.get k = some q → s'.requests.get k = some q := by
    intro k q hq
    rw [hget, if_neg (Nat.ne_of_gt (h.rowBelow hq)), hq]
  -- an attempt of the new state is the new one or an old one
  have hcases : ∀ {k q}, s'.requests.get k = some q →
      (k = s.nextRequest ∧ q.runId = r ∧ q.jobId = j) ∨ s.requests.get k = some q := by
    intro k q hq
    rw [hget] at hq
    by_cases hk : s.nextRequest = k
    · rw [if_pos hk, Option.some.injEq] at hq
      subst hq
      exact .inl ⟨hk.symm, rfl, rfl⟩
    · rw [if_neg hk] at hq
      exact .inr hq
  have hnew : s'.requests.get s.nextRequest =
      some ⟨s.nextRequest, r, j, agentJobId, none, none, none, false⟩ := by
    rw [hget, if_pos rfl]
  refine ⟨fun {k q} hq => ?_, fun {k recipe} hrecipe => ?_, fun {k q} hq hlive => ?_,
    fun {sub} hsub => ?_, fun {sub q} hsub hnewest hjob => ?_⟩
  · rw [hnext, hmid]
    rcases hcases hq with ⟨rfl, -⟩ | hq
    · omega
    · exact Nat.lt_succ_of_lt (h.rowBelow hq)
  · rw [hnext, hmid]
    by_cases hk : k = s.nextRequest
    · omega
    · rcases hother k hk with hsame | ⟨hnone, -⟩
      · exact Nat.lt_succ_of_lt (h.recipeBelow (hsame.symm.trans hrecipe))
      · rw [hnone] at hrecipe
        cases hrecipe
  · have hid := Table.key_of_get hq
    refine ⟨by rw [hid, hq], fun k' q' hq' hjob' => ?_⟩
    rw [hid]
    rcases hcases hq with ⟨rfl, -⟩ | hqold
    · rcases hcases hq' with ⟨rfl, -⟩ | hq'old
      · exact le_rfl
      · exact (h.rowBelow hq'old).le
    · rcases hcases hq' with ⟨rfl, rfl, rfl⟩ | hq'old
      · -- the new attempt found no other one of its job in flight
        have hjob := TokenDb.ofJob_iff.mp hjob'
        exact absurd hlive (hfree k q hqold (TokenDb.ofJob_iff.mpr ⟨hjob.1.symm, hjob.2.symm⟩))
      · have hle := (h.live hqold hlive).2 k' q' hq'old hjob'
        rwa [Table.key_of_get hqold] at hle
  · rcases h.issued hsub with ⟨k, q, hq, hjob⟩
    exact ⟨k, q, hold hq, hjob⟩
  · rcases hcases hnewest.1 with ⟨hid, hrun, hjobId⟩ | hqold
    · rw [hid]
      rcases TokenDb.ofJob_iff.mp hjob with ⟨hrun', hjobId'⟩
      exact .inl (hown sub hsub (hrun'.symm.trans hrun) (hjobId'.symm.trans hjobId))
    · have hbelow := h.rowBelow hqold
      -- an old attempt is only the newest of another job
      have hforeign : q.ofJob r j ≠ true := by
        intro hsame
        rcases TokenDb.ofJob_iff.mp hsame with ⟨rfl, rfl⟩
        have hle := hnewest.2 _ _ hnew (TokenDb.ofJob_iff.mpr ⟨rfl, rfl⟩)
        omega
      have hnewestOld : s.Newest q :=
        ⟨hqold, fun k' q' hq' hjob' => hnewest.2 k' q' (hold hq') hjob'⟩
      rcases hother q.requestId (by omega) with hsame | ⟨-, hjobs⟩
      · rw [hsame]
        exact h.follows hsub hnewestOld hjob
      · exact absurd (hjobs q hqold) hforeign

/-- A submission of a job that had none. -/
theorem noted (h : RecipesKept past s) {sub : SubmittedJob} {q : Request}
    (hq : s.Newest q) (hjob : q.ofJob sub.runId sub.jobId = true)
    (hrecipe : s.recipes.lookup q.requestId = sub.recipe) : RecipesKept (past ++ [sub]) s where
  rowBelow := h.rowBelow
  recipeBelow := h.recipeBelow
  live := h.live
  issued := by
    intro other hother
    rcases List.mem_append.mp hother with hother | hother
    · exact h.issued hother
    · rw [List.mem_singleton.mp hother]
      exact ⟨_, q, hq.1, hjob⟩
  follows := by
    intro other q' hother hnewest hjob'
    rcases List.mem_append.mp hother with hother | hother
    · exact h.follows hother hnewest hjob'
    · rw [List.mem_singleton.mp hother] at hjob' ⊢
      have hsame := (TokenDb.newestAttempt_eq hnewest hjob').symm.trans
        (TokenDb.newestAttempt_eq hq hjob)
      rw [Option.some.inj hsame]
      exact .inl hrecipe

/-! ## The commands -/

/-- A minted attempt and its recipe. -/
theorem mintRequest_spec (h : RecipesKept past s) {agentJobId : String}
    {tokenRequest : Option GitHubTokenRequest}
    (hmint : s.mintRequest r j agentJobId tokenRequest = some s') :
    ∃ mid, s.insertAttempt r j agentJobId = some (mid, s.nextRequest) ∧
      s'.requests = mid.requests ∧ s'.nextRequest = mid.nextRequest ∧
      s'.recipes.lookup s.nextRequest = tokenRequest ∧
      ∀ k ≠ s.nextRequest, s'.recipes.lookup k = s.recipes.lookup k := by
  rcases Option.map_eq_some_iff.mp hmint with ⟨⟨mid, id⟩, hinsert, rfl⟩
  rcases TokenDb.insertAttempt_spec hinsert with ⟨rfl, -, hrecipes, -⟩
  have hnone : s.recipes.lookup s.nextRequest = none := by
    cases hlookup : s.recipes.lookup s.nextRequest with
    | none => rfl
    | some recipe => exact absurd (h.recipeBelow hlookup) (lt_irrefl _)
  refine ⟨mid, hinsert, ?_⟩
  cases tokenRequest with
  | none =>
      refine ⟨rfl, rfl, ?_, fun k _ => ?_⟩
      · rw [hrecipes, hnone]
      · rw [hrecipes]
  | some recipe =>
      dsimp only
      rw [hrecipes, hnone, if_neg (by decide)]
      refine ⟨rfl, rfl, ?_, fun k hk => ?_⟩
      · rw [SortedMap.lookup_insert, if_pos rfl]
      · rw [SortedMap.lookup_insert, if_neg (Ne.symm hk)]

/-- A job that had no attempt is submitted. -/
theorem submit (h : RecipesKept past s) {agentJobId : String}
    {tokenRequest : Option GitHubTokenRequest}
    (hfree : s.requests.exists? (Request.ofJob r j) ≠ true)
    (hmint : s.mintRequest r j agentJobId tokenRequest = some s') :
    RecipesKept (past ++ [⟨r, j, tokenRequest⟩]) s' := by
  rcases h.mintRequest_spec hmint with ⟨mid, hinsert, hrequests, hnext, hown, hother⟩
  have hnone : ∀ sub ∈ past, sub.runId = r → sub.jobId ≠ j := by
    rintro sub hsub rfl rfl
    rcases h.issued hsub with ⟨id, q, hq, hjob⟩
    exact hfree (Table.exists?_iff.mpr ⟨id, q, hq, hjob⟩)
  have hkept : RecipesKept past s' := h.minted hinsert hrequests hnext
    (fun sub hsub hrun hjob => absurd hjob (hnone sub hsub hrun))
    fun k hk => .inl (hother k hk)
  rcases TokenDb.insertAttempt_spec hinsert with ⟨-, -, -, hget, -⟩
  have hrow := hget s.nextRequest
  rw [if_pos rfl, ← hrequests] at hrow
  refine hkept.noted (hkept.live hrow rfl) ?_ hown
  exact TokenDb.ofJob_iff.mpr ⟨rfl, rfl⟩

/-- A job is run again while its newest attempt has the recipe. -/
theorem mintAttempt (h : RecipesKept past s) {agentJobId : String}
    (hholds : ∀ sub ∈ past, sub.runId = r → sub.jobId = j → sub.recipe.isSome = true →
      ∀ q ∈ s.newestAttempt r j, (s.recipes.lookup q.requestId).isSome = true)
    (hmint : s.mintAttempt r j agentJobId = some s') : RecipesKept past s' := by
  rcases h.mintRequest_spec hmint with ⟨mid, hinsert, hrequests, hnext, hown, hother⟩
  refine h.minted hinsert hrequests hnext ?_ fun k hk => .inl (hother k hk)
  rintro sub hsub rfl rfl
  rcases h.issued hsub with ⟨id, q, hq, hjob⟩
  rcases TokenDb.exists_newestAttempt hq hjob with ⟨newest, hnewest⟩
  rcases TokenDb.newestAttempt_spec hnewest with ⟨hmax, hjob'⟩
  rw [hown, hnewest, Option.bind_some]
  rcases h.follows hsub hmax hjob' with hfollows | ⟨hnone, -⟩
  · exact hfollows
  · -- without a recipe to copy there was none at the submission
    cases hrecipe : sub.recipe with
    | none => exact hnone
    | some recipe =>
        have hsome := hholds sub hsub rfl rfl (by rw [hrecipe]; rfl) newest hnewest
        rw [hnone] at hsome
        cases hsome

/-- The attempt in flight is replaced, and the new one gets its recipe. -/
theorem retryAttempt (h : RecipesKept past s) {agentJobId : String}
    (hretry : s.retryAttempt r j agentJobId = some s') : RecipesKept past s' := by
  unfold TokenDb.retryAttempt at hretry
  cases hcurrent : s.currentAttempt r j with
  | none =>
      rw [hcurrent] at hretry
      rwa [← Option.some.inj hretry]
  | some q =>
      rw [hcurrent] at hretry
      rcases TokenDb.currentAttempt_spec hcurrent with ⟨hrow, hjob, hlive⟩
      dsimp only at hretry
      -- the attempt in flight is retired first, which leaves every recipe where it was
      generalize hretired : s.updateRequests _ _ _ = retired at hretry
      have haged : s.Aged retired := by
        rw [← hretired]
        exact TokenDb.aged_updateRequests _ _ _ fun q => ⟨rfl, rfl, rfl, fun h => by cases h⟩
      have hrecipes : retired.recipes = s.recipes := by rw [← hretired]; rfl
      have hkept : RecipesKept past retired := h.same haged hrecipes
      rcases Option.bind_eq_some_iff.mp hretry with ⟨⟨mid, retry⟩, hinsert, hmove⟩
      rcases TokenDb.insertAttempt_spec hinsert with ⟨rfl, -, hmid, -⟩
      -- that attempt is the newest of its job, so it holds the recipe of the submission
      have hold : ∀ sub ∈ past, sub.runId = r → sub.jobId = j →
          mid.recipes.lookup q.requestId = sub.recipe := by
        rintro sub hsub rfl rfl
        rw [hmid, hrecipes]
        rcases h.follows hsub (h.live hrow hlive) hjob with hfollows | ⟨-, hdone⟩
        · exact hfollows
        · exact absurd hlive hdone
      -- request numbers are never given twice: the new one has no recipe yet
      have hnew : mid.recipes.lookup retired.nextRequest = none := by
        rw [hmid]
        cases hlookup : retired.recipes.lookup retired.nextRequest with
        | none => rfl
        | some recipe => exact absurd (hkept.recipeBelow hlookup) (lt_irrefl _)
      -- the recipe moves from the old request to the new one, or there was none to move
      unfold TokenDb.moveRecipe at hmove
      cases hrecipe : mid.recipes.lookup q.requestId with
      | none =>
          rw [hrecipe] at hmove hold
          rw [← Option.some.inj hmove]
          refine hkept.minted hinsert rfl rfl (fun sub hsub hrun hjobId => ?_) fun k _ => ?_
          · rw [hnew, hold sub hsub hrun hjobId]
          · exact .inl (by rw [hmid])
      | some recipe =>
          rw [hrecipe] at hmove hold
          dsimp only at hmove
          rw [hnew, if_neg (by decide)] at hmove
          rw [← Option.some.inj hmove]
          refine hkept.minted hinsert rfl rfl (fun sub hsub hrun hjobId => ?_) fun k hk => ?_
          · rw [SortedMap.lookup_insert, if_pos rfl, hold sub hsub hrun hjobId]
          · rw [SortedMap.lookup_insert, if_neg (Ne.symm hk), SortedMap.lookup_erase]
            by_cases hkq : q.requestId = k
            · rw [if_pos hkq]
              refine .inr ⟨rfl, fun q' hq' => ?_⟩
              rcases haged.later hrow with ⟨later, hlater, hage⟩
              rw [hkq, hq', Option.some.injEq] at hlater
              rw [hlater, hage.ofJob, hjob]
            · rw [if_neg hkq, hmid]
              exact .inl rfl

/-- A derived recipe for an attempt that is the newest is the one of the submission. -/
theorem record (h : RecipesKept past s) {id : Nat} {q : Request} {recipe : GitHubTokenRequest}
    (hq : s.requests.get id = some q)
    (hsame : s.newestAttempt q.runId q.jobId = some q →
      ∀ sub ∈ past, q.ofJob sub.runId sub.jobId → sub.recipe = some recipe) :
    RecipesKept past { s with recipes := s.recipes.insert id recipe } where
  rowBelow := h.rowBelow
  live := h.live
  issued := h.issued
  recipeBelow := by
    intro k stored hstored
    rw [SortedMap.lookup_insert] at hstored
    by_cases hk : id = k
    · subst hk
      exact h.rowBelow hq
    · rw [if_neg hk] at hstored
      exact h.recipeBelow hstored
  follows := by
    intro sub newest hsub hnewest hjob
    rw [SortedMap.lookup_insert]
    -- the recipe was written for the newest attempt, or for another one
    by_cases hk : id = newest.requestId
    · rw [if_pos hk]
      have hrow : s.requests.get newest.requestId = some newest := hnewest.1
      rw [← hk, hq, Option.some.injEq] at hrow
      subst hrow
      refine .inl (hsame ?_ sub hsub hjob).symm
      exact TokenDb.newestAttempt_eq hnewest (TokenDb.ofJob_iff.mpr ⟨rfl, rfl⟩)
    · rw [if_neg hk]
      exact h.follows hsub hnewest hjob

/-- A report settles the attempt whose recipe it drops. -/
theorem settleRequestTx (h : RecipesKept past s) {id : Nat} {result : ExecutionStatus}
    (hholds : ∀ q ∈ s.requests.get id, q.result = none →
      (s.recipes.lookup id).isSome = true → result.isTerminal) :
    RecipesKept past (s.settleRequestTx id result) := by
  refine h.dropped (TokenDb.aged_settleRequestTx id result)
    (TokenDb.recipes_settleRequestTx id result) fun q hq hlive hrecipe => ?_
  exact TokenDb.settled_settleRequestTx (hholds q hq hlive hrecipe)

theorem settleRequestsForJob (h : RecipesKept past s) (result : ExecutionStatus) :
    RecipesKept past (s.settleRequestsForJob r j result) :=
  h.same (TokenDb.aged_settleRequestsForJob result) (TokenDb.recipes_settleRequestsForJob result)

/-- `complete_job` drops the recipe before the job is settled. -/
theorem completeJob (h : RecipesKept past s) {agentJobId : Option String}
    {status : ExecutionStatus} {effective : Option ExecutionStatus}
    (hholds : KeepsRecipe past s (.completeJob r j agentJobId status effective)) :
    RecipesKept past (s.completeJob r j agentJobId status effective) := by
  unfold TokenDb.completeJob
  cases hattempt : s.attemptRequestId r j agentJobId with
  | none =>
      cases effective with
      | none => exact h
      | some effective => exact h.settleRequestsForJob effective
  | some id =>
      have hends := hholds id hattempt
      have haged := TokenDb.aged_settleRequestTx (s := s) id status
      have hrecipes := TokenDb.recipes_settleRequestTx (s := s) id status
      cases effective with
      | none =>
          refine h.settleRequestTx fun q hq hlive hrecipe => ?_
          rcases hends q hq hlive hrecipe with hterm | hterm
          · exact hterm
          · cases hterm
      | some effective =>
          dsimp only
          refine h.dropped (haged.trans (TokenDb.aged_settleRequestsForJob effective))
            ((TokenDb.recipes_settleRequestsForJob effective).trans hrecipes)
            fun q hq hlive hrecipe q' hq' => ?_
          rcases hends q hq hlive hrecipe with hterm | hterm
          · exact (TokenDb.aged_settleRequestsForJob effective).settled
              (TokenDb.settled_settleRequestTx hterm) q' hq'
          · -- the verdict on the job settles the attempt after all
            refine TokenDb.settled_settleRequestsForJob hterm hq' ?_
            rcases TokenDb.attemptRequestId_spec hattempt with ⟨old, hold, hjob⟩
            rcases (haged.trans (TokenDb.aged_settleRequestsForJob effective)).earlier hq' with
              ⟨first, hfirst, hlater⟩
            rw [hold, Option.some.injEq] at hfirst
            rw [hlater.ofJob, ← hfirst, hjob]

/-- `settle_job` settles the job before the recipe is dropped. -/
theorem settleJob (h : RecipesKept past s) {agentJobId : Option String}
    {effective : Option ExecutionStatus}
    (hholds : KeepsRecipe past s (.settleJob r j agentJobId effective)) :
    RecipesKept past (s.settleJob r j agentJobId effective) := by
  unfold TokenDb.settleJob
  cases effective with
  | none => exact h
  | some effective =>
      have hsettled := h.settleRequestsForJob (r := r) (j := j) effective
      cases hattempt : s.attemptRequestId r j agentJobId with
      | none => exact hsettled
      | some id =>
          refine hsettled.settleRequestTx fun q' hq' hlive hrecipe => ?_
          rcases (TokenDb.aged_settleRequestsForJob effective).earlier hq' with ⟨q, hq, hlater⟩
          rw [TokenDb.recipes_settleRequestsForJob] at hrecipe
          exact hholds id hattempt q hq (hlater.result hlive) hrecipe

/-- What every command keeps. -/
theorem step (h : RecipesKept past s) {call : TokenCall} (hholds : KeepsRecipe past s call)
    (hcall : s.call call = some s') : RecipesKept (past ++ TokenDb.submissions call) s' := by
  -- only a submission is noted
  cases call with
  | submit r j agentJobId recipe =>
      rw [TokenDb.call] at hcall
      split at hcall
      · cases hcall
      · next hfree => exact h.submit hfree hcall
  | claim id runnerId sessionId =>
      change RecipesKept (past ++ []) s'
      rw [List.append_nil, ← Option.some.inj hcall]
      exact h.same (TokenDb.aged_updateRequests _ _ _ fun q => ⟨rfl, rfl, rfl, fun h => h⟩) rfl
  | release id =>
      change RecipesKept (past ++ []) s'
      rw [List.append_nil, ← Option.some.inj hcall]
      exact h.same (TokenDb.aged_updateRequests _ _ _ fun q => ⟨rfl, rfl, rfl, fun h => h⟩) rfl
  | recordTokenRequest id recipe =>
      change RecipesKept (past ++ []) s'
      rw [List.append_nil]
      rw [TokenDb.call] at hcall
      split at hcall
      · next hrow =>
          rcases Option.isSome_iff_exists.mp hrow with ⟨q, hq⟩
          rw [← Option.some.inj hcall]
          exact h.record hq (hholds q hq)
      · cases hcall
  | requeue r j agentJobId =>
      change RecipesKept (past ++ []) s'
      rw [List.append_nil]
      exact h.retryAttempt hcall
  | completeJob r j agentJobId status effective =>
      change RecipesKept (past ++ []) s'
      rw [List.append_nil, ← Option.some.inj hcall]
      exact h.completeJob hholds
  | settleJob r j agentJobId effective =>
      change RecipesKept (past ++ []) s'
      rw [List.append_nil, ← Option.some.inj hcall]
      exact h.settleJob hholds
  | settleRequest id result =>
      change RecipesKept (past ++ []) s'
      rw [List.append_nil, ← Option.some.inj hcall]
      split
      · exact h.settleRequestTx hholds
      · exact h
  | conclude r j status =>
      change RecipesKept (past ++ []) s'
      rw [List.append_nil, ← Option.some.inj hcall]
      exact h.settleRequestsForJob status
  | rerun r j status agentJobId =>
      change RecipesKept (past ++ []) s'
      rw [List.append_nil]
      have haged : s.Aged (s.settleStaleRequests r j status) :=
        TokenDb.aged_updateRequests _ _ _ fun q => ⟨rfl, rfl, rfl, fun h => by cases h⟩
      refine (h.same haged rfl).mintAttempt ?_ hcall
      -- settling does not change which attempt is the newest
      intro sub hsub hrun hjob hsome q' hq'
      rcases TokenDb.newestAttempt_spec hq' with ⟨hmax, hofJob⟩
      rcases haged.earlier hmax.1 with ⟨q, hq, hlater⟩
      have hid := hlater.requestId
      rw [hid]
      refine hholds sub hsub hrun hjob hsome q ?_
      refine TokenDb.newestAttempt_eq (haged.newest_old hmax (by rw [← hid, hq]) hlater) ?_
      rw [← hlater.ofJob, hofJob]

end RecipesKept

/-! ## Runs -/

/-- In every run that meets the condition the attempt of a job that is in flight has the
    recipe that the submission of the job stored, or has none if there was none. -/
theorem recipe_follows_job {past : List SubmittedJob} {s : TokenDb}
    (h : tokenMachine.Run KeepsRecipe TokenDb.init past s) {sub : SubmittedJob} {q : Request}
    (hsub : sub ∈ past) (hq : s.currentAttempt sub.runId sub.jobId = some q) :
    s.recipes.lookup q.requestId = sub.recipe := by
  have hkept : RecipesKept past s := by
    refine h.invariant RecipesKept.init fun {past s call s' notes} hkept hholds hcall => ?_
    rcases Option.map_eq_some_iff.mp hcall with ⟨next, hnext, hpair⟩
    rcases Prod.mk.inj hpair with ⟨rfl, rfl⟩
    exact hkept.step hholds hnext
  rcases TokenDb.currentAttempt_spec hq with ⟨hrow, hjob, hlive⟩
  rcases hkept.follows hsub (hkept.live hrow hlive) hjob with hfollows | ⟨-, hdone⟩
  · exact hfollows
  · exact absurd hlive hdone

/-- A job is requeued, cancelled before its attempt is claimed again, and run again. -/
theorem recipe_follows_job_of_requeue :
    let recipe : GitHubTokenRequest := ⟨"o/r", .ofList [("contents", "write")], true, false⟩
    ∃ s q, tokenMachine.Run KeepsRecipe TokenDb.init [⟨0, "build", some recipe⟩] s ∧
      s.currentAttempt 0 "build" = some q ∧ q.agentJobId = "c" ∧
      s.recipes.lookup q.requestId = some recipe := by
  intro recipe
  have hexec : ((tokenMachine.execUnder (fun past s call => decide (KeepsRecipe past s call))
      [.submit 0 "build" "a" (some recipe), .claim 0 1 none, .requeue 0 "build" "b",
        .conclude 0 "build" .cancelled, .rerun 0 "build" .cancelled "c"]
      [] TokenDb.init).map fun e => (e.1, (e.2.currentAttempt 0 "build").map (·.agentJobId))) =
        some ([⟨0, "build", some recipe⟩], some "c") := by
    decide
  rcases Option.map_eq_some_iff.mp hexec with ⟨⟨past, s⟩, hrun, hpair⟩
  rcases Prod.mk.inj hpair with ⟨rfl, hcurrent⟩
  rcases Option.map_eq_some_iff.mp hcurrent with ⟨q, hq, hagent⟩
  have hkept : tokenMachine.Run KeepsRecipe TokenDb.init [⟨0, "build", some recipe⟩] s :=
    run_of_execUnder (fun _ _ _ hcheck => of_decide_eq_true hcheck) Machine.Run.start hrun
  exact ⟨s, q, hkept, hq, hagent, recipe_follows_job hkept (List.mem_singleton_self _) hq⟩

/-- A job that ran to its end is run again, and its recipe is gone. -/
theorem rerun_without_recipe :
    let recipe : GitHubTokenRequest := ⟨"o/r", .ofList [("contents", "write")], true, false⟩
    ∃ s q, tokenMachine.exec
        [.submit 0 "build" "a" (some recipe), .claim 0 1 none,
          .settleJob 0 "build" (some "a") (some .success), .rerun 0 "build" .success "b"]
        [] TokenDb.init = some ([⟨0, "build", some recipe⟩], s) ∧
      s.currentAttempt 0 "build" = some q ∧ s.recipes.lookup q.requestId = none := by
  intro recipe
  have hexec : ((tokenMachine.exec
      [.submit 0 "build" "a" (some recipe), .claim 0 1 none,
        .settleJob 0 "build" (some "a") (some .success), .rerun 0 "build" .success "b"]
      [] TokenDb.init).map fun e => (e.1, (e.2.currentAttempt 0 "build").map fun q =>
        (e.2.recipes.lookup q.requestId).isNone)) =
          some ([⟨0, "build", some recipe⟩], some true) := by
    decide
  rcases Option.map_eq_some_iff.mp hexec with ⟨⟨past, s⟩, hrun, hpair⟩
  rcases Prod.mk.inj hpair with ⟨rfl, hcurrent⟩
  rcases Option.map_eq_some_iff.mp hcurrent with ⟨q, hq, hnone⟩
  exact ⟨s, q, hrun, hq, Option.isNone_iff_eq_none.mp hnone⟩

end Preloop
