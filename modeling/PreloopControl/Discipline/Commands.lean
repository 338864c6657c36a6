import PreloopControl.Discipline.Submit
import PreloopControl.System

/-!
# The Discipline of the Commands

Every command of the control plane follows the write discipline, so an
invariant kept by every statement at its site is kept by every call
(`exec_spec`). The hand-over of a group, which the commands nest in each other,
is already covered by `promoteNextInGroup_handsOver`.

A rerun is the one command that moves a settled run back, and its sites say so:
they name the run by `rr`. A proof about a run that is not started again picks
an `rr` that leaves it out.

## Theorems

* `foldCallers_terminal`: A folded caller is settled.
* `completeNode_spec`, `applyExpansion_spec`, `promoteReadyJobs_spec`,
  `expireForkApprovals_spec`, `rerunRun_spec`, `reconcileOnBoot_spec`: The
  commands with loops of their own.
* `Call.exec_spec`: All of them.
-/

namespace Preloop

open Txn

section Complete

variable {P : Pending → Db → Prop} {rr : RunId → Prop} {c : Contract Stmt Db}
variable {promoteNext : GroupKey → Option String → Cmd Unit}
variable (hpn : HandsOver rr c promoteNext) (K : Kept P rr c)
variable (b : Backend) (fuel : Nat) {x : Pending}

/-! ## Claims and completions -/

include K in
theorem pollClaim_spec {session : String} {r : RunId} {j : JobId} :
    Triple c (P .none) (pollClaim session r j) fun _ => P .none := by
  refine Triple.select fun s0 _ => ?_
  cases s0.sessions.get session with
  | none => exact Triple.abort
  | some row =>
      refine Triple.select fun s1 _ => Triple.select fun s2 _ => ?_
      refine Triple.ite (fun _ => Triple.ret fun s hs => hs.2.2.2) fun _ => ?_
      refine Triple.bind ((K.keep (.job (.claim row.runnerId) r j) (fun s _ => trivial)
        fun s => rfl).pre fun s hs => hs.2.2.2) fun _ => ?_
      refine Triple.select fun s3 _ => ?_
      cases s3.liveRequest r j with
      | none => exact Triple.ret fun s hs => hs.2
      | some q =>
          refine Triple.bind ((K.keep (.request (.bind session row.runnerId) q.requestId)
            (fun s _ => trivial) fun s => rfl).pre fun s hs => hs.2) fun _ => ?_
          exact K.keep (.run .start r) (fun s _ => trivial) fun s => rfl

include K in
theorem settleRequestTx_spec {id : Nat} {result : ExecutionStatus} :
    Triple c (P x) (settleRequestTx id result) fun _ => P x := by
  refine Triple.bind (K.keep (.dropCancellation id) (fun s _ => trivial) fun s => rfl)
    fun _ => ?_
  refine Triple.bind (K.keep (.request .clearSession id) (fun s _ => trivial) fun s => rfl)
    fun _ => ?_
  exact K.keep (.request (.settle result) id) (fun s _ => trivial) fun s => rfl

/-- Every pass keeps only callers it settled. -/
theorem foldPasses_terminal {ev : Evaluators} {n : Nat} {graph : RunGraph} {j : Job}
    (h : j ∈ foldPasses ev n graph) : j.status.isTerminal = true := by
  induction n generalizing graph with
  | zero => exact absurd h List.not_mem_nil
  | succ n ih =>
      rw [foldPasses] at h
      split at h
      · exact absurd h List.not_mem_nil
      · rcases List.mem_append.mp h with h | h
        · have hmem := (List.mem_insertionSort _).mp h
          have hcond := (List.mem_filter.mp hmem).2
          rw [Bool.and_eq_true] at hcond
          exact hcond.1
        · exact ih h

theorem foldCallers_terminal {ev : Evaluators} {graph : RunGraph} {j : Job}
    (h : j ∈ foldCallers ev graph) : j.status.isTerminal = true :=
  foldPasses_terminal h

include hpn K in
theorem finalizeCaller_spec {r : RunId} {caller : Job} (hterm : caller.status.isTerminal = true) :
    Triple c (P .none) (finalizeCaller promoteNext r caller) fun _ => P .none := by
  let y := Pending.none.addGone (.job r caller.jobId)
  refine Triple.bind (K.move (.job (.fold caller.status caller.outputs) r caller.jobId) (y := y)
    (fun s _ => ⟨rfl, hterm⟩) fun s => rfl) fun _ => ?_
  refine Triple.bind ((settleRequestsForJob_spec K.toKeptInside (Ignores.any _)).pre
    fun s hs => ⟨hs, trivial⟩) fun _ => ?_
  refine Triple.bind ((K.keep (.refreshRemainingNeeds r caller.jobId caller.jobId) (x := y)
    (fun s _ => trivial) fun s => rfl).pre fun s hs => hs.1) fun _ => ?_
  refine Triple.bind (releaseConcurrencyForJob_spec hpn K.toKeptInside (x := y)
    (List.mem_cons_self ..)) fun _ => ?_
  refine Triple.select fun s0 _ => ?_
  exact (emitJob_spec K.toKeptInside (by decide)).conseq (fun s hs => hs.2)
    fun _ s hs => K.drop hs

include hpn K in
theorem completeNode_spec {completion : Completion} :
    Triple c (P .none) (completeNode b promoteNext completion) fun _ => P .none := by
  let r := completion.runId
  refine Triple.select fun s0 _ => ?_
  cases s0.job completion.runId completion.jobId with
  | none => exact Triple.abort
  | some job =>
      -- a late report on a settled job changes nothing
      refine Triple.ite (fun _ => Triple.ret fun s hs => hs.2) fun _ => ?_
      have hrest : Triple c (P .none) (do
          let effects ← settleNode promoteNext r completion.jobId completion.status
          finalizeReusableCallers b promoteNext r
          let summary ← summarizeRunRow .complete r
          if summary.isTerminal then releaseConcurrencyForRun promoteNext .concluded r
          pure effects) fun _ => P .none := by
        refine Triple.bind ((settleNode_spec hpn K.toKeptInside completion.terminal).post
          fun _ s hs => K.drop hs) fun effects => ?_
        -- the callers whose inner jobs are all done are settled with it
        refine Triple.bind (Q := fun _ => P .none) ?_ fun _ => ?_
        · refine Triple.select fun s1 _ => ?_
          refine (Triple.forM fun caller hcaller => ?_).pre fun s hs => hs.2
          exact finalizeCaller_spec hpn K (foldCallers_terminal hcaller)
        refine Triple.bind (K.summarizeRunRow .complete (fun s => trivial) fun s => rfl)
          fun summary => ?_
        cases hterm : summary.isTerminal with
        | false => exact Triple.ret fun s hs => K.unsettle hs
        -- the last job of a run releases what the run still holds
        | true =>
            rw [Pending.settle, if_pos hterm]
            refine Triple.bind (releaseConcurrencyForRun_spec hpn K.toKeptInside (by decide)
              (.inr (List.mem_cons_self ..))) fun _ => ?_
            exact Triple.ret fun s hs => K.drop hs
      refine Triple.ite (fun _ => ?_) fun _ => hrest.pre fun s hs => hs.2
      refine Triple.bind ((K.keep (.job (.setOutputs completion.outputs) r completion.jobId)
        (fun s _ => trivial) fun s => rfl).pre fun s hs => hs.2) fun _ => hrest

include hpn K in
theorem completeJob_spec {completion : Completion} :
    Triple c (P .none) (completeJob b promoteNext fuel completion) fun _ => P .none := by
  have hrest : Triple c (P .none) (do
      let _ ← completeNode b promoteNext completion
      let _ ← promoteRun b promoteNext fuel fuel completion.runId
      pure PUnit.unit) fun _ => P .none := by
    refine Triple.bind (completeNode_spec hpn K b) fun _ => ?_
    refine Triple.bind (promoteRun_spec hpn K.toKeptInside b fuel fuel) fun _ => ?_
    exact Triple.ret fun s hs => hs
  refine Triple.select fun s0 _ => ?_
  refine Triple.ite (fun _ => Triple.abort) fun _ => ?_
  refine Triple.select fun s1 _ => ?_
  cases s1.attemptRequest completion.runId completion.jobId completion.agentJobId with
  | none => exact hrest.pre fun s hs => hs.2.2
  | some q =>
      exact Triple.bind ((settleRequestTx_spec K).pre fun s hs => hs.2.2) fun _ => hrest

theorem ownedAttempt_spec {completion : Completion} {settle : SettleAttempt} :
    Triple c (P x) (ownedAttempt completion settle) fun _ => P x := by
  refine Triple.select fun s0 _ => ?_
  cases s0.attemptRequest completion.runId completion.jobId (some settle.agentJobId) with
  | none => exact Triple.abort
  | some q =>
      refine Triple.select fun s1 _ => ?_
      cases s1.ensureRequestOwner q settle.runnerId with
      | error e => exact Triple.abort
      | ok owned => exact Triple.ret fun s hs => hs.2.2

/-- What `settle_job` does once the attempt is known. -/
def settleAttempted (b : Backend) (promoteNext : GroupKey → Option String → Cmd Unit) (fuel : Nat)
    (completion : Completion) (attempt : Option Request) : Cmd Unit := do
  let effects ← completeNode b promoteNext completion
  if effects.replayed then pure ()
  else
    match attempt with
    | some q => settleRequestTx q.requestId effects.effectiveStatus
    | none => pure ()
    let _ ← promoteRun b promoteNext fuel fuel completion.runId
    pure PUnit.unit

include hpn K in
theorem settleJob_spec {completion : Completion} {settle : Option SettleAttempt} :
    Triple c (P .none) (settleJob b promoteNext fuel completion settle) fun _ => P .none := by
  have hrest : ∀ attempt : Option Request, Triple c (P .none)
      (settleAttempted b promoteNext fuel completion attempt) fun _ => P .none := by
    intro attempt
    refine Triple.bind (completeNode_spec hpn K b) fun effects => ?_
    refine Triple.ite (fun _ => Triple.ret fun s hs => hs) fun _ => ?_
    have hsweep : Triple c (P .none) (do
        let _ ← promoteRun b promoteNext fuel fuel completion.runId
        pure PUnit.unit) fun _ => P .none :=
      Triple.bind (promoteRun_spec hpn K.toKeptInside b fuel fuel) fun _ =>
        Triple.ret fun s hs => hs
    cases attempt with
    | none => exact hsweep
    | some q => exact Triple.bind (settleRequestTx_spec K) fun _ => hsweep
  refine Triple.select fun s0 _ => ?_
  refine Triple.ite (fun _ => Triple.abort) fun _ => ?_
  refine Triple.select fun s1 _ => ?_
  cases settle with
  | none => exact Triple.ret_bind ((hrest _).pre fun s hs => hs.2.2)
  | some settle =>
      refine Triple.bind (ownedAttempt_spec.pre fun s hs => hs.2.2) fun q => ?_
      exact Triple.ret_bind (hrest (some q))

include hpn K in
theorem cancelRun_spec {r : RunId} : Triple c (P .none) (cancelRun promoteNext r) fun _ =>
    P .none := by
  refine Triple.select fun s0 _ => ?_
  refine Triple.ite (fun _ => Triple.abort) fun _ => ?_
  refine Triple.bind ((cancelRunInner_spec hpn K.toKeptInside).pre fun s hs => hs.2) fun _ => ?_
  exact Triple.ret fun s hs => K.drop hs

include hpn K in
theorem cancelJob_spec {r : RunId} {j : JobId} :
    Triple c (P .none) (cancelJob promoteNext fuel r j) fun _ => P .none :=
  Triple.bind (cancelJobInner_spec hpn K.toKeptInside fuel) fun _ =>
    Triple.ret fun _ hs => K.drop hs

end Complete

section Expand

variable {P : Pending → Db → Prop} {rr : RunId → Prop} {c : Contract Stmt Db}
variable {promoteNext : GroupKey → Option String → Cmd Unit}
variable (hpn : HandsOver rr c promoteNext) (K : Kept P rr c)
variable (b : Backend) (fuel : Nat)

/-! ## Expansion -/

include K in
theorem claimExpansion_spec {r : RunId} {j : JobId} :
    Triple c (P .none) (claimExpansion r j) fun _ => P .none := by
  refine Triple.select fun s0 _ => ?_
  cases hjob : s0.job r j with
  | none => exact Triple.abort
  | some job =>
      refine Triple.ite (fun _ => Triple.abort) fun hqueue => ?_
      rw [ne_eq, not_not] at hqueue
      refine Triple.ite (fun _ => Triple.abort) fun _ => ?_
      refine Triple.bind (Q := fun _ s => P .none s ∧ ∃ row, s.job r j = some row ∧
        row.queueState = .expanding ∧ row.expandGeneration = job.expandGeneration + 1) ?_
        fun _ => ?_
      · refine (K.exec (.job .leaseExpansion r j) (F := fun s => s = s0) (fun s _ _ => trivial)
          (fun s _ => rfl) ?_).pre fun s hs => ⟨hs.2, hs.1⟩
        rintro s s' rfl happly
        rcases job_apply happly hjob with h | ⟨h, _⟩
        · have hkey : job.key = (r, j) := Table.key_of_get hjob
          have hwrite : (Stmt.job .leaseExpansion r j).onJob s job =
              JobWrite.leaseExpansion.write job := by
            simp only [Stmt.onJob, hkey, JobWrite.guard, hqueue, decide_true, Bool.and_self,
              if_true]
          rw [hwrite] at h
          exact ⟨_, h, rfl, rfl⟩
        · exact absurd h Stmt.noConfusion
      exact (K.exec (.keepLease ⟨r, j, job.expandGeneration + 1⟩) (G := fun _ => True)
        (fun s _ hs => ⟨rfl, hs⟩) (fun s _ => rfl) fun _ _ _ _ => trivial).post fun _ s hs => hs.1

include hpn K in
theorem registerBuiltJob_spec {r : RunId} {ns : String} {platforms : List String} {jobOrder : Nat}
    {calls : List (JobId × ReusableMeta)} {built : BuiltJob} (hlease : ∃ j, Leased P r j) :
    Triple c (P .none) (registerBuiltJob b promoteNext r ns platforms jobOrder calls built)
      fun _ => P .none := by
  refine Triple.ite (fun _ => ?_) fun _ => ?_
  · refine Triple.bind (K.keep (.insertJob _) (fun s _ =>
      ⟨rfl, (built.toSubmit calls).kind_matrixParent, .inl ⟨rfl, rfl⟩⟩) fun s => rfl) fun _ => ?_
    refine Triple.bind ((settleNode_spec hpn K.toKeptInside rfl).post fun _ s hs => K.drop hs)
      fun _ => Triple.ret fun s hs => hs
  · refine Triple.bind (K.keep (.insertJob _) (fun s _ => ⟨rfl,
      (built.toSubmit calls).kind_matrixParent, .inr (.inr (.inr ⟨rfl, rfl, hlease⟩))⟩)
      fun s => rfl) fun _ => ?_
    exact (mintRequest_spec K (Ignores.any _)).conseq (fun s hs => ⟨hs, trivial⟩)
      fun _ s hs => hs.1

include hpn K in
theorem registerBuiltJobs_spec {r : RunId} {node : Job} {jobs : List BuiltJob}
    {calls : List (JobId × ReusableMeta)} (hlease : ∃ j, Leased P r j) :
    Triple c (P .none) (registerBuiltJobs b promoteNext r node jobs calls) fun _ => P .none := by
  refine Triple.select fun s0 _ => Triple.select fun s1 _ => ?_
  refine Triple.bind ((Triple.forM fun parent _ => ?_).pre fun s hs => hs.2.2) fun _ =>
    Triple.forM fun built _ => registerBuiltJob_spec hpn K b hlease
  exact K.keep (.insertMatrixParent _) (fun s _ => ⟨rfl, hlease, rfl, rfl, rfl, rfl, rfl⟩)
    fun s => rfl

include K in
theorem spliceMatrixParents_spec {r : RunId} {node : JobId} {legs : List JobId} :
    Triple c (P .none) (spliceMatrixParents r node legs) fun _ => P .none := by
  refine Triple.select fun s0 _ => ?_
  refine (Triple.forM fun entry _ => ?_).pre fun s hs => hs.2
  refine Triple.ite (fun _ => ?_) fun _ => Triple.ret fun s hs => hs
  exact K.keep (.job (.setReusableMeta _) r entry.1) (fun s _ => trivial) fun s => rfl

include K in
theorem writeReusableMeta_spec {r : RunId} {caller : JobId} {inner : List JobId}
    {calls : List (JobId × ReusableMeta)} :
    Triple c (P .none) (writeReusableMeta r caller inner calls) fun _ => P .none := by
  refine Triple.bind (Triple.forM fun entry _ => ?_) fun _ => ?_
  · exact K.keep (.job (.setReusableMeta _) r entry.1) (fun s _ => trivial) fun s => rfl
  refine Triple.select fun s0 _ => ?_
  cases (s0.job r caller).bind fun row => row.spec.reusableMeta with
  | none => exact Triple.ret fun s hs => hs.2
  | some info =>
      exact (K.keep (.job (.setReusableMeta _) r caller) (fun s _ => trivial) fun s => rfl).pre
        fun s hs => hs.2

include hpn K in
theorem foldExpansion_spec {r : RunId} {node : Job} {built : Option BuiltExpansion}
    (hlease : Leased P r node.jobId) :
    Triple c (P .none) (foldExpansion b promoteNext r node built) fun _ => P .none := by
  have hsettle : ∀ status : ExecutionStatus, status.isTerminal = true → Triple c (P .none) (do
      let _ ← settleNode promoteNext r node.jobId status
      pure PUnit.unit) fun _ => P .none := fun status hst =>
    Triple.bind ((settleNode_spec hpn K.toKeptInside hst).post fun _ _ hs => K.drop hs)
      fun _ => Triple.ret fun _ hs => hs
  match built with
  | none => exact hsettle .failure rfl
  | some (.matrix []) => exact hsettle .skipped rfl
  | some (.matrix (job :: jobs)) =>
      refine Triple.bind (registerBuiltJobs_spec hpn K b ⟨node.jobId, hlease⟩) fun _ => ?_
      refine Triple.bind (K.keep (.job .expandedMatrix r node.jobId) (fun s _ => ⟨rfl, hlease⟩)
        fun s => rfl) fun _ => ?_
      refine Triple.bind (spliceMatrixParents_spec K) fun _ => ?_
      exact K.keep (.purgeRequests r node.jobId) (fun s _ => trivial) fun s => rfl
  | some (.reusable jobs calls) =>
      refine Triple.bind (registerBuiltJobs_spec hpn K b ⟨node.jobId, hlease⟩) fun _ => ?_
      refine Triple.bind (K.keep (.job .startCaller r node.jobId) (fun s _ => ⟨rfl, hlease⟩)
        fun s => rfl) fun _ => ?_
      refine Triple.bind (writeReusableMeta_spec K) fun _ => ?_
      exact (settleRequestsForJob_spec K.toKeptInside (Ignores.any _)).conseq
        (fun s hs => ⟨hs, trivial⟩) fun _ s hs => hs.1

include hpn K in
theorem applyExpansion_spec {lease : Lease} {built : Option BuiltExpansion} :
    Triple c (P .none) (applyExpansion b promoteNext fuel lease built) fun _ => P .none := by
  refine Triple.select fun s0 hs0 => ?_
  refine Triple.ite (fun _ => Triple.abort) fun hleased => ?_
  rw [Bool.not_eq_true', Bool.not_eq_false, List.contains_iff_mem] at hleased
  refine Triple.bind ((K.keep (.endLease lease) (fun s _ => trivial) fun s => rfl).pre
    fun s hs => hs.2) fun _ => ?_
  refine Triple.select fun s1 _ => ?_
  cases hnode : s1.job lease.runId lease.jobId with
  | none => exact Triple.ret fun s hs => hs.2
  | some node =>
      have hkey : node.jobId = lease.jobId := congrArg Prod.snd (Table.key_of_get hnode)
      refine Triple.ite (fun _ => Triple.ret fun s hs => hs.2) fun _ => ?_
      refine Triple.ite (fun _ => Triple.abort) fun _ => ?_
      refine Triple.bind ((foldExpansion_spec hpn K b
        ⟨s0, lease, hs0, hleased, rfl, hkey.symm⟩).pre fun s hs => hs.2) fun _ => ?_
      refine Triple.bind (K.keep (.refreshRunRemainingNeeds lease.runId) (fun s _ => trivial)
        fun s => rfl) fun _ => ?_
      refine Triple.bind (promoteRun_spec hpn K.toKeptInside b fuel fuel) fun _ => ?_
      exact checkForeignKeys_spec

end Expand

section Parked

variable {P : Pending → Db → Prop} {rr : RunId → Prop} {c : Contract Stmt Db}
variable {promoteNext : GroupKey → Option String → Cmd Unit}
variable (hpn : HandsOver rr c promoteNext) (K : Kept P rr c)
variable (b : Backend) (fuel : Nat)

/-! ## Parked jobs and approvals -/

/-- The row a release works on, of a run that awaits no approval. -/
structure ParkedRow (P : Pending → Db → Prop) (s0 : Db) (run : Run) (j : Job) : Prop where
  kept : P .none s0
  runRow : s0.run j.runId = some run
  approved : run.forkApprovalPending = false
  row : s0.job j.runId j.jobId = some j
  held : j.queueState = .held

include K in
/-- The job goes back to the sweep, so it is held no more. -/
theorem unparkReleased_spec {s0 : Db} {run : Run} {j : Job} (hj : ParkedRow P s0 run j)
    {x : Pending} :
    Triple c (P x) (exec (.job (.unpark .releaseParked) j.runId j.jobId)) fun _ s =>
      P x s ∧ ∀ row, s.job j.runId j.jobId = some row → row.queueState ≠ .held := by
  refine (K.exec (.job (.unpark .releaseParked) j.runId j.jobId) (F := fun _ => True)
    (fun s _ _ => ?_) (fun s _ => rfl) fun s s' _ happly row hrow => ?_).pre
    fun s hs => ⟨hs, trivial⟩
  · exact ⟨s0, run, j, ⟨.none, hj.kept⟩, hj.runRow, hj.approved, hj.row, hj.held⟩
  · obtain ⟨old, _, rfl⟩ := job_after_write happly hrow
    split
    · exact QueueState.noConfusion
    · next hguard =>
        intro hheld
        exact hguard (decide_eq_true hheld)

include hpn K in
theorem releaseUnder_spec {s0 : Db} {run : Run} {j : Job} {name : String}
    (hj : ParkedRow P s0 run j) :
    Triple c (P .none) (releaseUnder b promoteNext run j name) fun _ => P .none := by
  let h : Holder := .job j.runId j.jobId
  have hexpose : ∀ gate, Triple c (P .none) (exec (.job (.setGate .parked gate) j.runId j.jobId))
      fun _ => P (Pending.none.addExposed h) := fun gate =>
    (K.keep (.job (.setGate .parked gate) j.runId j.jobId)
      (fun _ _ => .inr (List.mem_cons_self ..)) fun _ => rfl).pre
      fun _ hs => K.shift (.expose .none h) hs
  unfold releaseUnder
  split
  · next gate hgate =>
      refine Triple.bind (hexpose gate) fun _ => ?_
      exact (unparkReleased_spec K hj).post fun _ s hs =>
        K.shift (.excuse .none h (.inr (.inr fun row hrow => .inl (hs.2 row hrow)))) hs.1
  · next gate hgate =>
      exact K.keep (.job (.setGate .parked gate) j.runId j.jobId)
        (fun s _ => .inl (evaluateEnvironmentGate_wait hgate)) fun s => rfl
  · next gate hgate =>
      refine Triple.bind (hexpose gate) fun _ => ?_
      refine Triple.bind (settleNode_spec hpn K.toKeptInside rfl) fun _ => ?_
      exact Triple.ret fun s hs => K.drop (K.shift
        (.excuse (Pending.none.addGone h) h (.inl (List.mem_cons_self ..))) hs)

include hpn K in
theorem releaseParkedJob_spec {s0 : Db} {run : Run} {graph : RunGraph} {j : Job}
    (hj : ParkedRow P s0 run j) :
    Triple c (P .none) (releaseParkedJob b promoteNext run graph j) fun _ => P .none := by
  have hunpark : Triple c (P .none) (exec (.job (.unpark .releaseParked) j.runId j.jobId))
      fun _ => P .none := (unparkReleased_spec K hj).post fun _ _ hs => hs.1
  refine Triple.select fun s1 _ => ?_
  cases parkedEnvironment b.eval ((s1.job j.runId j.jobId).bind Job.message) j with
  | none => exact hunpark.pre fun s hs => hs.2
  | some name =>
      refine Triple.ite (fun _ => (releaseUnder_spec hpn K b hj).pre fun s hs => hs.2) fun _ => ?_
      cases dependencyDecision b.eval graph j with
      | wait => exact Triple.ret fun s hs => hs.2
      | run =>
          refine Triple.bind ((hydrateMessage_spec K.toKeptInside).pre fun s hs => hs.2)
            fun out => ?_
          exact (releaseUnder_spec hpn K b hj).pre fun s hs => hs.2
      | skip => exact hunpark.pre fun s hs => hs.2
      | error => exact hunpark.pre fun s hs => hs.2

include hpn K in
theorem releaseParkedJobs_spec {r : RunId} :
    Triple c (P .none) (releaseParkedJobs b promoteNext r) fun _ => P .none := by
  refine Triple.select fun s0 hs0 => ?_
  cases hrun : s0.run r with
  | none => exact Triple.ret fun s hs => hs.2
  | some run =>
      refine Triple.ite (fun _ => Triple.ret fun s hs => hs.2) fun hopen => ?_
      refine Triple.select fun s1 _ => Triple.select fun s2 hs2 => ?_
      obtain ⟨_, rfl, _⟩ := hs2
      refine (Triple.forM fun j hj => ?_).pre fun s hs => hs.2.2.2
      obtain ⟨hrow, hheld, _⟩ := mem_heldJobs.mp hj
      have hr : j.runId = r := congrArg Prod.fst (Table.key_of_get hrow)
      subst hr
      exact releaseParkedJob_spec hpn K b
        ⟨hs0, hrun, Bool.eq_false_iff.mpr hopen, hrow, hheld⟩

include hpn K in
theorem promoteReadyJobs_spec {r : Option RunId} :
    Triple c (P .none) (promoteReadyJobs b promoteNext fuel r) fun _ => P .none := by
  have hloop : ∀ runs : List RunId, Triple c (P .none) (runs.forM fun r => do
      releaseParkedJobs b promoteNext r
      let _ ← promoteRun b promoteNext fuel fuel r
      pure PUnit.unit) fun _ => P .none := fun runs => by
    refine Triple.forM fun r _ => Triple.bind (releaseParkedJobs_spec hpn K b) fun _ => ?_
    exact Triple.bind (promoteRun_spec hpn K.toKeptInside b fuel fuel) fun _ =>
      Triple.ret fun s hs => hs
  cases r with
  | none => exact Triple.select fun s0 _ => (hloop _).pre fun s hs => hs.2
  | some r => exact Triple.ret_bind (hloop [r])

theorem allSettled_expireRunJobs {r : RunId} {s s' : Db}
    (happly : (Stmt.expireRunJobs r).apply s = .ok s') : s'.allSettled r := by
  intro j row' hrow'
  rcases job_of_apply happly hrow' with ⟨row, hrow, rfl⟩ | ⟨hins, _⟩
  · have hr : row.runId = r := congrArg Prod.fst (Table.key_of_get hrow)
    simp only [Stmt.onJob]
    split
    · rfl
    · next hcond =>
        rw [Bool.and_eq_true, decide_eq_true_eq, Bool.not_eq_true'] at hcond
        exact eq_true_of_ne_false fun hopen => hcond ⟨hr, hopen⟩
  · rcases hins with h | h <;> cases h

/-- No statement but a deletion takes a run row away. -/
theorem runExists_apply {st : Stmt} {s s' : Db} {r : RunId} (hst : ∀ r, st ≠ .deleteRun r)
    (happly : st.apply s = .ok s') (h : s.runExists r = true) : s'.runExists r = true := by
  obtain ⟨row, hrow⟩ := Option.isSome_iff_exists.mp h
  rcases run_apply happly hrow with h | ⟨h, _⟩
  · rw [Db.runExists, h]
    rfl
  · exact absurd h (hst r)

theorem runExists_inner {st : Stmt} {s s' : Db} {r : RunId} (hin : st.inner = true)
    (happly : st.apply s = .ok s') (h : s.runExists r = true) : s'.runExists r = true := by
  refine runExists_apply ?_ happly h
  rintro r' rfl
  exact absurd hin Bool.false_ne_true

include hpn K in
theorem expireFork_spec (s0 : Db) {r : RunId} (hrun : s0.runExists r = true) :
    Triple c (fun s => P .none s ∧ ∀ r, s0.runExists r = true → s.runExists r = true)
      (expireFork promoteNext r)
      fun _ s => P .none s ∧ ∀ r, s0.runExists r = true → s.runExists r = true := by
  let N : Db → Prop := fun s => ∀ r, s0.runExists r = true → s.runExists r = true
  -- runs are not deleted inside a command, so what existed at its start exists at its end
  have K' : KeptInside (fun x s => P x s ∧ N s) rr c :=
    K.toKeptInside.frame fun hin happly hs r hr => runExists_inner hin happly (hs r hr)
  let y := Pending.none.addGone (.run r)
  have hnext : ∀ {st : Stmt} {s s' : Db}, (∀ r, st ≠ .deleteRun r) → st.apply s = .ok s' →
      N s → N s' := fun hst happly hs r hr => runExists_apply hst happly (hs r hr)
  refine Triple.select fun s1 _ => ?_
  refine Triple.bind (Q := fun _ s => (P y s ∧ N s) ∧ s.allSettled r) ?_ fun _ => ?_
  · refine ((K.exec (.expireRunJobs r) (F := N) (G := fun s => N s ∧ s.allSettled r)
      (fun s _ _ => trivial) (fun s _ => rfl) fun s s' hs happly => ?_).pre fun s hs => hs.2).post
      fun _ s hs => ⟨⟨hs.1, hs.2.1⟩, hs.2.2⟩
    exact ⟨hnext (fun _ => Stmt.noConfusion) happly hs, allSettled_expireRunJobs happly⟩
  refine Triple.bind (Triple.forM fun j _ => retireIfExpandable_spec K'
    (Ignores.allSettled rfl r)) fun _ => ?_
  -- the jobs are settled now; the run is closed, and its completion announced once
  refine Triple.select fun s2 _ => ?_
  let z := if s2.runCompleted r then y else y.addOwed r
  refine Triple.bind (Q := fun _ s => P z s ∧ N s ∧ s.allSettled r) ?_ fun _ => ?_
  · refine (K.exec (.run .expireFork r) (F := fun s => s = s2 ∧ N s ∧ s.allSettled r)
      (fun s _ hf => ⟨hf.2.1 r hrun, hf.2.2⟩) ?_ fun s s' hf happly => ?_).pre
      fun s hs => ⟨hs.2.1.1, hs.1, hs.2.1.2, hs.2.2⟩
    · rintro s ⟨rfl, _⟩
      rfl
    · have hjobs : s'.jobs = s.jobs := apply_same .jobs happly rfl
      refine ⟨hnext (fun _ => Stmt.noConfusion) happly hf.2.1, fun j row hrow => ?_⟩
      rw [Db.job, hjobs] at hrow
      exact hf.2.2 j row hrow
  cases hdone : s2.runCompleted r with
  | true =>
      refine (K.exec (.run .clearFork r) (x := y) (y := y) (F := fun s => N s ∧ s.allSettled r)
        (G := N) (fun s _ hf => hf.2) (fun s _ => rfl) fun s s' hf happly =>
        hnext (fun _ => Stmt.noConfusion) happly hf.1).conseq (fun s hs => ?_)
        fun _ s hs => ⟨K.drop hs.1, hs.2⟩
      simpa only [z, hdone, if_true] using hs
  | false =>
      have hz : z = y.addOwed r := by simp only [z, hdone, Bool.false_eq_true, if_false]
      rw [hz]
      have hgone : .run r ∈ (y.addOwed r).gone := List.mem_cons_self ..
      refine Triple.bind (Q := fun _ s => P (y.addOwed r) s ∧ N s) ((K'.keep (.deleteRunJobsets r)
        rfl (fun s _ => .inl hgone) fun s => rfl).pre fun s hs => ⟨hs.1, hs.2.1⟩) fun _ => ?_
      refine Triple.bind (releaseConcurrencyForRun_spec hpn K' (by decide) (.inr hgone))
        fun _ => ?_
      exact (emitCompleted_spec K').post fun _ s hs => ⟨K.drop hs.1, hs.2⟩

include hpn K in
theorem expireForkApprovals_spec {cutoff : Int} :
    Triple c (P .none) (expireForkApprovals promoteNext cutoff) fun _ => P .none := by
  refine Triple.select fun s0 _ => ?_
  refine (Triple.forM fun r hr => expireFork_spec hpn K s0 ?_).conseq (fun s hs => ?_)
    fun _ s hs => hs.1
  · obtain ⟨run, hrun, rfl⟩ := List.mem_map.mp hr
    have hget := (Table.mem_selectBy.mp hrun).1
    rw [Db.runExists, Db.run, hget]
    rfl
  · obtain ⟨rfl, hs⟩ := hs
    exact ⟨hs, fun _ h => h⟩

include K in
theorem recordEnvironmentApproval_spec {r : RunId} {j : JobId} {decision : EnvironmentDecision} :
    Triple c (P .none) (recordEnvironmentApproval b r j decision) fun _ => P .none := by
  refine Triple.select fun s0 _ => ?_
  cases s0.job r j with
  | none => exact Triple.abort
  | some job =>
      refine Triple.ite (fun _ => Triple.ret fun s hs => hs.2) fun _ => ?_
      cases job.environmentGate.bind fun gate => gate.record decision b.now with
      | none => exact Triple.ret fun s hs => hs.2
      | some recorded =>
          exact (K.keep (.job (.setGate .review (some recorded)) r j) (fun s _ => .inl rfl)
            fun s => rfl).pre fun s hs => hs.2

end Parked

section Rerun

variable {P : Pending → Db → Prop} {rr : RunId → Prop} {c : Contract Stmt Db}
variable {promoteNext : GroupKey → Option String → Cmd Unit}
variable (hpn : HandsOver rr c promoteNext) (K : Kept P rr c)
variable (b : Backend) (fuel : Nat)

/-! ## Reruns -/

/-- What each class of a reset job rests on. -/
def RerunClass.Sound (held : Bool) : RerunClass → Prop
  | .restartCaller => True
  | .concluded status => status.isTerminal = true
  | .reset status queueState gate =>
    status.isTerminal = false ∧ status ≠ .inProgress ∧
      (queueState = .held ∧ status = .pending ∧ (gate.isSome = true ∨ held = true) ∨
        queueState = .blocked ∨ queueState = .none)

theorem rerunClass_sound (st : RerunState) (j : Job) : (rerunClass b st j).Sound st.held := by
  unfold rerunClass
  split
  · trivial
  dsimp only
  split
  · rfl
  · rfl
  split
  · rfl
  split
  · rfl
  split
  · next h =>
      rw [Bool.or_eq_true, or_comm] at h
      exact ⟨rfl, by decide, .inl ⟨rfl, rfl, h⟩⟩
  split
  · refine ⟨?_, ?_, .inr (.inl rfl)⟩
    · split <;> rfl
    · split <;> exact ExecutionStatus.noConfusion
  · exact ⟨rfl, by decide, .inr (.inr rfl)⟩

include K in
theorem rerunMessage_spec {rerun : RerunRun} {attempt : Nat} {j : Job} (hrr : rr j.runId) :
    Triple c (P .none) (rerunMessage b rerun attempt j) fun _ => P .none := by
  unfold rerunMessage
  cases rerun.templates.find? fun t => t.jobId = j.jobId with
  | some template =>
      refine Triple.bind (K.keep (.job (.setTemplate _ _) j.runId j.jobId) (fun s _ => hrr)
        fun s => rfl) fun _ => Triple.ret fun s hs => hs
  | none =>
      refine Triple.select fun s0 _ => Triple.select fun s1 _ => ?_
      cases (s0.job j.runId j.jobId).bind Job.message with
      | none => exact Triple.ret fun s hs => hs.2.2
      | some message =>
          refine Triple.bind ((K.keep (.job (.setMessage _) j.runId j.jobId) (fun s _ => trivial)
            fun s => rfl).pre fun s hs => hs.2.2) fun _ => ?_
          refine Triple.bind (K.keep (.job (.setConditionContext _) j.runId j.jobId)
            (fun s _ => hrr) fun s => rfl) fun _ => Triple.ret fun s hs => hs

include K in
theorem mintAttempt_spec {r : RunId} {j : JobId} :
    Triple c (P .none) (mintAttempt r j) fun _ => P .none := by
  refine Triple.select fun s0 _ => ?_
  cases (s0.job r j).bind Job.message with
  | none => exact Triple.abort
  | some message =>
      exact (K.keep (.insertAttempt r j message.agentJobId) (fun s _ => trivial)
        fun s => rfl).pre fun s hs => hs.2

include hpn K in
theorem rerunReady_spec {st : RerunState} {j : Job} (hrr : rr j.runId) :
    Triple c (P .none) (rerunReady b promoteNext fuel st j)
      fun after s => after.held = st.held ∧ P .none s := by
  refine Triple.bind (acquireJobGate_spec hpn K.toKeptInside b fuel (.inl hrr)) fun out => ?_
  cases out with
  | proceed =>
      refine Triple.bind (Q := fun _ => P .none) ?_ fun _ => Triple.ret fun s hs => ⟨rfl, hs⟩
      refine Triple.bind (K.keep (.job (.enqueueReady .rerun) j.runId j.jobId)
        (fun s _ => ⟨rfl, hrr⟩) fun s => rfl) fun _ => ?_
      exact emitJob_spec K.toKeptInside (by decide)
  | parked =>
      refine Triple.bind (Q := fun _ => P .none) ?_ fun _ => Triple.ret fun s hs => ⟨rfl, hs⟩
      exact (K.exec (.job (.park .rerun) j.runId j.jobId) (G := fun _ => True)
        (fun s _ hawaits => ⟨rfl, hrr, hawaits⟩) (fun s _ => rfl)
        fun _ _ _ _ => trivial).post fun _ s hs => hs.1
  | failed status =>
      refine Triple.of_pure fun hterm => ?_
      refine Triple.bind (K.keep (.job (.gateFailed status) j.runId j.jobId)
        (fun s _ => ⟨rfl, hterm, .inl hrr⟩) fun s => rfl) fun _ => ?_
      exact Triple.ret fun s hs => ⟨rfl, hs⟩

include hpn K in
theorem rerunOne_spec {rerun : RerunRun} {st : RerunState} {j : Job} (hrr : rr j.runId)
    (hheld : st.held = true → ∃ s0, P .none s0 ∧ s0.awaits (.run j.runId)) :
    Triple c (P .none) (rerunOne b promoteNext fuel rerun st j)
      fun after s => after.held = st.held ∧ P .none s := by
  have hclass := rerunClass_sound b st j
  unfold rerunOne
  cases hc : rerunClass b st j with
  -- a caller starts over, a concluded job stays as it is, every other is reset
  | restartCaller =>
      refine Triple.bind (K.keep (.job .restartCaller j.runId j.jobId) (fun s _ => ⟨rfl, hrr⟩)
        fun s => rfl) fun _ => Triple.ret fun s hs => ⟨rfl, hs⟩
  | concluded status =>
      rw [hc] at hclass
      refine Triple.bind (K.keep (.job (.resetConcluded status) j.runId j.jobId)
        (fun s _ => ⟨rfl, hrr, hclass⟩) fun s => rfl) fun _ => Triple.ret fun s hs => ⟨rfl, hs⟩
  | reset status queueState gate =>
      rw [hc] at hclass
      obtain ⟨hopen, hidle, hqueue⟩ := hclass
      refine Triple.bind (K.keep (.job (.reset status queueState j.needs.length gate) j.runId
        j.jobId) (fun s _ => ⟨rfl, hrr, hopen, hidle, ?_⟩) fun s => rfl) fun _ => ?_
      · refine hqueue.imp (fun h => ⟨h.1, h.2.1, ?_⟩) id
        exact h.2.2.imp id hheld
      -- a job whose message cannot be rebuilt ends at once
      refine Triple.bind (rerunMessage_spec K b hrr) fun runnable => ?_
      refine Triple.ite (fun _ => ?_) fun _ => ?_
      · refine Triple.bind (K.keep (.job (.resetConcluded .failure) j.runId j.jobId)
          (fun s _ => ⟨rfl, hrr, rfl⟩) fun s => rfl) fun _ => Triple.ret fun s hs => ⟨rfl, hs⟩
      have hmint : ∀ after : RerunState, after.held = st.held → Triple c (P .none) (do
          if !j.placeholder then mintAttempt j.runId j.jobId
          pure after) fun after s => after.held = st.held ∧ P .none s := by
        intro after hafter
        refine Triple.ite (fun _ => ?_) fun _ => Triple.ret fun s hs => ⟨hafter, hs⟩
        exact Triple.bind (mintAttempt_spec K) fun _ => Triple.ret fun s hs => ⟨hafter, hs⟩
      refine Triple.ite (fun _ => ?_) fun _ => Triple.ret_bind (hmint st rfl)
      exact Triple.bind (rerunReady_spec hpn K b fuel hrr) fun after =>
        Triple.of_pure fun hafter => hmint after hafter

/-- Between the reset of the run row and its workflow gate: the run is open
    again over the job rows of a database in which it was completed. -/
def Reopened (P : Pending → Db → Prop) (r : RunId) (s : Db) : Prop :=
  s.runExists r = true ∧ s.runCompleted r = false ∧
    ∀ j row, s.job r j = some row → (row.status.isTerminal = true ∧ row.queueState = .none) ∨
      ∃ s0 row0, P .none s0 ∧ s0.runCompleted r = true ∧ s0.job r j = some row0 ∧
        row.status = row0.status ∧ row.queueState = row0.queueState ∧ row.frozen = row0.frozen

theorem Ignores.reopened (tables : List TableName) (hruns : tables.contains .runs = false)
    (hjobs : tables.contains .jobs = false) (r : RunId) : Ignores tables (Reopened P r) := by
  intro st s s' hsub happly hs
  have hr : s'.runs = s.runs := Ignores.same .runs hruns hsub happly
  have hj : s'.jobs = s.jobs := Ignores.same .jobs hjobs hsub happly
  simpa only [Reopened, Db.runExists, Db.runCompleted, Db.run, Db.job, hr, hj] using hs

theorem reopened_rerun {r : RunId} {github : Json} {s s' : Db} (hs : P .none s)
    (hdone : s.runCompleted r = true) (happly : (Stmt.run (.rerun github) r).apply s = .ok s') :
    Reopened P r s' := by
  obtain ⟨run, hrun, _⟩ := (Option.any_eq_true _ _).mp hdone
  have hjobs : s'.jobs = s.jobs := apply_same .jobs happly rfl
  have hrun' : s'.run r = some ((Stmt.run (.rerun github) r).onRun s run) := by
    rcases run_apply happly hrun with h | ⟨h, _⟩
    · exact h
    · exact absurd h Stmt.noConfusion
  have hkey : run.runId = r := Table.key_of_get hrun
  refine ⟨?_, ?_, fun j row hrow => .inr ⟨s, row, hs, hdone, ?_, rfl, rfl, rfl⟩⟩
  · rw [Db.runExists, hrun']
    rfl
  · rw [Db.runCompleted, hrun', Option.any_some, Stmt.onRun, hkey]
    simp only [decide_true, Bool.true_and, RunWrite.guard, if_true, RunWrite.write, reduceCtorEq,
      decide_false]
  · rw [Db.job, hjobs] at hrow
    exact hrow

theorem reopened_resetConcluded {r : RunId} {j : JobId} {status : ExecutionStatus} {s s' : Db}
    (hterm : status.isTerminal = true) (hs : Reopened P r s)
    (happly : (Stmt.job (.resetConcluded status) r j).apply s = .ok s') : Reopened P r s' := by
  have hruns : s'.runs = s.runs := apply_same .runs happly rfl
  refine ⟨?_, ?_, fun j' row hrow => ?_⟩
  · rw [Db.runExists, Db.run, hruns]
    exact hs.1
  · rw [Db.runCompleted, Db.run, hruns]
    exact hs.2.1
  · by_cases hj : (r, j') = (r, j)
    · rw [Prod.mk.injEq] at hj
      obtain ⟨_, rfl⟩ := hj
      obtain ⟨old, _, rfl⟩ := job_after_write happly hrow
      exact .inl ⟨hterm, rfl⟩
    · rw [job_other_write happly hj] at hrow
      exact hs.2.2 j' row hrow

include K in
theorem rerunCancelled_spec {r : RunId} {selected : List Job} (hrr : rr r) :
    Triple c (fun s => P .none s ∧ Reopened P r s) (rerunCancelled r selected)
      fun _ => P .none := by
  refine Triple.bind (Triple.forM fun j _ => ?_) fun _ => ?_
  · exact K.exec (.job (.resetConcluded .cancelled) r j.jobId) (fun s _ _ => ⟨rfl, hrr, rfl⟩)
      (fun s _ => rfl) fun s s' hs happly => reopened_resetConcluded rfl hs happly
  refine Triple.bind (Q := fun _ s => P (Pending.none.addOwed r) s ∧ True)
    (K.exec (.run .arrivalCancelled r) (fun s _ hs => ⟨rfl, hs.1, hs.2.1, hs.2.2⟩)
      (fun s _ => rfl) fun _ _ _ _ => trivial) fun _ => ?_
  refine Triple.bind ((emitRun_spec K.toKeptInside (by decide)).pre fun s hs => hs.1) fun _ => ?_
  exact emitCompleted_spec K.toKeptInside

include hpn K in
theorem rerunAdmit_spec {rerun : RerunRun} {run : Run} {rows selected : List Job} {held : Bool}
    (hrr : rr run.runId) (hsel : ∀ j ∈ selected, j.runId = run.runId)
    (hheld : held = true → ∃ s0, P .none s0 ∧ s0.awaits (.run run.runId)) :
    Triple c (P .none) (rerunAdmit b promoteNext fuel rerun run rows selected held)
      fun _ => P .none := by
  let r := run.runId
  refine Triple.select fun s0 _ => Triple.select fun s1 _ => ?_
  -- job by job; none of them changes whether the run is held
  refine Triple.bind (Q := fun after s => after.held = held ∧ P .none s) ?_ fun after => ?_
  · refine (Triple.foldlM fun st j hj => Triple.of_pure fun hst => ?_).pre
      fun s hs => ⟨rfl, hs.2.2⟩
    refine (rerunOne_spec hpn K b fuel (by rw [hsel j hj]; exact hrr) fun h => ?_).post
      fun after s hs => ⟨hs.1.trans hst, hs.2⟩
    rw [hsel j hj]
    exact hheld (hst ▸ h)
  -- then what is ready is promoted, and the run may be over already
  refine Triple.bind ((K.keep (.refreshRunRemainingNeeds r) (fun s _ => trivial)
    fun s => rfl).pre fun s hs => hs.2) fun _ => ?_
  refine Triple.bind (promoteRun_spec hpn K.toKeptInside b fuel fuel) fun _ => ?_
  refine Triple.bind (K.summarizeRunRow .rerun (fun s => trivial) fun s => rfl) fun summary => ?_
  cases hterm : summary.isTerminal with
  | false =>
      exact (emitRun_spec K.toKeptInside (by decide)).pre fun s hs => K.unsettle hs
  | true =>
      rw [Pending.settle, if_pos hterm]
      refine Triple.bind (releaseConcurrencyForRun_spec hpn K.toKeptInside (by decide)
        (.inr (List.mem_cons_self ..))) fun _ => ?_
      refine Triple.bind (K.keep (.run .clearGroup r) (fun s _ => trivial) fun s => rfl)
        fun _ => ?_
      exact (emitRun_spec K.toKeptInside (by decide)).post fun _ s hs => K.drop hs

include hpn K in
theorem rerunRun_spec {rerun : RerunRun} (hrr : rr rerun.runId) :
    Triple c (P .none) (rerunRun b promoteNext fuel rerun) fun _ => P .none := by
  let r := rerun.runId
  refine Triple.select fun s0 hs0 => ?_
  cases hrun : s0.run rerun.runId with
  | none => exact Triple.abort
  | some run =>
      have hr : run.runId = r := Table.key_of_get hrun
      refine Triple.ite (fun _ => Triple.abort) fun hopen => ?_
      rw [Bool.or_eq_true, not_or, decide_eq_true_eq, ne_eq, not_not] at hopen
      have hdone : s0.runCompleted r = true := by
        rw [Db.runCompleted, hrun, Option.any_some]
        exact decide_eq_true hopen.1
      refine Triple.select fun s1 _ => Triple.ite (fun _ => Triple.abort) fun _ => ?_
      cases rerunSet rerun.mode (s1.jobs.selectBy (fun j => j.runId = r) Job.jobOrder) with
      | error e => exact Triple.abort
      | ok set =>
          have hsel : ∀ j ∈ (s1.jobs.selectBy (fun j => j.runId = r) Job.jobOrder).filter
              (fun j => set.contains j.jobId), j.runId = run.runId := by
            intro j hj
            have hmem := Table.mem_selectBy.mp (List.mem_of_mem_filter hj)
            rw [hr]
            exact of_decide_eq_true hmem.2
          have hrr' : rr run.runId := by rw [hr]; exact hrr
          refine Triple.bind (Q := fun _ s => P .none s ∧ Reopened P r s) ?_ fun _ => ?_
          · refine (K.exec (.run (.rerun _) r) (F := fun s => s = s0) ?_ (fun s _ => rfl)
              ?_).pre fun s hs => ⟨hs.2.2, hs.2.1⟩
            · rintro s _ rfl
              exact ⟨rfl, hrr, hdone⟩
            · rintro s s' rfl happly
              exact reopened_rerun hs0 hdone happly
          refine Triple.bind (K.carry (.deleteRunWaits .rerun r) (fun s _ => ⟨rfl, hrr⟩)
            (fun s => rfl) (Ignores.reopened [.waits] rfl rfl r) rfl) fun _ => ?_
          refine Triple.bind (K.carry (.deleteRunJobsets r) (fun s _ => .inr ⟨rfl, hrr⟩)
            (fun s => rfl) (Ignores.reopened [.jobsets, .gates] rfl rfl r) rfl) fun _ => ?_
          refine Triple.bind (Triple.forM fun j _ => K.carry (.settleJobRequests r j.jobId _)
            (fun s _ => trivial) (fun s => rfl) (Ignores.reopened [.requests] rfl rfl r) rfl)
            fun _ => ?_
          cases rerun.workflowConcurrency with
          | none =>
              exact (rerunAdmit_spec hpn K b fuel hrr' hsel
                fun h => absurd h Bool.false_ne_true).pre fun s hs => hs.1
          | some wf =>
              refine Triple.bind (acquire_spec K.toKeptInside (h := .run r) (F := Reopened P r)
                (fun h => cancelHolder_spec hpn K.toKeptInside fuel h) trivial) fun out => ?_
              have hgroup : Triple c (P .none) (exec (.run (.setGroup wf.group) r))
                  fun _ => P .none :=
                K.keep (.run (.setGroup wf.group) r) (fun s _ => hrr) fun s => rfl
              cases out with
              | arrivalCancelled => exact rerunCancelled_spec K hrr
              | acquired =>
                  refine Triple.bind (hgroup.pre fun s hs => hs.1) fun _ => ?_
                  exact rerunAdmit_spec hpn K b fuel hrr' hsel
                    fun h => absurd h Bool.false_ne_true
              | parked =>
                  -- The run waits now; the rows are parked behind that wait row.
                  refine Triple.start fun s3 hs3 => ?_
                  refine Triple.bind (hgroup.pre fun s hs => hs.2.1) fun _ => ?_
                  exact rerunAdmit_spec hpn K b fuel hrr' hsel fun _ => ⟨s3, hs3.1, hr ▸ hs3.2⟩

end Rerun

section Nodes

variable {P : Pending → Db → Prop} {rr : RunId → Prop} {c : Contract Stmt Db}
variable {promoteNext : GroupKey → Option String → Cmd Unit}
variable (hpn : HandsOver rr c promoteNext) (K : Kept P rr c) (b : Backend)

/-! ## Runners, the reaper and boot -/

/-- The job is claimed. -/
def Claimed (r : RunId) (j : JobId) (s : Db) : Prop :=
  ∃ row, s.job r j = some row ∧ row.queueState = .claimed

theorem claimed_setMessage {r : RunId} {j : JobId} {message : Message} {s s' : Db}
    (hs : Claimed r j s) (happly : (Stmt.job (.setMessage message) r j).apply s = .ok s') :
    Claimed r j s' := by
  obtain ⟨row, hrow, hclaimed⟩ := hs
  rcases job_apply happly hrow with h | ⟨h, _⟩
  · refine ⟨_, h, ?_⟩
    simp only [Stmt.onJob]
    split
    · exact hclaimed
    · exact hclaimed
  · exact absurd h Stmt.noConfusion

include K in
theorem retryAttempt_spec {r : RunId} {j : JobId} :
    Triple c (fun s => P .none s ∧ Claimed r j s) (retryAttempt b r j)
      fun _ s => P .none s ∧ Claimed r j s := by
  have hF : Ignores [.requests] (Claimed r j) :=
    Ignores.job rfl r j fun row => ∃ j, row = some j ∧ j.queueState = .claimed
  refine Triple.select fun s0 _ => ?_
  cases s0.liveRequest r j with
  | none => exact Triple.ret fun s hs => hs.2
  | some q =>
      refine Triple.select fun s1 _ => ?_
      cases (s1.job r j).bind Job.message with
      | none => exact Triple.abort
      | some message =>
          refine Triple.select fun s2 _ => ?_
          refine Triple.bind ((K.carry (.request .retire q.requestId) (fun s _ => trivial)
            (fun s => rfl) hF rfl).pre fun s hs => hs.2.2.2) fun _ => ?_
          refine Triple.bind (K.carry (.insertAttempt r j _) (fun s _ => trivial) (fun s => rfl)
            hF rfl) fun _ => ?_
          exact K.exec (.job (.setMessage _) r j) (fun s _ _ => trivial) (fun s _ => rfl)
            fun s s' hs happly => claimed_setMessage hs happly

include K in
theorem requeueClaimed_spec {r : RunId} {j : JobId} :
    Triple c (P .none) (requeueClaimed b r j) fun _ => P .none := by
  refine Triple.select fun s0 _ => ?_
  refine Triple.ite (fun _ => Triple.ret fun s hs => hs.2) fun hclaimed => ?_
  rw [Bool.not_eq_true', Bool.not_eq_false] at hclaimed
  obtain ⟨row, hrow, hqueue⟩ := (Option.any_eq_true _ _).mp hclaimed
  refine Triple.bind ((retryAttempt_spec K b).pre fun s hs => ⟨hs.2, ?_⟩) fun _ => ?_
  · obtain ⟨rfl, _⟩ := hs
    exact ⟨row, hrow, of_decide_eq_true hqueue⟩
  refine Triple.bind (Q := fun _ s => P .none s ∧ True) ?_ fun _ => Triple.ret fun s hs => hs.1
  exact K.exec (.job .requeue r j) (fun s _ hs => ⟨rfl, hs⟩) (fun s _ => rfl)
    fun _ _ _ _ => trivial

include K in
theorem purgeRunner_spec {runner : Nat} :
    Triple c (P .none) (purgeRunner b runner) fun _ => P .none := by
  refine Triple.select fun s0 _ => ?_
  refine Triple.bind ((K.keep (.releaseRunnerRequests runner) (fun s _ => trivial)
    fun s => rfl).pre fun s hs => hs.2) fun _ => ?_
  refine Triple.bind (K.keep (.deleteRunnerSessions runner) (fun s _ => trivial) fun s => rfl)
    fun _ => ?_
  refine Triple.bind (K.keep (.deleteRunner runner) (fun s _ => trivial) fun s => rfl) fun _ => ?_
  refine Triple.forM fun claim _ => ?_
  exact Triple.bind (requeueClaimed_spec K b) fun _ => Triple.ret fun s hs => hs

include K in
theorem openSession_spec {session : String} {runner : Nat} :
    Triple c (P .none) (openSession session runner) fun _ => P .none := by
  refine Triple.select fun s0 _ => ?_
  refine Triple.ite (fun _ => Triple.abort) fun _ => ?_
  exact (K.keep (.putSession _) (fun s _ => trivial) fun s => rfl).pre fun s hs => hs.2

include K in
theorem starveJob_spec {r : RunId} {j : JobId} :
    Triple c (P .none) (starveJob r j) fun _ => P .none := by
  refine Triple.bind (K.keep (.job .starve r j) (fun s _ => trivial) fun s => rfl) fun _ => ?_
  refine Triple.bind (K.summarizeRunRow .starve (fun s => trivial) fun s => rfl) fun summary => ?_
  exact Triple.ret fun s hs => K.unsettle hs

include K in
theorem reapSweep_spec {sweep : ReapSweep} :
    Triple c (P .none) (reapSweep sweep) fun _ => P .none := by
  refine Triple.bind (Triple.forM fun entry _ => starveJob_spec K) fun _ => ?_
  refine Triple.bind (Triple.forM fun entry _ => ?_) fun _ => ?_
  · obtain ⟨id, r, j⟩ := entry
    refine Triple.bind (K.keep (.request .timeout id) (fun s _ => trivial) fun s => rfl)
      fun _ => ?_
    refine Triple.select fun s0 _ => ?_
    cases s0.liveRequest r j with
    | none => exact Triple.ret fun s hs => hs.2
    | some q =>
        exact (K.keep (.queueCancellation q.requestId _) (fun s _ => trivial) fun s => rfl).pre
          fun s hs => hs.2
  · exact Triple.forM fun id _ => K.keep (.request .expireLease id) (fun s _ => trivial)
      fun s => rfl

include K in
theorem deleteExpiredRun_spec {r : RunId} :
    Triple c (P .none) (deleteExpiredRun r) fun _ => P .none := by
  refine Triple.select fun s0 _ => ?_
  refine Triple.ite (fun _ => Triple.abort) fun hlive => ?_
  refine ((K.exec (.deleteRun r) (F := fun s => s = s0) (G := fun _ => True) ?_ (fun s _ => rfl)
    fun _ _ _ _ => trivial).pre fun s hs => ⟨hs.2, hs.1⟩).post fun _ s hs => hs.1
  rintro s _ rfl
  exact ⟨rfl, Bool.eq_false_iff.mpr hlive⟩

include hpn K in
theorem reconcileHold_spec {key : GroupKey} :
    Triple c (P .none) (reconcileHold promoteNext key) fun _ => P .none := by
  refine Triple.select fun s0 _ => Triple.select fun s1 _ => ?_
  refine Triple.ite (fun _ => ?_) fun hwaiting => ?_
  · exact (hpn P K.toKeptInside .none key _).pre fun s hs => K.shift (.free .none key) hs.2.2
  · refine ((K.exec (.dropHold key) (F := fun s => s = s0) (G := fun _ => True) ?_ (fun s _ => rfl)
      fun _ _ _ _ => trivial).pre fun s hs => ⟨hs.2.2, hs.2.1⟩).post fun _ s hs => hs.1
    rintro s _ rfl
    rw [Option.not_isSome_iff_eq_none] at hwaiting
    exact ⟨rfl, hwaiting⟩

include hpn K in
theorem reconcileOnBoot_spec :
    Triple c (P .none) (reconcileOnBoot b promoteNext) fun _ => P .none := by
  refine Triple.select fun s0 _ => ?_
  refine Triple.bind ((Triple.forM fun key _ => reconcileHold_spec hpn K).pre fun s hs => hs.2)
    fun _ => ?_
  refine Triple.bind (K.keep .deleteDeadWaits (fun s _ => trivial) fun s => rfl) fun _ => ?_
  refine Triple.select fun s1 _ => ?_
  refine Triple.bind ((Triple.mapM fun claim _ => requeueClaimed_spec K b).pre fun s hs => hs.2)
    fun _ => ?_
  refine Triple.bind (K.keep .resumeExpansions (fun s _ => rfl) fun s => rfl) fun _ => ?_
  exact Triple.ret fun s hs => hs

end Nodes

/-- Every call follows the discipline. -/
theorem Call.exec_spec {P : Pending → Db → Prop} {rr : RunId → Prop} {c : Contract Stmt Db}
    (K : Kept P rr c) (call : Call)
    (hrr : ∀ rerun, call.command = .rerunRun rerun → rr rerun.runId) :
    Triple c (P .none) call.exec fun _ => P .none := by
  -- the hand-over of a group, with the fuel of the call for the holders it cancels
  have hpn : HandsOver rr c (promoteNextInGroup call.backend call.fuel) :=
    promoteNextInGroup_handsOver call.backend call.fuel
  unfold Call.exec
  dsimp only
  cases hcommand : call.command with
  | submitHead sub => exact submitHead_spec hpn K _ _
  | submitChunk r => exact submitChunk_spec hpn K _ _
  | submitFinalize r => exact submitFinalize_spec hpn K _ _
  | poisonPartialSubmit r => exact poisonPartialSubmit_spec hpn K
  | poll session r j => exact pollClaim_spec K
  | completeJob completion => exact completeJob_spec hpn K _ _
  | settleJob completion settle => exact settleJob_spec hpn K _ _
  | cancelRun r => exact cancelRun_spec hpn K
  | cancelJob r j => exact cancelJob_spec hpn K _
  | claimExpansion r j => exact claimExpansion_spec K
  | applyExpansion lease built => exact applyExpansion_spec hpn K _ _
  | promoteReadyJobs r => exact promoteReadyJobs_spec hpn K _ _
  | setForkApproval r pending requestedAt approvedAt =>
      exact K.keep (.run (.setFork pending requestedAt approvedAt) r) (fun s _ => trivial)
        fun s => rfl
  | expireForkApprovals cutoff => exact expireForkApprovals_spec hpn K
  | setEnvironmentGate r j gate =>
      exact K.keep (.job (.setGate .stamp gate) r j) (fun s _ => trivial) fun s => rfl
  | recordEnvironmentApproval r j decision => exact recordEnvironmentApproval_spec K _
  | rerunRun rerun => exact rerunRun_spec hpn K _ _ (hrr rerun hcommand)
  | putRunner row => exact K.keep (.putRunner row) (fun s _ => trivial) fun s => rfl
  | purgeRunner runner => exact purgeRunner_spec K _
  | openSession session runner => exact openSession_spec K
  | closeSession session => exact K.keep (.deleteSession session) (fun s _ => trivial) fun s => rfl
  | releaseRequest id =>
      exact K.keep (.request .releaseClaim id) (fun s _ => trivial) fun s => rfl
  | reapSweep sweep => exact reapSweep_spec K
  | deleteExpiredRun r => exact deleteExpiredRun_spec K
  | boot =>
      refine Triple.bind (K.keep .forgetMemory (fun s _ => rfl) fun s => rfl) fun _ => ?_
      exact Triple.bind (reconcileOnBoot_spec hpn K _) fun _ => Triple.ret fun s hs => hs

end Preloop
