import PreloopControl.Discipline.Promote
import PreloopControl.Submit

/-!
# The Discipline of Submission

The phases of a submission follow the write discipline: every statement they
issue stands at a `Site`, and between the phases nothing is open.

The head inserts a run nobody has seen, so the run has no job yet when its
workflow gate turns it away. Chunks only know what the head decided, which is
why their sites name the submission and not the run row.

## Theorems

* `classify_sound`: What the classification of a submitted job rests on.
* `submitHead_spec`, `submitChunk_spec`, `submitFinalize_spec`,
  `poisonPartialSubmit_spec`: The phases.
-/

namespace Preloop

open Txn

section Rows

theorem SubmitJob.kind_matrixParent (j : SubmitJob) :
    j.kind = .matrixParent ↔ j.spec.deferredMatrix.isSome = true := by
  unfold SubmitJob.kind
  split
  · next h => exact iff_of_true rfl h
  · next h =>
      refine iff_of_false ?_ h
      split
      · exact JobKind.noConfusion
      · split <;> exact JobKind.noConfusion

/-- What each class of a submitted job rests on. -/
def SubmitClass.Sound (sub : Submit) (j : SubmitJob) : SubmitClass → Prop
  | .concluded status => status.isTerminal = true
  | .held => sub.held = true ∨ sub.forkApprovalPending = true ∨ j.environmentGate.isSome = true
  | .blocked status =>
    sub.held = false ∧ sub.forkApprovalPending = false ∧ status.isTerminal = false ∧
      status ≠ .inProgress
  | .ready => sub.held = false ∧ sub.forkApprovalPending = false

theorem classify_sound (ev : Evaluators) (sub : Submit) (j : SubmitJob) :
    (classify ev sub j).Sound sub j := by
  unfold classify
  split
  · rfl
  split
  · rfl
  split
  · rfl
  split
  · next h => simpa only [SubmitClass.Sound, Bool.or_eq_true, or_assoc] using h
  next h =>
    rw [Bool.not_eq_true, Bool.or_eq_false_iff, Bool.or_eq_false_iff] at h
    split
    · refine ⟨h.1.1, h.1.2, ?_⟩
      split
      · exact ⟨rfl, by decide⟩
      · exact ⟨rfl, by decide⟩
    · exact h.1

end Rows

section Phases

variable {P : Pending → Db → Prop} {rr : RunId → Prop} {c : Contract Stmt Db}
variable {promoteNext : GroupKey → Option String → Cmd Unit}
variable (hpn : HandsOver rr c promoteNext) (K : Kept P rr c)
variable (b : Backend) (fuel : Nat) {x : Pending} {F : Db → Prop}

include K in
theorem mintRequest_spec {r : RunId} {j : JobId} {agent : Option String}
    (hF : Ignores [.requests] F) :
    Triple c (fun s => P x s ∧ F s) (mintRequest r j agent) fun _ s => P x s ∧ F s := by
  cases agent with
  | none => exact Triple.ret fun s hs => hs
  | some agent =>
      exact K.carry (.insertAttempt r j agent) (fun s _ => trivial) (fun s => rfl) hF rfl

theorem checkForeignKeys_spec {r : RunId} :
    Triple c (P x) (checkForeignKeys r) fun _ => P x := by
  refine Triple.select fun s0 _ => ?_
  exact Triple.ite (fun _ => Triple.abort) fun _ => Triple.ret fun s hs => hs.2

include K in
theorem emit_spec {e : OutboxEvent} (htopic : e.topic ≠ .runCompleted) :
    Triple c (P x) (exec (.emit e)) fun _ => P x := by
  refine K.keep (.emit e) (fun s _ => trivial) fun s => ?_
  simp only [Moves, if_neg htopic]

include K in
theorem emitOwed_spec {e : OutboxEvent} (htopic : e.topic = .runCompleted) :
    Triple c (P (x.addOwed e.runId)) (exec (.emit e)) fun _ => P x := by
  refine K.move (.emit e) (fun s _ => trivial) fun s => ?_
  simp only [Moves, if_pos htopic]

include K in
/-- The summaries taken outside a hand-over. -/
theorem Kept.summarizeRunRow (site : SummarizeSite) {r : RunId} {y : ExecutionStatus → Pending}
    (hsite : ∀ s, Site P rr c x s (.summarize site r))
    (hmove : ∀ s, Moves s x (y (s.summary r)) (.summarize site r)) :
    Triple c (P x) (summarizeRunRow site r) fun summary => P (y summary) := by
  refine Triple.select fun s0 _ => ?_
  refine Triple.bind (Q := fun _ => P (y (s0.summary r))) ?_ fun _ => Triple.ret fun s hs => hs
  refine ((K.exec (.summarize site r) (F := fun s => s = s0) (G := fun _ => True)
    (fun s _ _ => hsite s) ?_ fun _ _ _ _ => trivial).pre fun s hs => ⟨hs.2, hs.1⟩).post
    fun _ s hs => hs.1
  rintro s rfl
  exact hmove s

/-- A run that was inserted and has no unsettled job. -/
def Unstarted (r : RunId) (s : Db) : Prop :=
  s.runExists r = true ∧ s.runCompleted r = false ∧
    ∀ j row, s.job r j = some row → row.status.isTerminal = true ∧ row.queueState = .none

theorem Ignores.unstarted (r : RunId) : Ignores [.requests] (Unstarted r) := by
  intro st s s' hsub happly hs
  have hr : s'.runs = s.runs := Ignores.same .runs rfl hsub happly
  have hj : s'.jobs = s.jobs := Ignores.same .jobs rfl hsub happly
  simpa only [Unstarted, Db.runExists, Db.runCompleted, Db.run, Db.job, hr, hj] using hs

/-- The run a head inserts has no job: its id was not handed out before. -/
theorem unstarted_insertRun {s s' : Db} {row : Run} (hs : s.Counters)
    (hid : row.runId = s.nextRun) (hstatus : row.status = .queued)
    (happly : (Stmt.insertRun row).apply s = .ok s') : Unstarted row.runId s' := by
  obtain ⟨t, hins, rfl⟩ := inserted_eq_ok happly
  obtain ⟨_, hget⟩ := Table.insert?_eq_some hins
  have hrun : t.get row.runId = some row := by rw [hget, if_pos rfl]
  refine ⟨?_, ?_, ?_⟩
  · simp only [Db.runExists, Db.run, hrun, Option.isSome_some]
  · simp only [Db.runCompleted, Db.run, hrun, Option.any_some, hstatus, reduceCtorEq,
      decide_false]
  · intro j job hjob
    have hexists : (s.run row.runId).isSome = true := hs.jobs row.runId j job hjob
    obtain ⟨old, hold⟩ := Option.isSome_iff_exists.mp hexists
    exact absurd (hs.runs row.runId old hold) (by rw [hid]; exact Nat.lt_irrefl _)

theorem unstarted_insertJob {r : RunId} {s s' : Db} {row : Job}
    (hterm : row.status.isTerminal = true)
    (hqueue : row.queueState = .none) (hs : Unstarted r s)
    (happly : (Stmt.insertJob row).apply s = .ok s') : Unstarted r s' := by
  have hruns : s'.runs = s.runs := apply_same .runs happly rfl
  refine ⟨?_, ?_, fun j job hjob => ?_⟩
  · rw [Db.runExists, Db.run, hruns]
    exact hs.1
  · rw [Db.runCompleted, Db.run, hruns]
    exact hs.2.1
  · rcases job_of_apply happly hjob with ⟨_, hrow, rfl⟩ | ⟨hins, _⟩
    · exact hs.2.2 j _ hrow
    · rcases hins with heq | heq
      · rw [Stmt.insertJob.injEq] at heq
        exact heq ▸ ⟨hterm, hqueue⟩
      · cases heq

include K in
theorem insertCancelledRun_spec {sub : SubmitRun} {r : RunId} :
    Triple c (fun s => P .none s ∧ Unstarted r s) (insertCancelledRun sub r)
      fun _ => P .none := by
  refine Triple.bind (Triple.forM fun entry _ => ?_) fun _ => ?_
  · let row := entry.1.rowWithMessage r sub.namespaceId none entry.2 .cancelled .none
    refine Triple.bind (Q := fun _ s => P .none s ∧ Unstarted r s) ?_ fun _ =>
      mintRequest_spec K (Ignores.unstarted r)
    refine K.exec (.insertJob row) (fun s _ _ => ⟨rfl, entry.1.kind_matrixParent, .inl ⟨rfl, rfl⟩⟩)
      (fun s _ => rfl) fun s s' hs happly => unstarted_insertJob rfl rfl hs happly
  refine Triple.bind (K.carry (.settleRunRequests r) (fun s _ => trivial) (fun s => rfl)
    (Ignores.unstarted r) rfl) fun _ => ?_
  refine Triple.bind (Q := fun _ s => P (Pending.none.addOwed r) s ∧ True)
    (K.exec (.run .arrivalCancelled r) (fun s _ hs => ?_) (fun s _ => rfl)
      fun _ _ _ _ => trivial) fun _ => ?_
  · exact ⟨rfl, hs.1, hs.2.1, fun j row hrow => .inl (hs.2.2 j row hrow)⟩
  refine Triple.bind ((emit_spec K (x := Pending.none.addOwed r) Topic.noConfusion).pre
    fun s hs => hs.1) fun _ => ?_
  exact Triple.bind (emitOwed_spec K (e := ⟨_, r, .runCompleted, none, _⟩) rfl) fun _ =>
    checkForeignKeys_spec

include hpn K in
theorem submitHead_spec {sub : SubmitRun} :
    Triple c (P .none) (submitHead b promoteNext fuel sub) fun _ => P .none := by
  refine Triple.select fun s0 _ => ?_
  -- a delivery that is known and a run that is refused leave nothing behind
  refine Triple.ite (fun _ => Triple.ret fun s hs => hs.2) fun _ => ?_
  refine Triple.ite (fun _ => Triple.abort) fun _ => ?_
  refine Triple.select fun s1 hs1 => ?_
  let r := s1.nextRun
  refine Triple.bind (Q := fun _ s => (∃ s0, P .none s0 ∧ c.rely (.insertRun (sub.row r)) s0) ∧
    P .none s ∧ Unstarted r s) ?_ fun _ => Triple.of_pure fun hinsert => ?_
  · have hexec := K.exec (.insertRun (sub.row r)) (x := .none) (y := .none) (F := fun s => s = s1)
      (G := Unstarted r) (by rintro s _ rfl; exact ⟨rfl, rfl, rfl, rfl⟩) (fun s _ => rfl)
      (by rintro s s' rfl happly; exact unstarted_insertRun (K.counters hs1.2) rfl rfl happly)
    refine (Triple.issued hexec).conseq (fun s hs => ⟨hs.2.2, hs.1⟩) fun _ s hs => ⟨?_, hs.2⟩
    obtain ⟨s2, hs2, hrely⟩ := hs.1
    exact ⟨s2, hs2.1, hrely⟩
  -- the rest of the submission is kept for the chunks
  refine Triple.select fun s2 _ => Triple.select fun s3 _ => Triple.select fun s4 _ => ?_
  have hproceed : ∀ held : Bool, Triple c (P .none) (exec (.keepSubmit
      ⟨r, sub.namespaceId, sub.forkApprovalPending, sub.checkHostable, held, s2.platforms,
        if sub.checkHostable then b.poolLabels else [],
        if (if sub.checkHostable then b.poolLabels else []).isEmpty then []
        else s3.runners.rows.map Runner.labels,
        sub.jobOutputs, [], [], 0, 0, sub.jobs⟩)) fun _ => P .none := by
    intro held
    obtain ⟨s5, hs5, hrely⟩ := hinsert
    exact K.keep (.keepSubmit _) (fun s _ => ⟨rfl, .inl ⟨s5, sub.row r, hs5, hrely, rfl, rfl⟩⟩)
      fun s => rfl
  -- without a group, or with one for each job, the run goes on at once
  cases sub.workflowConcurrency with
  | none => exact (hproceed false).pre fun s hs => hs.2.2.2.1
  | some wf =>
      refine Triple.ite (fun _ => ?_) fun _ => ?_
      · exact (hproceed false).pre fun s hs => hs.2.2.2.1
      refine Triple.bind ((acquire_spec K.toKeptInside (h := .run r) (F := Unstarted r)
        (fun h => cancelHolder_spec hpn K.toKeptInside fuel h) trivial).pre
        fun s hs => hs.2.2.2) fun out => ?_
      cases out with
      | acquired => exact (hproceed false).pre fun s hs => hs.1
      | parked => exact (hproceed true).pre fun s hs => hs.1
      | arrivalCancelled => exact insertCancelledRun_spec K

/-- The submission kept what its head decided. -/
def SameSubmit (sub0 sub : Submit) : Prop :=
  sub.runId = sub0.runId ∧ sub.held = sub0.held ∧
    sub.forkApprovalPending = sub0.forkApprovalPending

include hpn K in
theorem submitOne_spec {s0 : Db} {sub0 sub : Submit} {j : SubmitJob} (hs0 : P .none s0)
    (hsub0 : s0.submits.get sub0.runId = some sub0) (hsame : SameSubmit sub0 sub) :
    Triple c (P .none) (submitOne b promoteNext fuel sub j)
      fun after s => SameSubmit sub0 after ∧ P .none s := by
  obtain ⟨hr, hheld, hfork⟩ := hsame
  have hsub : ∀ {q : Submit → Prop}, q sub0 → Submitted P sub.runId q :=
    fun hq => ⟨s0, sub0, hs0, by rw [hr]; exact hsub0, hq⟩
  have hmint : ∀ {after : Submit}, SameSubmit sub0 after → Triple c (P .none) (do
      mintRequest sub.runId j.jobId j.agentJobId
      pure after) fun after s => SameSubmit sub0 after ∧ P .none s := by
    intro after hafter
    refine Triple.bind ((mintRequest_spec K (Ignores.any _)).pre fun s hs => ⟨hs, trivial⟩)
      fun _ => Triple.ret fun s hs => ⟨hafter, hs.1⟩
  have hclass := classify_sound b.eval sub j
  unfold submitOne
  dsimp only
  cases hc : classify b.eval sub j with
  -- the job is over at once: its row has a terminal status and no queue state
  | concluded status =>
      rw [hc] at hclass
      refine Triple.bind (K.keep (.insertJob _)
        (fun s _ => ⟨rfl, j.kind_matrixParent, .inl ⟨hclass, rfl⟩⟩) fun s => rfl) fun _ => ?_
      exact Triple.ret fun s hs => ⟨⟨hr, hheld, hfork⟩, hs⟩
  -- the run waits for its concurrency group, and so does the job
  | held =>
      rw [hc, SubmitClass.Sound, hheld, hfork] at hclass
      refine Triple.bind (K.keep (.insertJob _)
        (fun s _ => ⟨rfl, j.kind_matrixParent, .inr (.inl ⟨rfl, rfl, rfl, hsub hclass⟩)⟩)
        fun s => rfl) fun _ => ?_
      exact hmint ⟨hr, hheld, hfork⟩
  -- the job has open needs or is stopped for another reason
  | blocked status =>
      rw [hc, SubmitClass.Sound, hheld, hfork] at hclass
      obtain ⟨hnotHeld, hnotFork, hopen, hidle⟩ := hclass
      refine Triple.bind (K.keep (.insertJob _) (fun s _ => ⟨rfl, j.kind_matrixParent,
        .inr (.inr (.inl ⟨hopen, hidle, .inl rfl, rfl, hsub ⟨hnotHeld, hnotFork⟩⟩))⟩)
        fun s => rfl) fun _ => ?_
      exact hmint ⟨hr, hheld, hfork⟩
  -- the job may run, and enters the queue as far as its own group lets it
  | ready =>
      rw [hc, SubmitClass.Sound, hheld, hfork] at hclass
      have hfree := hsub (q := fun sub => sub.held = false ∧ sub.forkApprovalPending = false) hclass
      refine Triple.bind (Q := fun _ s => Inserted P sub.runId j.jobId ∧ P .none s) ?_ fun _ =>
        Triple.of_pure fun hnew => ?_
      · refine Triple.start fun s1 hs1 => ?_
        refine (K.exec (.insertJob _) (F := fun s => s = s1)
          (G := fun _ => Inserted P sub.runId j.jobId) (fun s _ _ => ⟨rfl, j.kind_matrixParent,
            .inr (.inr (.inl ⟨rfl, ExecutionStatus.noConfusion, .inr rfl, rfl, hfree⟩))⟩)
          (fun s _ => rfl) ?_).conseq (fun s hs => ⟨hs.2, hs.1⟩) fun _ s hs => ⟨hs.2, hs.1⟩
        rintro s s' rfl happly
        obtain ⟨hrun, hfresh⟩ := insertJob_ok happly
        exact ⟨s, hs1, hfresh, hrun⟩
      -- the head of the submission names the job, so its gate may be asked
      have hknown : Known P rr (.job sub.runId j.jobId) :=
        .inr ⟨s0, ⟨.none, hs0⟩, .inr (.inr (.inr ⟨sub0, by rw [hr]; exact hsub0, hclass.2⟩))⟩
      refine Triple.bind (acquireJobGate_spec hpn K.toKeptInside b fuel hknown) fun out => ?_
      cases out with
      | proceed =>
          refine Triple.bind (Q := fun _ => P .none) ?_ fun _ =>
            Triple.ret_bind (hmint ⟨hr, hheld, hfork⟩)
          refine Triple.bind (K.keep (.job (.enqueueReady .submit) sub.runId j.jobId)
            (fun s _ => ⟨rfl, hfree⟩) fun s => rfl) fun _ => ?_
          exact emitJob_spec K.toKeptInside (by decide)
      | parked =>
          refine Triple.bind (Q := fun _ => P .none) ?_ fun _ =>
            Triple.ret_bind (hmint ⟨hr, hheld, hfork⟩)
          exact (K.exec (.job (.park .submit) sub.runId j.jobId) (G := fun _ => True)
            (fun s _ hawaits => ⟨rfl, hfree, hawaits, hnew⟩) (fun s _ => rfl)
            fun _ _ _ _ => trivial).post fun _ s hs => hs.1
      | failed status =>
          refine Triple.of_pure fun hterm => ?_
          refine Triple.bind (K.keep (.job (.gateFailed status) sub.runId j.jobId)
            (fun s _ => ⟨rfl, hterm, .inr hfree⟩) fun s => rfl) fun _ => ?_
          exact Triple.ret_bind (hmint ⟨hr, hheld, hfork⟩)

include hpn K in
theorem submitChunk_spec {r : RunId} :
    Triple c (P .none) (submitChunk b promoteNext fuel r) fun _ => P .none := by
  refine Triple.select fun s0 hs0 => ?_
  cases hsub : s0.submits.get r with
  | none => exact Triple.abort
  | some sub =>
      have hrun : sub.runId = r := Table.key_of_get hsub
      have hsub0 : s0.submits.get sub.runId = some sub := by rw [hrun]; exact hsub
      refine Triple.ite (fun _ => Triple.abort) fun _ => ?_
      refine Triple.bind (Q := fun after s => SameSubmit sub after ∧ P .none s) ?_ fun after => ?_
      · refine (Triple.foldlM fun acc j _ => Triple.of_pure fun hacc =>
          submitOne_spec hpn K b fuel hs0 hsub0 hacc).pre fun s hs => ?_
        exact ⟨⟨rfl, rfl, rfl⟩, hs.2⟩
      refine Triple.of_pure fun hafter => ?_
      refine Triple.bind checkForeignKeys_spec fun _ => ?_
      refine K.keep (.keepSubmit _) (fun s _ => ⟨rfl, .inr ⟨s0, sub, hs0, ?_, hafter.2⟩⟩)
        fun s => rfl
      change s0.submits.get after.runId = some sub
      rw [hafter.1]
      exact hsub0

include hpn K in
theorem acceptRun_spec {sub : Submit} {sweepSettled : Bool} :
    Triple c (P .none) (acceptRun promoteNext sub sweepSettled) fun _ => P .none := by
  let r := sub.runId
  -- A sweep that settled a job announced the completion itself.
  let y : ExecutionStatus → Pending := fun summary =>
    if sweepSettled then Pending.none.settle r summary else Pending.none.conclude r summary
  have hmove : ∀ s : Db,
      Moves s .none (y (s.summary r)) (.summarize (.finalize sweepSettled) r) := by
    intro s
    cases sweepSettled <;> rfl
  refine Triple.bind (K.summarizeRunRow (.finalize sweepSettled) (fun s => trivial) hmove)
    fun summary => ?_
  have hkeep : ∀ (w : RunWrite) (z : Pending), (∀ s, RunSite P rr z s r w) →
      (∀ s, Moves s z z (.run w r)) → Triple c (P z) (exec (.run w r)) fun _ => P z :=
    fun w z hsite hmove => K.keep (.run w r) (fun s _ => hsite s) hmove
  cases hterm : summary.isTerminal with
  | false =>
      have hy : ∀ s, P (y summary) s → P .none s := by
        intro s hs
        cases sweepSettled with
        | true => exact K.unsettle hs
        | false =>
            refine K.shift (.unowed .none r) ?_
            simpa only [y, Pending.settle, Pending.conclude, hterm, Bool.false_eq_true,
              if_false] using hs
      refine Triple.bind ((hkeep .accept .none (fun s => trivial) fun s => rfl).pre hy) fun _ => ?_
      exact Triple.bind (emit_spec K Topic.noConfusion) fun _ => Triple.ret fun s hs => hs
  | true =>
      have hgone : .run r ∈ (y summary).gone := by
        cases sweepSettled <;>
          simp only [y, Pending.settle, Pending.conclude, hterm, if_true, if_false,
            Bool.false_eq_true, Pending.addGone, List.mem_cons_self]
      refine Triple.bind (releaseConcurrencyForRun_spec hpn K.toKeptInside (by decide)
        (.inr hgone)) fun _ => ?_
      refine Triple.bind (hkeep .clearGroup _ (fun s => trivial) fun s => rfl) fun _ => ?_
      refine Triple.bind (hkeep .accept _ (fun s => trivial) fun s => rfl) fun _ => ?_
      refine Triple.bind (emit_spec K Topic.noConfusion) fun _ => ?_
      cases sweepSettled with
      | true => exact Triple.ret fun s hs => K.unsettle hs
      | false =>
          have hy : y summary = (Pending.none.addGone (.run r)).addOwed r := by
            simp only [y, Pending.conclude, Pending.settle, hterm, if_true, Bool.false_eq_true,
              if_false, Pending.addOwed, Pending.addGone]
          rw [hy]
          exact (emitOwed_spec K (e := ⟨_, r, .runCompleted, none, _⟩) rfl).post
            fun _ s hs => K.drop hs

include hpn K in
theorem submitFinalize_spec {r : RunId} :
    Triple c (P .none) (submitFinalize b promoteNext fuel r) fun _ => P .none := by
  refine Triple.select fun s0 _ => ?_
  cases hsub : s0.submits.get r with
  | none => exact Triple.abort
  | some sub =>
      refine Triple.ite (fun _ => Triple.abort) fun _ => ?_
      refine Triple.bind ((K.keep (.refreshRunRemainingNeeds r) (fun s _ => trivial)
        fun s => rfl).pre fun s hs => hs.2) fun _ => ?_
      refine Triple.bind (Triple.forM fun entry _ => ?_) fun _ => ?_
      · obtain ⟨j, outputs⟩ := entry
        refine Triple.ite (fun _ => Triple.ret fun s hs => hs) fun _ => ?_
        exact K.keep (.job (.setOutputs outputs) r j) (fun s _ => trivial) fun s => rfl
      refine Triple.bind (promoteRun_spec hpn K.toKeptInside b fuel fuel) fun outcome => ?_
      refine Triple.select fun s1 _ => ?_
      refine Triple.bind ((acceptRun_spec hpn K).pre fun s hs => hs.2) fun _ => ?_
      exact K.keep (.endSubmit r) (fun s _ => trivial) fun s => rfl

include hpn K in
theorem poisonPartialSubmit_spec {r : RunId} :
    Triple c (P .none) (poisonPartialSubmit promoteNext r) fun _ => P .none := by
  refine Triple.select fun s0 hs0 => ?_
  cases hsub : s0.submits.get r with
  | none => exact Triple.abort
  | some sub =>
      refine Triple.bind ((releaseConcurrencyForRun_spec hpn K.toKeptInside (by decide)
        (.inl rfl)).pre fun s hs => hs.2) fun _ => ?_
      refine Triple.bind (K.keep (.run .clearGroup r) (fun s _ => trivial) fun s => rfl)
        fun _ => ?_
      refine Triple.bind (K.move (.run .poison r) (y := Pending.none.addOwed r)
        (fun s _ => ⟨s0, sub, hs0, hsub, trivial⟩) fun s => rfl) fun _ => ?_
      refine Triple.bind (emitOwed_spec K (e := ⟨_, r, .runCompleted, none, _⟩) rfl)
        fun _ => ?_
      exact K.keep (.endSubmit r) (fun s _ => trivial) fun s => rfl

end Phases

end Preloop
