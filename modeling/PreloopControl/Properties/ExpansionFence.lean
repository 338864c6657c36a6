import PreloopControl.Properties.Finality

/-!
# The Expansion Fence

A subtree is built outside any transaction, and what fences it is the lease: the
build is folded in only if the node's generation is still the lease's. The queue
state and the status of the node are not looked at again, so whoever takes a
leased node out of expansion must raise its generation.

Cancelling a run or a job does. Fail-fast and the expiry of a fork approval end
the node and leave the generation alone, so a late build still finds its lease.

## Main definitions

* `endsLeases`: A statement that takes a leased node out of expansion raises its
  generation.
* `defersBlocked`: A node is deferred to expansion from `blocked` only.
* `Db.Stays`: A row is there, with a property, until its run is deleted.
* `Db.Fenced`: A lease under the node's generation means the node is expanding.
* `Db.Spent`: The node is beyond expansion for this attempt of the run.

## Theorems

* `expansion_fenced`: A build changes a node only while the node is expanding
  under the claimed generation and not settled, and once in an attempt.
* `late_build_applied`: A build is folded into a node that fail-fast cancelled.
-/

namespace Preloop

open Txn

/-- The node waits for a builder or is with one. -/
def Job.deferred (j : Job) : Bool :=
  j.queueState = .pendingExpansion || j.queueState = .expanding

/-- The lease is the one the node is expanding under. -/
def Lease.holds (l : Lease) (row : Job) : Bool :=
  row.queueState = .expanding && row.expandGeneration = l.generation

/-- A statement that takes a node with an outstanding lease out of expansion
    raises its generation. -/
def endsLeases (st : Stmt) (s : Db) : Bool :=
  s.leases.all fun l => (s.job l.runId l.jobId).all fun row =>
    !l.holds row || (st.onJob s row).expandGeneration ≠ row.expandGeneration ||
      (st.onJob s row).queueState = .expanding

/-- Only a blocked node is deferred to expansion. -/
def defersBlocked : Stmt → Db → Bool
  | .job (.deferExpansion _) r j, s => (s.job r j).all fun row => row.queueState = .blocked
  | _, _ => true

/-- The fence holds over the statement. -/
def keepsLeases (st : Stmt) (s : Db) : Bool := endsLeases st s && defersBlocked st s

/-- The row is there, with this property, unless its run is deleted. -/
structure Db.Stays (r : RunId) (j : JobId) (q : Job → Prop) (s : Db) : Prop where
  known : r < s.nextRun
  row : s.runExists r = false ∨ ∃ row, s.job r j = some row ∧ q row

/-- A lease is never ahead of its node, and level with it only while the node is
    expanding; a node in the hands of the expansion is not settled. -/
structure Db.Fenced (s : Db) : Prop where
  leases : ∀ {l}, l ∈ s.leases → s.Stays l.runId l.jobId fun row =>
    l.generation ≤ row.expandGeneration ∧
      (l.generation = row.expandGeneration → row.queueState = .expanding)
  unsettled : ∀ {r j row}, s.job r j = some row → row.deferred = true →
    row.status.isTerminal = false

/-- The node is off the queue, or offered to a runner. -/
def Job.beyond (j : Job) : Prop :=
  j.queueState = .none ∨ j.queueState = .ready ∨ j.queueState = .claimed

/-- The node is beyond expansion. -/
abbrev Db.Spent (r : RunId) (j : JobId) (s : Db) : Prop := s.Stays r j Job.beyond

section Fence

variable {P : Pending → Db → Prop} {rr : RunId → Prop} {c : Contract Stmt Db} {x : Pending}
variable {s s' : Db} {st : Stmt} {r : RunId} {j : JobId}

/-- A property of a row that the statement keeps stays. -/
theorem stays_apply {q : Job → Prop} (hsite : Site P rr c x s st) (hs : s.Stays r j q)
    (hq : ∀ row, s.job r j = some row → q row → q (st.onJob s row))
    (happly : st.apply s = .ok s') : s'.Stays r j q where
  known := Nat.lt_of_lt_of_le hs.known (nextRun_grows hsite happly)
  row := by
    rcases hs.row with hgone | ⟨row, hrow, h⟩
    · exact .inl (missing_stays hsite hs.known happly hgone)
    · rcases job_apply happly hrow with hrow' | ⟨rfl, _⟩
      · exact .inr ⟨_, hrow', hq row hrow h⟩
      · exact .inl (runExists_deleteRun happly)

theorem generation_onJob (st : Stmt) (s : Db) (row : Job) :
    row.expandGeneration ≤ (st.onJob s row).expandGeneration := by
  cases st with
  | job w r0 j0 =>
      simp only [Stmt.onJob]
      split
      · cases w with
        | bumpGeneration | leaseExpansion => exact Nat.le_succ _
        | _ => exact Nat.le_refl _
      · exact Nat.le_refl _
  | cancelRunJobs =>
      simp only [Stmt.onJob]
      split
      · exact Nat.le_succ _
      · exact Nat.le_refl _
  | expireRunJobs | refreshRemainingNeeds | refreshRunRemainingNeeds | resumeExpansions =>
      simp only [Stmt.onJob]
      split <;> exact Nat.le_refl _
  | _ => exact Nat.le_refl _

/-- A statement leaves a node with the expansion only if it was there before, or
    was blocked. -/
theorem deferred_onJob (hsite : Site P rr c x s st) (hrely : defersBlocked st s = true)
    {row : Job} (hrow : s.job r j = some row) (h : (st.onJob s row).deferred = true) :
    (row.deferred = true ∨ row.queueState = .blocked) ∧
      (st.onJob s row).status = row.status := by
  have hkey : row.key = (r, j) := Table.key_of_get hrow
  cases st with
  | job w r0 j0 =>
      simp only [Stmt.onJob] at h ⊢
      split at h
      · next hcond =>
          rw [if_pos hcond]
          rw [Bool.and_eq_true, decide_eq_true_eq, hkey, Prod.mk.injEq] at hcond
          obtain ⟨⟨rfl, rfl⟩, hguard⟩ := hcond
          -- the node is deferred from `blocked`, or it was already
          cases w with
          | deferExpansion site =>
              rw [defersBlocked, hrow, Option.all_some, decide_eq_true_eq] at hrely
              exact ⟨.inr hrely, rfl⟩
          | leaseExpansion =>
              have hpending : row.queueState = .pendingExpansion := of_decide_eq_true hguard
              exact ⟨.inl (by rw [Job.deferred, hpending]; rfl), rfl⟩
          | reset status queueState needs gate =>
              rcases hsite.2.2.2.2 with ⟨rfl, _⟩ | rfl | rfl <;> exact absurd h Bool.false_ne_true
          | bumpGeneration | setGate | setOutputs | setRunsOn | setMessage | setTemplate
          | setConditionContext | setReusableMeta => exact ⟨.inl h, rfl⟩
          | _ => exact absurd h Bool.false_ne_true
      · next hcond =>
          rw [if_neg hcond]
          exact ⟨.inl h, rfl⟩
  | cancelRunJobs | expireRunJobs =>
      simp only [Stmt.onJob] at h ⊢
      split at h
      · exact absurd h Bool.false_ne_true
      · next hcond =>
          rw [if_neg hcond]
          exact ⟨.inl h, rfl⟩
  | refreshRemainingNeeds | refreshRunRemainingNeeds =>
      simp only [Stmt.onJob] at h ⊢
      -- counters and gates are no part of the expansion
      split at h
      · next hcond =>
          rw [if_pos hcond]
          exact ⟨.inl h, rfl⟩
      · next hcond =>
          rw [if_neg hcond]
          exact ⟨.inl h, rfl⟩
  | resumeExpansions =>
      simp only [Stmt.onJob] at h ⊢
      split at h
      · next hcond =>
          rw [if_pos hcond]
          exact ⟨.inl (by rw [Job.deferred, hcond]; rfl), rfl⟩
      · next hcond =>
          rw [if_neg hcond]
          exact ⟨.inl h, rfl⟩
  | _ => exact ⟨.inl h, rfl⟩

theorem unsettled_apply (hsite : Site P rr c x s st) (ht : s.Tidy) (hs : s.Fenced)
    (hrely : defersBlocked st s = true) (happly : st.apply s = .ok s') {row' : Job}
    (hrow' : s'.job r j = some row') (h : row'.deferred = true) :
    row'.status.isTerminal = false := by
  rcases job_of_apply happly hrow' with ⟨row, hrow, rfl⟩ | ⟨hins, _⟩
  · obtain ⟨hold, hstatus⟩ := deferred_onJob hsite hrely hrow h
    rw [hstatus]
    rcases hold with hold | hold
    · exact hs.unsettled hrow hold
    · exact ht.waiting hrow (by rw [Job.waiting, hold]; rfl)
  · have hidle : row'.queueState = .none ∨ row'.queueState = .held ∨ row'.queueState =
      .blocked := by
      rcases hins with rfl | rfl
      · rcases hsite.2.2 with ⟨_, hq⟩ | ⟨_, hq, _⟩ | ⟨_, _, hq | hq, _⟩ | ⟨_, hq, _⟩
        · exact .inl hq
        · exact .inr (.inl hq)
        · exact .inr (.inr hq)
        · exact .inl hq
        · exact .inr (.inr hq)
      · exact .inl hsite.2.2.2.2.1
    rcases hidle with hq | hq | hq <;>
      exact absurd h (by rw [Job.deferred, hq]; exact Bool.false_ne_true)

theorem fenced_apply (hsite : Site P rr c x s st) (ht : s.Tidy) (hs : s.Fenced)
    (hrely : keepsLeases st s = true) (happly : st.apply s = .ok s') : s'.Fenced where
  leases := by
    intro l hl
    rcases lease_of_apply happly hl with hold | rfl
    · refine stays_apply hsite (hs.leases hold) (fun row hrow h => ?_) happly
      have hle := generation_onJob st s row
      refine ⟨Nat.le_trans h.1 hle, fun heq => ?_⟩
      have hlevel : l.generation = row.expandGeneration :=
        Nat.le_antisymm h.1 (heq ▸ hle)
      have hexp := h.2 hlevel
      have hkeep := List.all_eq_true.mp (Bool.and_eq_true_iff.mp hrely).1 l hold
      rw [hrow, Option.all_some] at hkeep
      have hholds : l.holds row = true := by
        simp only [Lease.holds, hexp, hlevel, decide_true, Bool.and_self]
      have hsame : (st.onJob s row).expandGeneration = row.expandGeneration := heq ▸ hlevel
      simpa only [hholds, hsame, Bool.not_true, ne_eq, not_true_eq_false, decide_false,
        Bool.false_or, decide_eq_true_eq] using hkeep
    · have hnext := nextRun_grows hsite happly
      have hjobs : s'.jobs = s.jobs := apply_same .jobs happly rfl
      obtain ⟨_, row, hrow, hexp, hgen⟩ := hsite
      obtain ⟨run, hrun⟩ := Option.isSome_iff_exists.mp (ht.counters.jobs _ _ row hrow)
      refine ⟨Nat.lt_of_lt_of_le (ht.counters.runs _ run hrun) hnext, .inr ⟨row, ?_, ?_⟩⟩
      · rw [Db.job, hjobs]
        exact hrow
      · exact ⟨Nat.le_of_eq hgen.symm, fun _ => hexp⟩
  unsettled := unsettled_apply hsite ht hs (Bool.and_eq_true_iff.mp hrely).2 happly

end Fence

/-! ## Invariants -/

/-- The statements keep the fence. -/
abbrev fenceContract : Contract Stmt Db := .assume fun st s => keepsLeases st s = true

theorem fenced_kept (rr : RunId → Prop) :
    Kept (fun _ s => s.Tidy ∧ s.Fenced) rr fenceContract :=
  Kept.of_plain fun hsite ht hs hrely happly =>
    ⟨fenced_apply hsite ht hs hrely happly, trivial⟩

/-- A job row that is there stays. -/
theorem stays_kept (rr : RunId → Prop) (r : RunId) (j : JobId) :
    Kept (fun _ s => s.Tidy ∧ s.Fenced ∧ s.Stays r j fun _ => True) rr fenceContract :=
  Kept.of_plain fun hsite ht hs hrely happly =>
    ⟨⟨fenced_apply hsite ht hs.1 hrely happly,
      stays_apply hsite hs.2 (fun _ _ _ => trivial) happly⟩, trivial⟩

section Spent

variable {c : Contract Stmt Db} {x : Pending} {s s' : Db} {st : Stmt} {r : RunId} {j : JobId}

/-- The invariant of the discipline for one node. -/
abbrev Spending (r : RunId) (j : JobId) (_ : Pending) (s : Db) : Prop :=
  s.Tidy ∧ s.Fenced ∧ s.Spent r j

theorem beyond_not {row : Job} (h : row.beyond) {q : QueueState}
    (hq : q ≠ .none ∧ q ≠ .ready ∧ q ≠ .claimed) : row.queueState ≠ q := by
  rintro rfl
  rcases h with h | h | h
  · exact hq.1 h
  · exact hq.2.1 h
  · exact hq.2.2 h

/-- Between commands, a row of the node is beyond expansion. -/
theorem spent_row {s0 : Db} {y : Pending} (hs : Spending r j y s0) {row : Job}
    (hrow : s0.job r j = some row) : row.beyond := by
  rcases hs.2.2.row with hgone | ⟨row', hrow', hbeyond⟩
  · exact absurd (hs.1.counters.jobs r j row hrow) (by rw [hgone]; exact Bool.false_ne_true)
  · rw [hrow, Option.some.injEq] at hrow'
    exact hrow' ▸ hbeyond

/-- No sweep reads a node that is beyond expansion. -/
theorem spent_not_swept {q : Job → Prop} : ¬Swept (Spending r j) x s r j q := by
  rintro ⟨s0, row0, hs0, _, hrow0, hblocked, _⟩
  exact beyond_not (spent_row hs0 hrow0) (by decide) hblocked

/-- No submission inserts a node that is beyond expansion. -/
theorem spent_not_inserted : ¬Inserted (Spending r j) r j := by
  rintro ⟨s0, hs0, hnone, hrun⟩
  rcases hs0.2.2.row with hgone | ⟨row, hrow, _⟩
  · exact absurd hrun (by rw [hgone]; exact Bool.false_ne_true)
  · exact absurd (hnone.symm.trans hrow) (by simp only [reduceCtorEq, not_false_eq_true])

theorem beyond_onJob (hsite : Site (Spending r j) (· ≠ r) c x s st)
    (hrely : defersBlocked st s = true) {row : Job} (hrow : s.job r j = some row)
    (h : row.beyond) : (st.onJob s row).beyond := by
  have hkey : row.key = (r, j) := Table.key_of_get hrow
  -- a node that was built or handed on is never set back to a state with an expansion
  cases st with
  | job w r0 j0 =>
      simp only [Stmt.onJob]
      split
      · next hcond =>
          rw [Bool.and_eq_true, decide_eq_true_eq, hkey, Prod.mk.injEq] at hcond
          obtain ⟨⟨rfl, rfl⟩, hguard⟩ := hcond
          cases w with
          | deferExpansion site =>
              rw [defersBlocked, hrow, Option.all_some, decide_eq_true_eq] at hrely
              exact absurd hrely (beyond_not h (by decide))
          | leaseExpansion => exact absurd (of_decide_eq_true hguard) (beyond_not h (by decide))
          | park site =>
              cases site with
              | submit => exact absurd hsite.2.2.2 spent_not_inserted
              | rerun => exact absurd rfl hsite.2.1
              | _ => exact absurd hsite.1 spent_not_swept
          | unpark site =>
              cases site with
              | promoteRun =>
                  obtain ⟨row', hrow', hheld, _⟩ := hsite
                  rw [hrow, Option.some.injEq] at hrow'
                  exact absurd (hrow' ▸ hheld) (beyond_not h (by decide))
              | _ => exact absurd (of_decide_eq_true hguard) (beyond_not h (by decide))
          | reset => exact absurd rfl hsite.2.1
          | enqueueReady | requeue => exact .inr (.inl rfl)
          | claim => exact .inr (.inr rfl)
          | finish | starve | gateFailed | expandedMatrix | startCaller | fold | restartCaller
          | resetConcluded => exact .inl rfl
          | bumpGeneration | setGate | setOutputs | setRunsOn | setMessage | setTemplate
          | setConditionContext | setReusableMeta => exact h
      · exact h
  | cancelRunJobs | expireRunJobs =>
      simp only [Stmt.onJob]
      split
      · exact .inl rfl
      · exact h
  -- the counters of needs are no part of the state
  | refreshRemainingNeeds | refreshRunRemainingNeeds =>
      simp only [Stmt.onJob]
      split <;> exact h
  | resumeExpansions =>
      simp only [Stmt.onJob]
      split
      · next hexp => exact absurd hexp (beyond_not h (by decide))
      · exact h
  | _ => exact h

theorem spent_kept (r : RunId) (j : JobId) :
    Kept (Spending r j) (· ≠ r) fenceContract :=
  Kept.of_plain fun hsite ht hs hrely happly =>
    ⟨⟨fenced_apply hsite ht hs.1 hrely happly,
      stays_apply hsite hs.2 (fun _ hrow h =>
        beyond_onJob hsite (Bool.and_eq_true_iff.mp hrely).2 hrow h) happly⟩, trivial⟩

end Spent

section Apply

variable {r : RunId} {j : JobId} {promoteNext : GroupKey → Option String → Cmd Unit}
variable (hpn : HandsOver (· ≠ r) fenceContract promoteNext) (b : Backend)

/-- The invariant before the node is known to be spent. -/
abbrev Staying (r : RunId) (j : JobId) (_ : Pending) (s : Db) : Prop :=
  s.Tidy ∧ s.Fenced ∧ s.Stays r j fun _ => True

/-- A write that takes the node off the queue spends it. -/
theorem spends {w : JobWrite} {s s' : Db} (hs : Staying r j .none s')
    (hw : ∀ row, s.job r j = some row → ((Stmt.job w r j).onJob s row).beyond)
    (happly : (Stmt.job w r j).apply s = .ok s') : Spending r j .none s' := by
  refine ⟨hs.1, hs.2.1, hs.2.2.known, hs.2.2.row.imp id ?_⟩
  rintro ⟨row', hrow', _⟩
  rcases job_of_apply happly hrow' with ⟨row, hrow, rfl⟩ | ⟨hins, _⟩
  · exact ⟨_, hrow', hw row hrow⟩
  · rcases hins with h | h <;> exact absurd h Stmt.noConfusion

/-- The two writes that end an expansion spend the node. -/
theorem spends_exec {w : JobWrite} (hsite : ∀ s, JobSite (Staying r j) (· ≠ r) .none s r j w)
    (hmove : ∀ s, Moves s .none .none (.job w r j)) (hguard : ∀ row, w.guard row = true)
    (hw : ∀ row, (w.write row).queueState = .none) :
    Triple fenceContract (Staying r j .none) (exec (.job w r j)) fun _ => Spending r j .none := by
  have K := stays_kept (· ≠ r) r j
  refine Triple.issue fun s s' hs hrely happly => ?_
  have hstep : Staying r j .none s' ∧ fenceContract.guar (.job w r j) s := by
    by_cases hin : (Stmt.job w r j).inner = true
    · exact K.step hin (hsite s) (hmove s) hs hrely happly
    · exact K.outer (Bool.eq_false_iff.mpr hin) (hsite s) (hmove s) hs hrely happly
  refine ⟨spends hstep.1 (fun row hrow => .inl ?_) happly, hstep.2⟩
  have hkey : row.key = (r, j) := Table.key_of_get hrow
  simp only [Stmt.onJob, hkey, hguard, decide_true, Bool.and_self, if_true, hw]

include hpn in
/-- Folding a build into an expanding node spends it. -/
theorem foldExpansion_spends {node : Job} {built : Option BuiltExpansion} (hj : node.jobId = j)
    (hleased : Leased (Staying r j) r j) :
    Triple fenceContract (fun s => Staying r j .none s ∧
        ∀ row, s.job r j = some row → row.queueState = .expanding)
      (foldExpansion b promoteNext r node built) fun _ => Spending r j .none := by
  subst hj
  have K := stays_kept (· ≠ r) r node.jobId
  have K' := spent_kept r node.jobId
  have hsettle : ∀ status : ExecutionStatus, status.isTerminal = true →
      Triple fenceContract (fun s => Staying r node.jobId .none s ∧
          ∀ row, s.job r node.jobId = some row → row.queueState = .expanding) (do
        let _ ← settleNode promoteNext r node.jobId status
        pure PUnit.unit) fun _ => Spending r node.jobId .none := by
    intro status hst
    refine Triple.bind (settleNode_from hpn K'.toKeptInside hst (x := .none) ?_ ?_) fun _ =>
      Triple.ret fun s hs => hs
    · rintro s ⟨hs, hexp⟩ hterm
      refine ⟨hs.1, hs.2.1, hs.2.2.known, hs.2.2.row.imp id ?_⟩
      rintro ⟨row, hrow, _⟩
      -- the node was open, since an expanding node is unsettled, so nothing settled it before
      have hopen := hs.2.1.unsettled hrow (by rw [Job.deferred, hexp row hrow]; rfl)
      exact absurd (hterm row hrow) (by rw [hopen]; exact Bool.false_ne_true)
    · rintro s s' status ⟨hs, hexp⟩ hst hrely happly
      have hsite : Site (Staying r node.jobId) (· ≠ r) fenceContract .none s
          (.job (.finish .settleNode status) r node.jobId) := hst
      obtain ⟨hs', hg⟩ := K.step rfl hsite rfl hs hrely happly
      refine ⟨spends hs' (fun row hrow => ?_) happly, hg⟩
      have hkey : row.key = (r, node.jobId) := Table.key_of_get hrow
      -- the same fact lets the guard of the write pass: the write spends the generation
      have hopen := hs.2.1.unsettled hrow (by rw [Job.deferred, hexp row hrow]; rfl)
      refine .inl ?_
      simp only [Stmt.onJob, hkey, JobWrite.guard, hopen, decide_true, Bool.not_false,
        Bool.and_self, if_true, JobWrite.write]
  cases built with
  | none => exact hsettle .failure rfl
  | some built =>
      cases built with
      -- a failed build and an empty matrix settle the node, every other build is registered first
      | matrix jobs =>
          cases jobs with
          | nil => exact hsettle .skipped rfl
          | cons job jobs =>
              refine Triple.bind ((registerBuiltJobs_spec hpn K b ⟨node.jobId, hleased⟩).pre
                fun s hs => hs.1) fun _ => ?_
              -- the write on the node spends the generation; what follows it only has to keep that
              refine Triple.bind (spends_exec (fun _ => ⟨rfl, hleased⟩) (fun _ => rfl)
                (fun _ => rfl) fun _ => rfl) fun _ => ?_
              refine Triple.bind (spliceMatrixParents_spec K') fun _ => ?_
              exact K'.keep (.purgeRequests r node.jobId) (fun s _ => trivial) fun s => rfl
      | reusable jobs calls =>
          refine Triple.bind ((registerBuiltJobs_spec hpn K b ⟨node.jobId, hleased⟩).pre
            fun s hs => hs.1) fun _ => ?_
          refine Triple.bind (spends_exec (fun _ => ⟨rfl, hleased⟩) (fun _ => rfl)
            (fun _ => rfl) fun _ => rfl) fun _ => ?_
          refine Triple.bind (writeReusableMeta_spec K') fun _ => ?_
          exact (settleRequestsForJob_spec K'.toKeptInside (Ignores.any _)).conseq
            (fun s hs => ⟨hs, trivial⟩) fun _ s hs => hs.1

include hpn in
theorem applyExpansion_spends {lease : Lease} {built : Option BuiltExpansion} {fuel : Nat} {s0 : Db}
    {node : Job} (hr : lease.runId = r) (hj : lease.jobId = j) (hleased : lease ∈ s0.leases)
    (hnode : s0.job r j = some node) (hgen : node.expandGeneration = lease.generation) :
    Triple fenceContract (fun s => s = s0 ∧ Staying r j .none s)
      (applyExpansion b promoteNext fuel lease built) fun _ => Spending r j .none := by
  subst hr hj
  have K := stays_kept (· ≠ lease.runId) lease.runId lease.jobId
  have K' := spent_kept lease.runId lease.jobId
  refine Triple.select fun s1 hs1 => ?_
  obtain ⟨rfl, hs1⟩ := hs1
  -- the lease is held under the current generation, so the node is still expanding
  have hexp : node.queueState = .expanding := by
    rcases (hs1.2.1.leases hleased).row with hgone | ⟨row, hrow, h⟩
    · exact absurd (hs1.1.counters.jobs _ _ node hnode) (by rw [hgone]; exact Bool.false_ne_true)
    · rw [hnode, Option.some.injEq] at hrow
      exact hrow ▸ h.2 (hrow ▸ hgen.symm)
  refine Triple.ite (fun hnot => ?_) fun _ => ?_
  · exact absurd (List.contains_iff_mem.mpr hleased) (by
      rw [Bool.not_eq_true'] at hnot
      rw [hnot]
      exact Bool.false_ne_true)
  refine Triple.bind (Q := fun _ s => Staying lease.runId lease.jobId .none s ∧ s.jobs = s1.jobs)
    ((K.exec (.endLease lease) (x := .none) (y := .none) (F := fun s => s = s1)
      (fun s _ _ => trivial) (fun s _ => rfl)
      fun s s' hs happly => ?_).pre fun s hs => ⟨hs.2.2, hs.1⟩) fun _ => ?_
  · subst hs
    exact apply_same .jobs happly rfl
  -- ending the lease touches no job, so the node is found as it was
  refine Triple.select fun s2 hs2 => ?_
  have hnode2 : s2.job lease.runId lease.jobId = some node := by
    rw [Db.job, hs2.2]
    exact hnode
  rw [hnode2]
  refine Triple.ite (fun hne => absurd hgen hne) fun _ => ?_
  refine Triple.ite (fun _ => Triple.abort) fun _ => ?_
  have hkey : node.jobId = lease.jobId := congrArg Prod.snd (Table.key_of_get hnode)
  refine Triple.bind ((foldExpansion_spends hpn b hkey ⟨s1, lease, hs1, hleased, rfl, rfl⟩).pre ?_)
    fun _ => ?_
  · rintro s ⟨rfl, hs, _⟩
    refine ⟨hs, fun row hrow => ?_⟩
    rw [hnode2, Option.some.injEq] at hrow
    exact hrow ▸ hexp
  refine Triple.bind (K'.keep (.refreshRunRemainingNeeds lease.runId) (fun s _ => trivial)
    fun s => rfl) fun _ => ?_
  refine Triple.bind (promoteRun_spec hpn K'.toKeptInside b fuel fuel) fun _ => ?_
  exact checkForeignKeys_spec

/-- A build under a stale lease only ends the lease. -/
theorem applyExpansion_stale {lease : Lease} {built : Option BuiltExpansion} {fuel : Nat}
    {s s' : Db} {t : List (Stmt × Db)}
    (h : applyExpansion b promoteNext fuel lease built s = .ok ((), s', t)) :
    lease ∈ s.leases ∧ (s' = { s with leases := s.leases.filter fun l => l ≠ lease } ∨
      ∃ node, s.job lease.runId lease.jobId = some node ∧
        node.expandGeneration = lease.generation) := by
  unfold applyExpansion at h
  obtain ⟨leased, s1, t1, t2, h1, h2, rfl⟩ := Tx.bind_ok h
  rw [Tx.select_run, Except.ok.injEq, Prod.mk.injEq, Prod.mk.injEq] at h1
  obtain ⟨rfl, rfl, rfl⟩ := h1
  -- the lease is held, or the build is refused without a trace
  by_cases hleased : s.leases.contains lease = true
  · refine ⟨List.contains_iff_mem.mp hleased, ?_⟩
    simp only [hleased, Bool.not_true, Bool.false_eq_true, if_false] at h2
    obtain ⟨_, s1, t3, t4, h3, h4, rfl⟩ := Tx.bind_ok h2
    simp only [exec, Tx.issue, Stmt.apply, Except.ok.injEq, Prod.mk.injEq, true_and] at h3
    obtain ⟨rfl, rfl⟩ := h3
    obtain ⟨found, s2, t5, t6, h5, h6, rfl⟩ := Tx.bind_ok h4
    rw [Tx.select_run, Except.ok.injEq, Prod.mk.injEq, Prod.mk.injEq] at h5
    obtain ⟨rfl, rfl, rfl⟩ := h5
    cases hnode : s.job lease.runId lease.jobId with
    | none =>
        rw [Db.job] at hnode
        simp only [Db.job, hnode, Tx.pure_run, Except.ok.injEq, Prod.mk.injEq, true_and] at h6
        exact .inl h6.1.symm
    | some node =>
        -- the generation decides; neither state nor status of the node is looked at
        by_cases hgen : node.expandGeneration = lease.generation
        · exact .inr ⟨node, rfl, hgen⟩
        rw [Db.job] at hnode
        simp only [Db.job, hnode, ne_eq, hgen, not_false_eq_true, if_true, Tx.pure_run,
          Except.ok.injEq, Prod.mk.injEq, true_and] at h6
        exact .inl h6.1.symm
  · simp only [Bool.not_eq_true] at hleased
    simp only [hleased, Bool.not_false, if_true, Tx.abort_run, reduceCtorEq] at h2

end Apply

/-- The call folds a build into the node: it names an outstanding lease under the
    node's generation. -/
def Call.Expands (r : RunId) (j : JobId) (call : Call) (s : Db) : Prop :=
  ∃ lease built node, call.command = .applyExpansion lease built ∧ lease ∈ s.leases ∧
    lease.runId = r ∧ lease.jobId = j ∧ s.job r j = some node ∧
    node.expandGeneration = lease.generation

/-- An outstanding lease under the node's generation finds the node expanding and
    not settled. -/
theorem Db.Fenced.expanding {s : Db} (ht : s.Tidy) (hs : s.Fenced) {lease : Lease}
    (hleased : lease ∈ s.leases) {node : Job} (hnode : s.job lease.runId lease.jobId = some node)
    (hgen : node.expandGeneration = lease.generation) :
    node.queueState = .expanding ∧ node.status.isTerminal = false := by
  rcases (hs.leases hleased).row with hgone | ⟨row, hrow, h⟩
  · exact absurd (ht.counters.jobs _ _ node hnode) (by rw [hgone]; exact Bool.false_ne_true)
  · rw [hnode, Option.some.injEq] at hrow
    subst hrow
    have hexp := h.2 hgen.symm
    exact ⟨hexp, hs.unsettled hnode (by rw [Job.deferred, hexp]; rfl)⟩

/-- In every run whose statements keep the fence: a build that commits changes
    nothing but the leases, or meets its node expanding under the claimed
    generation and not settled; and once a build was folded into a node, no other
    is as long as the run is not started again. -/
theorem expansion_fenced {s : Db}
    (hrun : Runs (fun _ _ => True) (fun st s => keepsLeases st s = true) Db.init s) :
    (∀ (call : Call) (lease : Lease) (built : Option BuiltExpansion) (s' : Db)
        (t : List (Stmt × Db)), call.command = .applyExpansion lease built →
        call.exec s = .ok ((), s', t) →
      s' = { s with leases := s.leases.filter fun l => l ≠ lease } ∨
        ∃ node, s.job lease.runId lease.jobId = some node ∧ node.queueState = .expanding ∧
          node.expandGeneration = lease.generation ∧ node.status.isTerminal = false) ∧
    ∀ (r : RunId) (j : JobId) (call call' : Call) (s1 s2 : Db) (t : List (Stmt × Db)),
      call.Expands r j s → call.exec s = .ok ((), s1, t) →
      (∀ e ∈ t, keepsLeases e.1 e.2 = true) →
      Runs (Call.notRerun r) (fun st s => keepsLeases st s = true) s1 s2 →
      ¬call'.Expands r j s2 := by
  -- no lease and no node in the empty database
  have hinit : Db.init.Fenced := by
    refine ⟨fun hl => absurd hl List.not_mem_nil, fun hrow => ?_⟩
    exact absurd hrow (by simp only [Db.init, Db.job, Table.get_empty, reduceCtorEq,
      not_false_eq_true])
  obtain ⟨ht, hs⟩ := Runs.kept (fenced_kept fun _ => True) (fun _ _ h => h)
    (fun _ _ _ _ _ => trivial) hrun ⟨tidy_init, hinit⟩
  refine ⟨fun call lease built s' t hcall hexec => ?_, ?_⟩
  · rw [Call.exec, hcall] at hexec
    obtain ⟨hleased, hsame | ⟨node, hnode, hgen⟩⟩ := applyExpansion_stale _ hexec
    · exact .inl hsame
    · obtain ⟨hexp, hopen⟩ := hs.expanding ht hleased hnode hgen
      exact .inr ⟨node, hnode, hexp, hgen, hopen⟩
  · rintro r j call call' s1 s2 t ⟨lease, built, node, hcall, hleased, hr, hj, hnode, hgen⟩ hexec
      hlog hlater ⟨lease', built', node', _, hleased', hr', hj', hnode', hgen'⟩
    -- the node was there when the build was folded in, and its run is not deleted on the way
    have hstays : s.Stays r j fun _ => True := by
      obtain ⟨run, hrow⟩ := Option.isSome_iff_exists.mp (ht.counters.jobs r j node hnode)
      exact ⟨ht.counters.runs r run hrow, .inr ⟨node, hnode, trivial⟩⟩
    rw [Call.exec, hcall] at hexec
    have hspent :=
      (applyExpansion_spends (promoteNextInGroup_handsOver _ _) call.backend hr hj hleased
      hnode hgen s () s1 t ⟨rfl, ht, hs, hstays⟩ hexec hlog).1
    have hlast := Runs.kept (spent_kept r j) (fun _ _ h => h) (fun _ _ h => h) hlater hspent
    subst hr' hj'
    obtain ⟨hexp, _⟩ := hlast.2.1.expanding hlast.1 hleased' hnode' hgen'
    exact beyond_not (spent_row hlast hnode') (by decide) hexp

/-- A caller is leased to a builder. -/
def leasedCallerCalls : List Call :=
  (SubmitRun.plain [callerLeg "deploy"]).calls 0 ++ [(Command.claimExpansion 0 "deploy").call]

/-- Its build arrives. -/
def buildCall : Call :=
  (Command.applyExpansion ⟨0, "deploy", 1⟩
    (some (.reusable [⟨.plain "deploy/run" [] .plain, none⟩] []))).call

theorem expansion_fenced_of_caller : ∃ s s1 t,
    Runs (fun _ _ => True) (fun st s => keepsLeases st s = true) Db.init s ∧
    buildCall.Expands 0 "deploy" s ∧ buildCall.exec s = .ok ((), s1, t) ∧
    (∃ node, s.job 0 "deploy" = some node ∧ node.queueState = .expanding) ∧
    (s1.job 0 "deploy/run").isSome = true ∧ ¬buildCall.Expands 0 "deploy" s1 := by
  have hall : (Call.runAll keepsLeases leasedCallerCalls Db.init).any (fun s =>
      s.leases.contains ⟨0, "deploy", 1⟩ &&
      ((s.job 0 "deploy").any fun row => row.queueState = .expanding &&
        row.expandGeneration = 1) &&
      (Call.runAll keepsLeases [buildCall] s).any fun s1 =>
        (s1.job 0 "deploy/run").isSome) = true := by
    decide +kernel
  obtain ⟨s, hs, h⟩ := (Option.any_eq_true _ _).mp hall
  simp only [Bool.and_eq_true] at h
  obtain ⟨⟨hleased, hnode⟩, hbuild⟩ := h
  obtain ⟨node, hrow, hnode⟩ := (Option.any_eq_true _ _).mp hnode
  rw [Bool.and_eq_true, decide_eq_true_eq, decide_eq_true_eq] at hnode
  obtain ⟨s1, hs1, hjob⟩ := (Option.any_eq_true _ _).mp hbuild
  obtain ⟨t, hexec, hlog⟩ := exec_of_runAll hs1
  have hrun : Runs (fun _ _ => True) (fun st s => keepsLeases st s = true) Db.init s :=
    run_of_runAll (fun _ _ _ => trivial) (fun _ _ h => h) hs
  have hexpands : buildCall.Expands 0 "deploy" s :=
    ⟨⟨0, "deploy", 1⟩, _, node, rfl, List.contains_iff_mem.mp hleased, rfl, rfl, hrow, hnode.2⟩
  exact ⟨s, s1, t, hrun, hexpands, hexec, ⟨node, hrow, hnode.1⟩, hjob,
    (expansion_fenced hrun).2 0 "deploy" buildCall buildCall s1 s1 t hexpands hexec hlog
      (Txn.Run.refl s1)⟩

/-- A build is folded into a node that fail-fast cancelled: its lease is still
    good. -/
theorem late_build_applied : ∃ s s' : Db, ∃ t, s.Reachable ∧
    lateBuildCall.exec s = .ok ((), s', t) ∧
    (∃ node, s.job 0 "deploy (b)" = some node ∧ node.status = .cancelled ∧
      node.queueState ≠ .expanding) ∧
    s.job 0 "deploy (b)/run" = none ∧ (s'.job 0 "deploy (b)/run").isSome = true := by
  have hall : (Call.runAll (fun _ _ => true) failedLegCalls Db.init).any (fun s =>
      ((s.job 0 "deploy (b)").any fun row =>
        row.status = .cancelled && row.queueState ≠ .expanding) &&
      (s.job 0 "deploy (b)/run").isNone &&
      (Call.runAll (fun _ _ => true) [lateBuildCall] s).any fun s' =>
        (s'.job 0 "deploy (b)/run").isSome) = true := by
    decide +kernel
  obtain ⟨s, hs, h⟩ := (Option.any_eq_true _ _).mp hall
  simp only [Bool.and_eq_true] at h
  obtain ⟨⟨hnode, hnone⟩, hbuild⟩ := h
  obtain ⟨node, hrow, hnode⟩ := (Option.any_eq_true _ _).mp hnode
  rw [Bool.and_eq_true, decide_eq_true_eq, decide_eq_true_eq] at hnode
  obtain ⟨s', hs', hjob⟩ := (Option.any_eq_true _ _).mp hbuild
  obtain ⟨t, hexec, _⟩ := exec_of_runAll hs'
  have hreach : s.Reachable := run_of_runAll (fun _ _ _ => trivial) (fun _ _ _ => trivial) hs
  exact ⟨s, s', t, hreach, hexec, ⟨node, hrow, hnode.1, hnode.2⟩,
    Option.isNone_iff_eq_none.mp hnone, hjob⟩

end Preloop
