import PreloopControl.Discipline.Sites

/-!
# Settlement Follows the Discipline

The functions of the settlement and concurrency modules keep every invariant
that their statements keep. Each function has one lemma here, with the open list
before and after it; nothing about a particular invariant is in this module.

The hand-over of a group is still a parameter. `HandsOver` is what is required
of it: it closes the group it is called on, for every invariant at once, so that
a caller may add facts of its own to the invariant before it calls.

## Main definitions

* `HandsOver`: The hand-over of a group follows the discipline.

## Theorems

* `acquire_spec`: Admission, with what each outcome says about the rows.
* `cancelHolder_spec`: A cancelled holder is settled.
* `settleNode_spec`: A settled job is settled.
-/

namespace Preloop

open Txn

/-- The hand-over of a group closes it, for every invariant. -/
def HandsOver (rr : RunId → Prop) (c : Contract Stmt Db)
    (promoteNext : GroupKey → Option String → Cmd Unit) : Prop :=
  ∀ P, KeptInside P rr c → ∀ (x : Pending) key display,
    Triple c (P (x.addFree key)) (promoteNext key display) fun _ => P x

section Rows

variable {P : Pending → Db → Prop} {rr : RunId → Prop} {c : Contract Stmt Db}
variable (K : KeptInside P rr c) {x : Pending} {F : Db → Prop}

/-! ## Row operations -/

theorem encodes_of_findJobset {s : Db} {r : RunId} {jobIds : List JobId} {set : JobSet}
    (h : s.findJobset r jobIds = some set) : s.encodes (.jobSet r jobIds)
    (.jobSet r set.jobsetId) := by
  have hmem := List.mem_of_head? h
  obtain ⟨hget, hcond⟩ := Table.mem_select.mp hmem
  rw [Bool.and_eq_true, decide_eq_true_eq, decide_eq_true_eq] at hcond
  exact ⟨rfl, set, hget, hcond.1, hcond.2⟩

include K in
theorem jobsetId_spec {r : RunId} {jobIds : List JobId} (hk : Known P rr (.jobSet r jobIds))
    (hF : Ignores [.jobsets] F) :
    Triple c (fun s => P x s ∧ F s) (jobsetId r jobIds)
      fun id s => P x s ∧ F s ∧ s.encodes (.jobSet r jobIds) (.jobSet r id) := by
  refine Triple.bind (K.exec (.insertJobset r jobIds) rfl (fun s _ _ => hk) (fun s _ => rfl)
    fun s s' hf happly => hF rfl happly hf) fun _ => ?_
  refine Triple.select fun s0 hs0 => ?_
  cases hfind : s0.findJobset r jobIds with
  | none => exact Triple.abort
  | some set =>
      refine Triple.ret ?_
      rintro s ⟨rfl, hs⟩
      exact ⟨hs.1, hs.2, encodes_of_findJobset hfind⟩

include K in
theorem holderColumns_spec {h : Holder} (hk : Known P rr h) (hF : Ignores [.jobsets] F) :
    Triple c (fun s => P x s ∧ F s) (holderColumns h)
      fun row s => P x s ∧ F s ∧ s.encodes h row := by
  cases h with
  | run r => exact Triple.ret fun s hs => ⟨hs.1, hs.2, rfl⟩
  | job r j => exact Triple.ret fun s hs => ⟨hs.1, hs.2, rfl, rfl⟩
  | jobSet r jobIds =>
      exact Triple.bind (jobsetId_spec K hk hF) fun id => Triple.ret fun s hs => hs

theorem encodes_of_jobsets {s s' : Db} (hsame : s'.jobsets = s.jobsets) {h : Holder}
    {row : HolderRow} (henc : s.encodes h row) : s'.encodes h row := by
  cases h <;> cases row <;> first | exact henc | skip
  obtain ⟨hr, set, hget, hset⟩ := henc
  exact ⟨hr, set, by rw [hsame]; exact hget, hset⟩

include K in
theorem takeHold_spec {key : GroupKey} {display : String} {h : Holder} (hk : Known P rr h)
    (hgroup : Arrived P c key h ∨ OnGroup P key h)
    (hF : Ignores [.jobsets, .holds] F) :
    Triple c (fun s => P (x.addFree key) s ∧ F s) (takeHold key display h)
      fun _ s => P x s ∧ F s ∧ s.names key h := by
  refine Triple.bind (holderColumns_spec K hk (hF.mono rfl)) fun row => ?_
  refine K.exec (.takeHold key display row) (y := x) rfl
    (fun s _ hf => ⟨h, hf.2, hk, hgroup⟩) (fun s _ => rfl) ?_
  rintro s s' ⟨hf, henc⟩ happly
  have hsets : s'.jobsets = s.jobsets := apply_same .jobsets happly rfl
  have hhold : s'.holds.get key = some ⟨key, display, row⟩ := by
    simp only [Stmt.apply] at happly
    split at happly
    · obtain ⟨t', ht, rfl⟩ := inserted_eq_ok happly
      exact ((Table.insert?_eq_some ht).2 key).trans (if_pos rfl)
    · cases happly
  exact ⟨hF rfl happly hf, _, hhold, encodes_of_jobsets hsets henc⟩

include K in
theorem releaseHold_spec (site : ReleaseSite) {key : GroupKey} {h : Holder} (hk : Known P rr h)
    (hfacts : ∀ s, P x s → F s → ReleaseFacts x s h site) (hF : Ignores [.jobsets, .holds] F) :
    Triple c (fun s => P x s ∧ F s) (releaseHold site key h)
      fun owned s => P (if owned then x.addFree key else x) s ∧ F s := by
  refine Triple.bind (holderColumns_spec K hk (hF.mono rfl)) fun row => ?_
  refine Triple.select fun s0 hs0 => ?_
  refine Triple.bind (Q := fun _ s => P (if (s0.holds.get key).any fun h => h.holder = row then
    x.addFree key else x) s ∧ F s) ?_ fun _ => Triple.ret fun s hs => hs
  refine (K.exec (.releaseHold site key row) (x := x)
    (F := fun s => s = s0 ∧ F s ∧ s.encodes h row) rfl
    (fun s hP hf => ⟨h, hf.2.2, hk, hfacts s hP hf.2.1⟩) ?_ ?_).pre fun s hs =>
      ⟨hs.2.1, hs.1, hs.2.2⟩
  · rintro s ⟨rfl, _⟩
    rfl
  · exact fun s s' hf happly => hF rfl happly hf.2.1

include K in
theorem enqueueWait_spec {key : GroupKey} {h : Holder} (hk : Known P rr h)
    (harrived : Arrived P c key h) :
    Triple c (P x) (enqueueWait key h) fun _ s => P x s ∧ s.awaits h := by
  refine Triple.bind ((holderColumns_spec K hk (Ignores.any _)).pre fun s hs => ⟨hs, trivial⟩)
    fun row => ?_
  refine K.exec (.enqueueWait key row) rfl (fun s _ hf => ⟨h, hf.2, hk, harrived⟩)
    (fun s _ => rfl) ?_
  rintro s s' ⟨_, henc⟩ happly
  have hsets : s'.jobsets = s.jobsets := apply_same .jobsets happly rfl
  have hwait : s'.waits.get s.nextWait = some ⟨s.nextWait, key, row⟩ := by
    simp only [Stmt.apply] at happly
    split at happly
    · obtain ⟨t', ht, rfl⟩ := inserted_eq_ok happly
      exact ((Table.insert?_eq_some ht).2 s.nextWait).trans (if_pos rfl)
    · cases happly
  exact ⟨_, _, hwait, encodes_of_jobsets hsets henc⟩

include K in
theorem requeueWait_spec {key : GroupKey} {h : Holder} {waitId : Nat} (hk : Known P rr h)
    (hon : OnGroup P key h) (hfree : key ∈ x.free) :
    Triple c (P x) (requeueWait key h waitId) fun _ s => P x s ∧ s.awaits h := by
  refine Triple.bind ((holderColumns_spec K hk (Ignores.any _)).pre fun s hs => ⟨hs, trivial⟩)
    fun row => ?_
  refine K.exec (.requeueWait key row waitId) rfl (fun s _ hf => ⟨hfree, h, hf.2, hk, hon⟩)
    (fun s _ => rfl) ?_
  rintro s s' ⟨_, henc⟩ happly
  have hsets : s'.jobsets = s.jobsets := apply_same .jobsets happly rfl
  have hwait : s'.waits.get waitId = some ⟨waitId, key, row⟩ := by
    simp only [Stmt.apply] at happly
    split at happly
    · obtain ⟨t', ht, rfl⟩ := inserted_eq_ok happly
      exact ((Table.insert?_eq_some ht).2 waitId).trans (if_pos rfl)
    · cases happly
  exact ⟨_, _, hwait, encodes_of_jobsets hsets henc⟩

include K in
theorem removeWait_spec {site : UnwaitSite} {key : GroupKey} {h : Holder} (hk : Known P rr h) :
    Triple c (P x) (removeWait site key h) fun _ => P x := by
  refine Triple.bind ((holderColumns_spec K hk (Ignores.any _)).pre fun s hs => ⟨hs, trivial⟩)
    fun row => ?_
  refine (K.exec (.removeWait site key row) (F := fun s => True ∧ s.encodes h row)
    (G := fun _ => True) rfl (fun s _ hf => ⟨h, hf.2, hk⟩) (fun s _ => rfl)
    fun _ _ _ _ => trivial).post fun _ s hs => hs.1

/-! ## Where holders come from -/

theorem holderOf_runId (s : Db) (row : HolderRow) : (s.holderOf row).runId = row.runId := by
  cases row <;> rfl

theorem known_of_hold {s : Db} (hpast : Past P s) {key : GroupKey} {row : Hold}
    (hrow : s.holds.get key = some row) : Known P rr (s.holderOf row.holder) := by
  cases hh : row.holder with
  | run r => trivial
  | job r j => exact .inr ⟨s, hpast, .inl ⟨key, row, hrow, hh⟩⟩
  | jobSet r id => exact ⟨s, hpast, .inr (.inl ⟨key, row, hrow, by rw [hh]; rfl⟩)⟩

theorem known_of_wait {s : Db} (hpast : Past P s) {id : Nat} {row : Wait}
    (hrow : s.waits.get id = some row) : Known P rr (s.holderOf row.holder) := by
  cases hh : row.holder with
  | run r => trivial
  | job r j => exact .inr ⟨s, hpast, .inr (.inl ⟨id, row, hrow, hh⟩)⟩
  | jobSet r set => exact ⟨s, hpast, .inr (.inr (.inl ⟨id, row, hrow, by rw [hh]; rfl⟩))⟩

theorem runId_of_standsFor {s : Db} {r : RunId} {j : JobId} {row : HolderRow}
    (h : s.standsFor r j row = true) : row.runId = r := by
  cases row with
  | run r' => exact of_decide_eq_true h
  | job r' j' =>
      simp only [Db.standsFor, Bool.and_eq_true, decide_eq_true_eq] at h
      exact h.1
  | jobSet r' id =>
      simp only [Db.standsFor, Bool.and_eq_true, decide_eq_true_eq] at h
      exact h.1

theorem mem_jobHolds {s : Db} {r : RunId} {j : JobId} {key : GroupKey} {h : Holder}
    (hmem : (key, h) ∈ s.jobHolds r j) :
    ∃ row, s.holds.get key = some row ∧ s.holderOf row.holder = h ∧ h.runId = r ∧
      ∀ r' j', h = .job r' j' → r' = r ∧ j' = j := by
  obtain ⟨row, hrow, heq⟩ := List.mem_map.mp hmem
  obtain ⟨hget, hstands⟩ := Table.mem_select.mp hrow
  rw [Prod.mk.injEq] at heq
  obtain ⟨rfl, rfl⟩ := heq
  refine ⟨row, hget, rfl, ?_, ?_⟩
  · rw [holderOf_runId]
    exact runId_of_standsFor hstands
  · intro r' j' hjob
    cases hh : row.holder with
    | run r0 =>
        rw [hh] at hjob
        exact absurd hjob (by simp only [Db.holderOf, reduceCtorEq, not_false_eq_true])
    | job r0 j0 =>
        rw [hh] at hjob hstands
        simp only [Db.standsFor, Bool.and_eq_true, decide_eq_true_eq] at hstands
        simp only [Db.holderOf, Holder.job.injEq] at hjob
        rw [← hjob.1, ← hjob.2]
        exact hstands
    | jobSet r0 id =>
        rw [hh] at hjob
        exact absurd hjob (by simp only [Db.holderOf, reduceCtorEq, not_false_eq_true])

theorem mem_runHolds {s : Db} {r : RunId} {key : GroupKey} {h : Holder}
    (hmem : (key, h) ∈ s.runHolds r) :
    ∃ row, s.holds.get key = some row ∧ s.holderOf row.holder = h ∧ h.runId = r := by
  obtain ⟨row, hrow, heq⟩ := List.mem_map.mp hmem
  obtain ⟨hget, hr⟩ := Table.mem_select.mp hrow
  rw [Prod.mk.injEq] at heq
  obtain ⟨rfl, rfl⟩ := heq
  exact ⟨row, hget, rfl, (holderOf_runId s row.holder).trans (of_decide_eq_true hr)⟩

theorem mem_jobWaits {s : Db} {r : RunId} {j : JobId} {key : GroupKey} {h : Holder}
    (hmem : (key, h) ∈ s.jobWaits r j) :
    ∃ id row, s.waits.get id = some row ∧ s.holderOf row.holder = h := by
  obtain ⟨row, hrow, heq⟩ := List.mem_map.mp hmem
  obtain ⟨hget, _⟩ := Table.mem_select.mp hrow
  rw [Prod.mk.injEq] at heq
  exact ⟨row.waitId, row, hget, heq.2⟩

theorem mem_waiters {s : Db} {key : GroupKey} {id : Nat} {h : Holder}
    (hmem : (id, h) ∈ s.waiters key) :
    ∃ row, s.waits.get id = some row ∧ row.key = key ∧ s.holderOf row.holder = h := by
  obtain ⟨row, hrow, heq⟩ := List.mem_map.mp hmem
  obtain ⟨hget, hkey⟩ := Table.mem_selectBy.mp hrow
  rw [Prod.mk.injEq] at heq
  obtain ⟨rfl, rfl⟩ := heq
  exact ⟨row, hget, by simpa only [decide_eq_true_eq] using hkey, rfl⟩

theorem mem_runGraph {s : Db} {r : RunId} {d : Job} :
    d ∈ s.runGraph r ↔ s.job r d.jobId = some d ∧ s.isLeaf d = true := by
  rw [Db.runGraph, Table.mem_select, Bool.and_eq_true, decide_eq_true_eq]
  constructor
  · rintro ⟨hget, rfl, hleaf⟩
    exact ⟨hget, hleaf⟩
  · rintro ⟨hget, hleaf⟩
    have hkey : d.key = (r, d.jobId) := Table.key_of_get hget
    have hr : d.runId = r := congrArg Prod.fst hkey
    exact ⟨by rw [hkey]; exact hget, hr, hleaf⟩

theorem summary_isTerminal {s : Db} {r : RunId} :
    (s.summary r).isTerminal = (s.runGraph r).all fun j => j.status.isTerminal := by
  rw [Db.summary, summarizeRun_terminal, List.all_map]
  rfl

/-- A holder all of whose leaf jobs are settled may be taken as settled. -/
theorem shift_of_holderIsTerminal {s : Db} {r : RunId} {h : Holder} (hr : h.runId = r)
    (hterm : Db.holderIsTerminal (s.runGraph r) h = true) (y : Pending) :
    Shift P s y (y.addGone h) := by
  cases h with
  | run r' =>
      obtain rfl : r' = r := hr
      exact .runSettled y r' (summary_isTerminal.trans hterm)
  | job r' j =>
      obtain rfl : r' = r := hr
      refine .jobSettled y r' j fun row hrow => ?_
      obtain ⟨d, hd, hcond⟩ := List.any_eq_true.mp hterm
      rw [Bool.and_eq_true, decide_eq_true_eq] at hcond
      have hget := (mem_runGraph.mp hd).1
      rw [hcond.1, hrow, Option.some.injEq] at hget
      rw [hget]
      exact hcond.2
  | jobSet r' jobIds =>
      obtain rfl : r' = r := hr
      refine .setSettled y r' jobIds fun j hj => .inr fun row hrow => ?_
      obtain ⟨d, hd, hcond⟩ := List.any_eq_true.mp (List.all_eq_true.mp hterm j hj)
      rw [Bool.and_eq_true, decide_eq_true_eq] at hcond
      have hget := (mem_runGraph.mp hd).1
      rw [hcond.1, hrow, Option.some.injEq] at hget
      rw [hget]
      exact hcond.2

/-! ## Requests and events -/

include K in
theorem settleRequestsForJob_spec {r : RunId} {j : JobId} {status : ExecutionStatus}
    (hF : Ignores [.requests, .cancellations] F) :
    Triple c (fun s => P x s ∧ F s) (settleRequestsForJob r j status)
      fun _ s => P x s ∧ F s := by
  refine Triple.select fun s0 _ => ?_
  refine (Triple.forM fun id _ => ?_).pre fun s hs => hs.2
  refine Triple.bind (K.carry (.request (.settle status) id) rfl (fun s _ => trivial)
    (fun s => rfl) hF rfl) fun _ => ?_
  exact K.carry (.dropCancellation id) rfl (fun s _ => trivial) (fun s => rfl) hF rfl

include K in
theorem retireIfExpandable_spec {r : RunId} {j : JobId} {status : ExecutionStatus}
    (hF : Ignores [.requests, .cancellations] F) :
    Triple c (fun s => P x s ∧ F s) (retireIfExpandable r j status)
      fun _ s => P x s ∧ F s := by
  refine Triple.select fun s0 _ => ?_
  refine Triple.ite (fun _ => ?_) fun _ => Triple.ret fun s hs => hs.2
  exact (settleRequestsForJob_spec K hF).pre fun s hs => hs.2

include K in
theorem cancelAttempt_spec {status : ExecutionStatus} {live : Option Request}
    {reason : Option String} (hF : Ignores [.requests, .cancellations] F) :
    Triple c (fun s => P x s ∧ F s) (cancelAttempt status live reason)
      fun _ s => P x s ∧ F s := by
  unfold cancelAttempt
  split
  · next q =>
      refine Triple.bind (K.carry (.queueCancellation q.requestId reason) rfl
        (fun s _ => trivial) (fun s => rfl) hF rfl) fun _ => ?_
      exact Triple.ret fun s hs => hs
  · exact Triple.ret fun s hs => hs

include K in
theorem emitRun_spec {topic : Topic} {r : RunId} {status : Option ExecutionStatus}
    (htopic : topic ≠ .runCompleted) :
    Triple c (P x) (emitRun topic r status) fun _ => P x := by
  refine Triple.select fun s0 _ => ?_
  refine (K.keep (.emit ⟨_, r, topic, none, status⟩) rfl (fun s _ => trivial) (fun s => ?_)).pre
    fun s hs => hs.2
  simp only [Moves, if_neg htopic]

include K in
theorem emitCompleted_spec {r : RunId} {status : Option ExecutionStatus} :
    Triple c (P (x.addOwed r)) (emitRun .runCompleted r status) fun _ => P x := by
  refine Triple.select fun s0 _ => ?_
  refine ((K.exec (.emit ⟨_, r, .runCompleted, none, status⟩) (F := fun _ => True)
    (G := fun _ => True) rfl (fun s _ _ => trivial) (fun s _ => ?_)
    fun _ _ _ _ => trivial).pre fun s hs => ⟨hs.2, trivial⟩).post fun _ s hs => hs.1
  rfl

include K in
theorem emitJob_spec {ns : String} {topic : Topic} {r : RunId} {j : JobId}
    {status : Option ExecutionStatus} (htopic : topic ≠ .runCompleted) :
    Triple c (P x) (emitJob ns topic r j status) fun _ => P x := by
  refine K.keep (.emit ⟨ns, r, topic, some j, status⟩) rfl (fun s _ => trivial) (fun s => ?_)
  simp only [Moves, if_neg htopic]

end Rows

section Release

variable {P : Pending → Db → Prop} {rr : RunId → Prop} {c : Contract Stmt Db}
variable {promoteNext : GroupKey → Option String → Cmd Unit}
variable (hpn : HandsOver rr c promoteNext) (K : KeptInside P rr c) {x : Pending}

/-! ## Giving back holds and waits -/

include hpn K in
theorem releaseAndPromote_spec (site : ReleaseSite) {key : GroupKey} {h : Holder}
    (hk : Known P rr h) (hfacts : ∀ s, P x s → ReleaseFacts x s h site) :
    Triple c (P x) (releaseAndPromote promoteNext site key h) fun _ => P x := by
  refine Triple.select fun s0 _ => ?_
  refine Triple.bind ((releaseHold_spec K site hk (fun s hP _ => hfacts s hP) (Ignores.any _)).pre
    fun s hs => ⟨hs.2, trivial⟩) fun owned => ?_
  cases owned with
  | false => exact Triple.ret fun s hs => hs.1
  | true => exact (hpn P K x key _).pre fun s hs => hs.1

include K in
theorem addGones {s : Db} {hs : List Holder} (h : ∀ g ∈ hs, ∀ y, Shift P s y (y.addGone g))
    (hP : P x s) : P { x with gone := hs ++ x.gone } s := by
  induction hs with
  | nil => exact hP
  | cons g hs ih =>
      have hrest := ih fun a ha => h a (List.mem_cons_of_mem g ha)
      exact K.shift (h g (List.mem_cons_self ..) _) hrest

include hpn K in
theorem releaseConcurrencyForJob_spec {r : RunId} {j : JobId} (hgone : .job r j ∈ x.gone) :
    Triple c (P x) (releaseConcurrencyForJob promoteNext r j) fun _ => P x := by
  refine Triple.select fun s0 hs0 => Triple.select fun s1 hs1 => ?_
  obtain ⟨rfl, _⟩ := hs1
  -- Holders found settled in the graph stay settled while the loop hands their
  -- groups on, so they are put on the open list before it starts.
  let settled := ((s1.jobHolds r j).map Prod.snd).filter fun h =>
    Db.holderIsTerminal (s1.runGraph r) h
  let y : Pending := { x with gone := settled ++ x.gone }
  have hy : P y s1 := by
    refine addGones K (fun g hg z => ?_) hs0
    obtain ⟨hmap, hterm⟩ := List.mem_filter.mp hg
    obtain ⟨⟨key, h⟩, hmem, rfl⟩ := List.mem_map.mp hmap
    obtain ⟨_, _, _, hrun, _⟩ := mem_jobHolds hmem
    exact shift_of_holderIsTerminal hrun hterm z
  have hheld : ∀ kh ∈ s1.jobHolds r j, Known P rr kh.2 ∧
      (Db.holderIsTerminal (s1.runGraph r) kh.2 = true → kh.2 ∈ y.gone) := by
    intro kh hkh
    obtain ⟨row, hget, hdecode, _, _⟩ := mem_jobHolds hkh
    refine ⟨hdecode ▸ known_of_hold ⟨x, hs0⟩ hget, fun hterm => ?_⟩
    exact List.mem_append_left _ (List.mem_filter.mpr ⟨List.mem_map.mpr ⟨kh, hkh, rfl⟩, hterm⟩)
  refine Triple.bind (Q := fun _ => P y) ?_ fun _ => ?_
  · refine (Triple.forM (P := P y) fun kh hkh => ?_).pre ?_
    · obtain ⟨key, holder⟩ := kh
      obtain ⟨hk, hterminal⟩ := hheld _ hkh
      obtain ⟨_, _, _, _, hjob⟩ := mem_jobHolds hkh
      have hother : Triple c (P y) (if Db.holderIsTerminal (s1.runGraph r) holder then
          releaseAndPromote promoteNext .job key holder else pure ()) fun _ => P y := by
        refine Triple.ite (fun hterm => ?_) fun _ => Triple.ret fun s hs => hs
        exact releaseAndPromote_spec hpn K _ hk fun s _ => hterminal hterm
      cases holder with
      | run r' => exact hother
      | job r' j' =>
          obtain ⟨rfl, rfl⟩ := hjob r' j' rfl
          exact releaseAndPromote_spec hpn K _ hk fun s _ => List.mem_append_right _ hgone
      | jobSet r' jobIds => exact hother
    · rintro s ⟨rfl, _, _⟩
      exact hy
  refine Triple.select fun s2 hs2 => ?_
  refine (Triple.forM (P := P y) fun kh hkh => ?_).conseq (fun s hs => hs.2) fun _ s hs => ?_
  · obtain ⟨key, holder⟩ := kh
    obtain ⟨id, row, hget, hdecode⟩ := mem_jobWaits hkh
    exact removeWait_spec K (hdecode ▸ known_of_wait ⟨y, hs2⟩ hget)
  · exact K.shift (.forget y x.gone fun a ha => List.mem_append_right _ ha) hs

include hpn K in
theorem releaseConcurrencyForRun_spec {why : RunEnd} {r : RunId} (hwhy : why ≠ .rerun)
    (hgone : why = .poisoned ∨ .run r ∈ x.gone) :
    Triple c (P x) (releaseConcurrencyForRun promoteNext why r) fun _ => P x := by
  refine Triple.select fun s0 hs0 => ?_
  refine Triple.bind (Q := fun _ => P x) ?_ fun _ => ?_
  · refine (Triple.forM fun kh hkh => ?_).pre fun s hs => hs.2
    obtain ⟨key, holder⟩ := kh
    obtain ⟨row, hget, hdecode, hrun⟩ := mem_runHolds hkh
    refine releaseAndPromote_spec hpn K _ (hdecode ▸ known_of_hold ⟨x, hs0⟩ hget) fun s _ => ?_
    rcases hgone with rfl | hgone
    · trivial
    · rw [← hrun] at hgone
      cases why <;> trivial
  · refine K.keep (.deleteRunWaits why r) ?_ (fun s _ => ?_) fun s => rfl
    · exact decide_eq_true hwhy
    · rcases hgone with rfl | hgone
      · trivial
      · cases why <;> first | exact hgone | exact absurd rfl hwhy | trivial

include hpn K in
theorem releaseJobset_spec {set : JobSet} (hexp : .jobSet set.runId set.jobIds ∈ x.exposed) :
    Triple c (fun s => P x s ∧ s.jobsets.get set.jobsetId = some set)
      (releaseJobset promoteNext set) fun _ => P x := by
  refine Triple.bind (Q := fun _ => P x) ?_ fun _ => ?_
  · refine (K.exec (.deleteJobsetWaits set.runId set.jobsetId)
      (F := fun s => s.jobsets.get set.jobsetId = some set) (G := fun _ => True) rfl
      (fun s _ hget set' hset' => ?_) (fun s _ => rfl) fun _ _ _ _ => trivial).post
      fun _ s hs => hs.1
    rw [hget, Option.some.injEq] at hset'
    subst hset'
    exact ⟨rfl, hexp⟩
  refine Triple.select fun s0 _ => ?_
  refine Triple.bind (Q := fun _ => P x) ?_ fun _ => ?_
  · refine (Triple.forM fun key _ => ?_).pre fun s hs => hs.2
    refine Triple.select fun s1 hs1 => ?_
    cases hrow : s1.holdRow key with
    | none => exact Triple.ret fun s hs => hs.2
    | some hd =>
        obtain ⟨holder, display⟩ := hd
        obtain ⟨row, hget, heq⟩ := Option.map_eq_some_iff.mp hrow
        rw [Prod.mk.injEq] at heq
        obtain ⟨rfl, rfl⟩ := heq
        exact (releaseAndPromote_spec hpn K .jobset (known_of_hold ⟨x, hs1⟩ hget)
          fun s _ => trivial).pre fun s hs => hs.2
  · exact K.keep (.deleteJobset set.jobsetId) rfl (fun s _ => trivial) fun s => rfl

/-! ## Cancellation -/

theorem summary_summarize {site : SummarizeSite} {r r' : RunId} {s s' : Db}
    (happly : (Stmt.summarize site r).apply s = .ok s') : s'.summary r' = s.summary r' := by
  have hjobs : s'.jobs = s.jobs := apply_same .jobs happly rfl
  simp only [Db.summary, Db.runGraph, Db.isLeaf, Db.hasChildren, hjobs]

include K in
/-- A summary, with what is known where it is taken. The run row is no part of it, so that
    it would be the same again. -/
theorem summarizeRunRow_framed (site : SummarizeSite) {r : RunId}
    {y : ExecutionStatus → Pending} {F : Db → Prop} (hin : (Stmt.summarize site r).inner = true)
    (hsite : ∀ s, F s → Site P rr c x s (.summarize site r))
    (hmove : ∀ s, Moves s x (y (s.summary r)) (.summarize site r)) :
    Triple c (fun s => P x s ∧ F s) (summarizeRunRow site r) fun summary s =>
      P (y summary) s ∧ s.summary r = summary := by
  refine Triple.select fun s0 _ => ?_
  refine Triple.bind (Q := fun _ s => P (y (s0.summary r)) s ∧ s.summary r = s0.summary r) ?_
    fun _ => Triple.ret fun s hs => hs
  refine (K.exec (.summarize site r) (F := fun s => s = s0 ∧ F s) hin
    (fun s _ hf => hsite s hf.2) ?_ ?_).pre fun s hs => ⟨hs.2.1, hs.1, hs.2.2⟩
  · rintro s ⟨rfl, _⟩
    exact hmove s
  · rintro s s' ⟨rfl, _⟩ happly
    exact summary_summarize happly

include K in
theorem summarizeRunRow_spec (site : SummarizeSite) {r : RunId} {y : ExecutionStatus → Pending}
    (hin : (Stmt.summarize site r).inner = true)
    (hsite : ∀ s, Site P rr c x s (.summarize site r))
    (hmove : ∀ s, Moves s x (y (s.summary r)) (.summarize site r)) :
    Triple c (P x) (summarizeRunRow site r) fun summary => P (y summary) :=
  (summarizeRunRow_framed K site (F := fun _ => True) hin (fun s _ => hsite s) hmove).conseq
    (fun _ hs => ⟨hs, trivial⟩) fun _ _ hs => hs.1

include hpn K in
theorem failJobset_spec {r : RunId} {jobIds : List JobId} {status : ExecutionStatus}
    (hst : status.isTerminal = true) :
    Triple c (P x) (failJobset promoteNext r jobIds status)
      fun _ => P (x.addGone (.jobSet r jobIds)) := by
  let h : Holder := .jobSet r jobIds
  let y : Pending := (x.addExposed h).addOusted h
  have hy : ∀ s, P x s → P y s := fun s hs =>
    K.shift (.oust (x.addExposed h) h) (K.shift (.expose x h) hs)
  -- Each job of the set stays settled while the ones after it are cancelled.
  let I : List JobId → Db → Prop := fun rest s =>
    ∃ g, (∀ j ∈ jobIds, j ∈ rest ∨ .job r j ∈ g) ∧ P { y with gone := g ++ y.gone } s
  have hloop : Triple c (P y) (jobIds.forM fun j => do
      exec (.job .bumpGeneration r j)
      exec (.job (.finish .failJobset status) r j)
      retireIfExpandable r j status
      releaseConcurrencyForJob promoteNext r j) fun _ => I [] := by
    refine (Triple.forM_rest (I := I) fun j rest hj => ?_).pre
      fun s hs => ⟨[], fun j hj => .inl hj, hs⟩
    refine Triple.exists fun g => Triple.of_pure fun hg => ?_
    let z : Pending := { y with gone := g ++ y.gone }
    refine Triple.bind (Q := fun _ => P z)
      (K.keep (.job .bumpGeneration r j) rfl (fun s _ => trivial) fun s => rfl) fun _ => ?_
    refine Triple.bind (Q := fun _ s => P (z.addGone (.job r j)) s ∧ True) ?_ fun _ => ?_
    · exact (K.exec (.job (.finish .failJobset status) r j) (F := fun _ => True) rfl
        (fun s _ _ => hst) (fun s _ => rfl) fun _ _ _ _ => trivial).pre fun s hs => ⟨hs, trivial⟩
    refine Triple.bind (retireIfExpandable_spec K (Ignores.any _)) fun _ => ?_
    refine (releaseConcurrencyForJob_spec hpn K (x := z.addGone (.job r j))
      (List.mem_cons_self ..)).conseq (fun s hs => hs.1) fun _ s hs => ?_
    refine ⟨.job r j :: g, fun i hi => ?_, hs⟩
    rcases hg i hi with hmem | hmem
    · rcases List.mem_cons.mp hmem with rfl | hmem
      · exact .inr (List.mem_cons_self ..)
      · exact .inl hmem
    · exact .inr (List.mem_cons_of_mem _ hmem)
  have hrest : Triple c (P y) (do
      jobIds.forM fun j => do
        exec (.job .bumpGeneration r j)
        exec (.job (.finish .failJobset status) r j)
        retireIfExpandable r j status
        releaseConcurrencyForJob promoteNext r j
      let _ ← summarizeRunRow .failJobset r) fun _ => P (x.addGone h) := by
    refine Triple.bind hloop fun _ => Triple.exists fun g => Triple.of_pure fun hg => ?_
    refine Triple.bind (summarizeRunRow_spec K .failJobset rfl (fun s => trivial) fun s => rfl)
      fun summary => Triple.ret fun s hs => ?_
    have hset : P (({ y with gone := g ++ y.gone } : Pending).addGone h) s := by
      refine K.shift (.setSettled _ r jobIds fun j hj => .inl ?_) (K.unsettle hs)
      exact List.mem_append_left _ ((hg j hj).resolve_left List.not_mem_nil)
    have hfew : P (((x.addGone h).addExposed h).addOusted h) s :=
      K.shift (.forget (({ y with gone := g ++ y.gone } : Pending).addGone h) (h :: x.gone)
        fun a ha => by
          rcases List.mem_cons.mp ha with rfl | ha
          · exact List.mem_cons_self ..
          · exact List.mem_cons_of_mem _ (List.mem_append_right _ ha)) hset
    have hback := K.shift (.replaced ((x.addGone h).addExposed h) h (List.mem_cons_self ..)) hfew
    exact K.shift (.excuse (x.addGone h) h (.inl (List.mem_cons_self ..))) hback
  refine Triple.select fun s0 _ => ?_
  cases hfind : s0.findJobset r jobIds with
  | none => exact hrest.pre fun s hs => hy s hs.2
  | some set =>
      obtain ⟨_, set', hget, hr, hids⟩ := encodes_of_findJobset hfind
      have hset : s0.jobsets.get set.jobsetId = some set :=
        (Table.mem_select.mp (List.mem_of_head? hfind)).1
      rw [hset, Option.some.injEq] at hget
      subst hget
      refine Triple.bind ((releaseJobset_spec hpn K (x := y) ?_).pre ?_) fun _ => hrest
      · rw [hr, hids]
        exact List.mem_cons_self ..
      · rintro s ⟨rfl, hs⟩
        exact ⟨hy s hs, hset⟩

theorem allSettled_cancelRunJobs {r : RunId} {s s' : Db}
    (happly : (Stmt.cancelRunJobs r).apply s = .ok s') : s'.allSettled r := by
  intro j row' hrow'
  rcases job_of_apply happly hrow' with ⟨row, hrow, rfl⟩ | ⟨hins, _⟩
  · have hr : row.runId = r := congrArg Prod.fst (Table.key_of_get hrow)
    simp only [Stmt.onJob]
    split
    · rfl
    · next hcond =>
        rw [Bool.and_eq_true, decide_eq_true_eq, Bool.not_eq_true'] at hcond
        exact eq_true_of_ne_false fun hopen => hcond ⟨hr, hopen⟩
  · rcases hins with h | h <;> cases h

theorem Ignores.allSettled {tables : List TableName} (h : tables.contains .jobs = false)
    (r : RunId) : Ignores tables fun s => s.allSettled r := by
  intro st s s' hsub happly hs j row hrow
  have hsame : s'.jobs = s.jobs := Ignores.same .jobs h hsub happly
  rw [Db.job, hsame] at hrow
  exact hs j row hrow

theorem Ignores.runExists {tables : List TableName} (h : tables.contains .runs = false)
    (r : RunId) : Ignores tables fun s => s.runExists r = true := by
  intro st s s' hsub happly hs
  have hsame : s'.runs = s.runs := Ignores.same .runs h hsub happly
  rw [Db.runExists, Db.run, hsame]
  exact hs

include hpn K in
theorem cancelRunInner_spec {r : RunId} :
    Triple c (P x) (cancelRunInner promoteNext r) fun _ => P (x.addGone (.run r)) := by
  refine Triple.select fun s0 _ => ?_
  refine Triple.ite (fun hunknown => Triple.ret ?_) fun hknown => ?_
  -- a run that is not there is left alone, which settles what was owed for it
  · rintro s ⟨rfl, hs⟩
    rw [Bool.not_eq_true'] at hunknown
    exact K.shift (.runMissing x r hunknown) hs
  rw [Bool.not_eq_true', Bool.not_eq_false] at hknown
  refine Triple.select fun s1 _ => ?_
  refine Triple.bind (Q := fun _ s => P x s ∧ s.runExists r = true) ?_ fun counts => ?_
  · refine (Triple.mapM fun live _ => cancelAttempt_spec K (Ignores.runExists rfl r)).pre ?_
    rintro s ⟨_, rfl, hs⟩
    exact ⟨hs, hknown⟩
  -- every job of the run is settled by one statement, and stays so from here on
  refine Triple.select fun s2 _ => ?_
  let y := x.addGone (.run r)
  let F : Db → Prop := fun s => s.runExists r = true ∧ s.allSettled r
  have hF : Ignores [.requests, .cancellations] F :=
    Ignores.and (Ignores.runExists rfl r) (Ignores.allSettled rfl r)
  refine Triple.bind (Q := fun _ s => P y s ∧ F s) ?_ fun _ => ?_
  · refine (K.exec (.cancelRunJobs r) (F := fun s => s.runExists r = true) (G := F) rfl
      (fun s _ _ => trivial) (fun s _ => rfl) fun s s' hrun happly => ?_).pre fun s hs => hs.2
    have hsame : s'.runs = s.runs := apply_same .runs happly rfl
    exact ⟨by rw [Db.runExists, Db.run, hsame]; exact hrun, allSettled_cancelRunJobs happly⟩
  refine Triple.bind (Triple.forM fun j _ => retireIfExpandable_spec K hF) fun _ => ?_
  -- the completion of a run that was open is owed until it is announced
  refine Triple.select fun s3 _ => ?_
  let z := if s3.runCompleted r then y else y.addOwed r
  have hgone : .run r ∈ z.gone := by
    change .run r ∈ (if s3.runCompleted r then y else y.addOwed r).gone
    split <;> exact List.mem_cons_self ..
  refine Triple.bind (Q := fun _ => P z) ?_ fun _ => ?_
  · refine ((K.exec (.run .cancel r) (F := fun s => s = s3 ∧ F s) (G := fun _ => True) rfl
      (fun s _ hf => hf.2) ?_ fun _ _ _ _ => trivial).pre
      fun s hs => ⟨hs.2.1, hs.1, hs.2.2⟩).post fun _ s hs => hs.1
    rintro s ⟨rfl, _⟩
    rfl
  refine Triple.bind (releaseConcurrencyForRun_spec hpn K (by decide) (.inr hgone)) fun _ => ?_
  refine Triple.bind (K.keep (.deleteRunJobsets r) rfl (fun s _ => .inl hgone) fun s => rfl)
    fun _ => ?_
  cases hdone : s3.runCompleted r with
  | true =>
      refine Triple.ret fun s hs => ?_
      simpa only [z, hdone, if_true] using hs
  | false =>
      refine Triple.bind (Q := fun _ => P y) ?_ fun _ => Triple.ret fun s hs => hs
      refine (emitCompleted_spec K).pre fun s hs => ?_
      simpa only [z, hdone, Bool.false_eq_true, if_false] using hs

include hpn K in
theorem cancelJobInner_spec (fuel : Nat) {r : RunId} {j : JobId} :
    Triple c (P x) (cancelJobInner promoteNext fuel r j) fun _ => P (x.addGone (.job r j)) := by
  -- the recursion goes down to the children, one unit of fuel a level
  induction fuel generalizing x j with
  | zero => exact Triple.abort
  | succ fuel ih =>
      rw [cancelJobInner]
      refine Triple.select fun s0 _ => ?_
      -- a job that is not there counts as settled
      cases hjob : s0.job r j with
      | none =>
          refine Triple.ret ?_
          rintro s ⟨rfl, hs⟩
          refine K.shift (.jobSettled x r j fun row hrow => ?_) hs
          rw [hjob] at hrow
          cases hrow
      | some job =>
          refine Triple.select fun s1 _ => ?_
          -- the attempt in flight is retired, and a lease of the node loses its generation
          refine Triple.bind (Q := fun _ s => P x s ∧ True)
            ((cancelAttempt_spec K (Ignores.any _)).pre fun s hs => ⟨hs.2.2, trivial⟩)
            fun count => ?_
          refine Triple.bind (Q := fun _ => P x)
            ((K.keep (.job .bumpGeneration r j) rfl (fun s _ => trivial) fun s => rfl).pre
              fun s hs => hs.1) fun _ => ?_
          let y := x.addGone (.job r j)
          refine Triple.bind (Q := fun _ s => P y s ∧ True)
            ((K.exec (.job (.finish .cancelJob .cancelled) r j) (F := fun _ => True) rfl
              (fun s _ _ => rfl) (fun s _ => rfl) fun _ _ _ _ => trivial).pre
              fun s hs => ⟨hs, trivial⟩) fun _ => ?_
          -- the children of a node follow it
          refine Triple.select fun s2 _ => ?_
          refine Triple.bind (Q := fun _ => P y) ?_ fun counts => ?_
          · refine (Triple.mapM fun child _ => ?_).pre fun s hs => hs.2.1
            exact ih.post fun _ s hs => K.drop hs
          refine Triple.bind ((retireIfExpandable_spec K (Ignores.any _)).pre
            fun s hs => ⟨hs, trivial⟩) fun _ => ?_
          refine Triple.bind ((releaseConcurrencyForJob_spec hpn K (x := y)
            (List.mem_cons_self ..)).pre fun s hs => hs.1) fun _ => ?_
          refine Triple.bind (summarizeRunRow_spec K .cancelJob rfl (fun s => trivial)
            fun s => rfl) fun summary => ?_
          exact Triple.ret fun s hs => K.unsettle hs

include hpn K in
theorem cancelHolder_spec (fuel : Nat) (h : Holder) :
    Triple c (P x) (cancelHolder promoteNext fuel h) fun _ => P (x.addGone h) := by
  cases h with
  | run r => exact Triple.bind (cancelRunInner_spec hpn K) fun _ => Triple.ret fun s hs => hs
  | job r j =>
      exact Triple.bind (cancelJobInner_spec hpn K fuel) fun _ => Triple.ret fun s hs => hs
  | jobSet r jobIds => exact failJobset_spec hpn K rfl

/-! ## Admission -/

include K in
theorem displaceWaiter_spec {cancel : Holder → Cmd Unit}
    (hcancel : ∀ {y : Pending} h, Triple c (P y) (cancel h) fun _ => P (y.addGone h))
    {key : GroupKey} {arrival waiter : Holder} (hk : Known P rr waiter)
    (harrived : Arrived P c key arrival) (hon : OnGroup P key waiter) :
    Triple c (P x) (displaceWaiter cancel key arrival waiter) fun _ => P x := by
  refine Triple.bind (K.keep (.mark (.displaces key arrival waiter)) rfl
    (fun s _ => ⟨harrived, hon⟩) fun s => rfl) fun _ => ?_
  split
  · exact Triple.bind ((hcancel waiter).post fun _ s hs => K.drop hs) fun _ => removeWait_spec K hk
  · exact removeWait_spec K hk

/-- Every outcome of an admission, with what it says about the rows; an arrival
    that is turned away changed nothing. -/
def Admitted (P : Pending → Db → Prop) (x : Pending) (F : Db → Prop) (key : GroupKey) (h : Holder) :
    AcqOutcome → Db → Prop
  | .acquired, s => P x s ∧ s.names key h
  | .parked, s => P x s ∧ s.awaits h
  | .arrivalCancelled, s => P x s ∧ F s

include K in
theorem takeHold_admits {F : Db → Prop} {key : GroupKey} {display : String} {h : Holder}
    (hk : Known P rr h) (harrived : Arrived P c key h) :
    Triple c (P (x.addFree key)) (do
      takeHold key display h
      pure AcqOutcome.acquired) (Admitted P x F key h) :=
  Triple.bind ((takeHold_spec K hk (.inl harrived) (Ignores.any _)).pre fun _ hs =>
    ⟨hs, trivial⟩) fun _ =>
    Triple.ret fun _ hs => ⟨hs.1, hs.2.2⟩

include K in
theorem enqueueWait_admits {F : Db → Prop} {key : GroupKey} {h : Holder} (hk : Known P rr h)
    (harrived : Arrived P c key h) :
    Triple c (P x) (do
      enqueueWait key h
      pure AcqOutcome.parked) (Admitted P x F key h) :=
  Triple.bind (enqueueWait_spec K hk harrived) fun _ => Triple.ret fun _ hs => hs

theorem Ignores.runStuck (r : RunId) :
    Ignores [.jobsets, .holds] fun s => s.runStuck r = true := by
  intro st s s' hsub happly hs
  have hruns : s'.runs = s.runs := Ignores.same .runs rfl hsub happly
  have hjobs : s'.jobs = s.jobs := Ignores.same .jobs rfl hsub happly
  have hrunners : s'.runners = s.runners := Ignores.same .runners rfl hsub happly
  simp only [Db.runStuck, Db.platforms, Db.runExists, Db.run, Db.jobsOf, hruns, hjobs,
    hrunners] at hs ⊢
  exact hs

include K in
theorem acquire_spec {cancel : Holder → Cmd Unit}
    (hcancel : ∀ {y : Pending} h, Triple c (P y) (cancel h) fun _ => P (y.addGone h))
    {key : GroupKey} {display : String} {h : Holder} {cancelInProgress : Bool}
    {queue : ConcurrencyQueue} (hk : Known P rr h) {F : Db → Prop} :
    Triple c (fun s => P x s ∧ F s) (acquire cancel key display h cancelInProgress queue)
      (Admitted P x F key h) := by
  -- the arrival itself is only marked; from it on others may be put off
  refine Triple.bind (Triple.issued (K.exec (.mark (.arrives key h)) (y := x) (F := F) (G := F) rfl
    (fun s _ _ => trivial) (fun s _ => rfl) fun s s' hf happly => ?_)) fun _ => ?_
  · exact Except.ok.inj happly ▸ hf
  refine Triple.of_pure fun hrely => ?_
  have harrived : Arrived P c key h :=
    hrely.imp fun s hs => ⟨⟨x, hs.1.1⟩, hs.2⟩
  refine Triple.select fun s0 hs0 => Triple.select fun s1 hs1 => ?_
  refine Triple.select fun s2 _ => Triple.ite (fun _ => ?_) fun _ => ?_
  -- the holder reads who holds the group and who waits before it decides
  · exact Triple.ret fun _ hs => hs.2.2.2
  refine Triple.select fun s3 hs3 => ?_
  obtain ⟨hs10, _⟩ := hs1
  obtain ⟨_, hs31, _⟩ := hs3
  have hpast : Past P s0 := ⟨x, hs0.1⟩
  subst hs10
  -- all who wait are displaced, each after the read that found it waiting
  have hdisplace : Triple c (P x) (((s1.waiters key).map Prod.snd).forM
      (displaceWaiter cancel key h)) fun _ => P x := by
    refine Triple.forM fun w hw => ?_
    obtain ⟨⟨id, w⟩, hmem, rfl⟩ := List.mem_map.mp hw
    obtain ⟨row, hget, hkey, rfl⟩ := mem_waiters hmem
    exact displaceWaiter_spec K hcancel (known_of_wait hpast hget) harrived
      ⟨s1, hpast, .inr ⟨id, row, hget, hkey, rfl⟩⟩
  -- whoever holds the group is known, since its row was there at the read
  have hcurrent : ∀ w, (s1.holdRow key).map Prod.fst = some w →
      Known P rr w ∧ OnGroup P key w := by
    intro w hw
    obtain ⟨⟨w, d⟩, hrow, rfl⟩ := Option.map_eq_some_iff.mp hw
    obtain ⟨row, hget, heq⟩ := Option.map_eq_some_iff.mp hrow
    rw [Prod.mk.injEq] at heq
    exact heq.1 ▸ ⟨known_of_hold hpast hget, s1, hpast, .inl ⟨row, hget, rfl⟩⟩
  split
  -- the run of the holder is stuck: its hold is released and taken over
  · next _ w hw hstuck =>
      rw [hw, Option.any_some] at hstuck
      refine Triple.bind ((K.carry (.mark (.displaces key h w)) (x := x)
        (F := fun s => s.runStuck w.runId = true) rfl
        (fun s _ => ⟨harrived, (hcurrent w hw).2⟩) (fun s => rfl)
        (Ignores.runStuck w.runId) rfl).pre ?_) fun _ => ?_
      · rintro s ⟨rfl, hs⟩
        exact ⟨hs.2.2.2.1, hstuck⟩
      refine Triple.bind (Q := fun _ => P (x.addFree key)) ?_
        fun _ => takeHold_admits K hk harrived
      refine (releaseHold_spec K .stuck (x := x) (F := fun s => s.runStuck w.runId = true)
        (hcurrent w hw).1 (fun s _ hf => hf) (Ignores.runStuck w.runId)).conseq ?_
        fun owned s hs => ?_
      · exact fun s hs => hs
      · cases owned with
        | true => exact hs.1
        | false => exact K.shift (.free x key) hs.1
  · split
    -- the holder is displaced and canceled in favour of the arrival
    · next _ w hadmit hw =>
        refine Triple.bind (hdisplace.pre fun s hs => hs.2.2.2.2.1) fun _ => ?_
        refine Triple.bind (K.keep (.mark (.displaces key h w)) rfl
          (fun s _ => ⟨harrived, (hcurrent w hw).2⟩) fun s => rfl) fun _ => ?_
        let y := (x.addOusted w).addFree key
        refine Triple.bind (Q := fun _ => P y) ?_ fun _ => ?_
        · refine (releaseHold_spec K .displaced (x := x.addOusted w) (hcurrent w hw).1
            (fun s _ _ => List.mem_cons_self ..) (Ignores.any _)).conseq ?_ fun owned s hs => ?_
          · exact fun s hs => ⟨K.shift (.oust x w) hs, trivial⟩
          · cases owned with
            | true => exact hs.1
            | false => exact K.shift (.free (x.addOusted w) key) hs.1
        -- a run is not admitted over itself, so the canceled run is another one
        have hother : w.runId ≠ h.runId := by
          intro heq
          rw [hw, Option.map_some, heq, concurrencyAdmission, if_pos rfl] at hadmit
          split at hadmit <;> cases hadmit
        dsimp only
        rw [if_pos hother]
        refine Triple.bind ((hcancel w).post fun _ s hs => ?_)
          fun _ => takeHold_admits K hk harrived
        exact K.drop (K.shift (.replaced ((x.addFree key).addGone w) w (List.mem_cons_self ..)) hs)
    · split
      -- the arrival waits behind the holder, in the place of those who waited or after them
      · exact Triple.ret fun s hs => hs.2.2.2.2
      · exact Triple.bind (hdisplace.pre fun s hs => hs.2.2.2.2.1) fun _ =>
          enqueueWait_admits K hk harrived
      · exact (enqueueWait_admits K hk harrived).pre fun s hs => hs.2.2.2.2.1
    · exact (takeHold_admits K hk harrived).pre fun s hs => K.shift (.free x key) hs.2.2.2.2.1

/-! ## Settlement -/

include hpn K in
theorem cancelSibling_spec {r : RunId} {base : String} {sibling : Job × Option Request} :
    Triple c (P x) (cancelSibling promoteNext r base sibling) fun _ => P x := by
  refine Triple.bind ((cancelAttempt_spec K (Ignores.any _)).pre fun s hs => ⟨hs, trivial⟩)
    fun _ => ?_
  let y := x.addGone (.job r sibling.1.jobId)
  refine Triple.bind (Q := fun _ s => P y s ∧ True)
    ((K.exec (.job (.finish .failFast .cancelled) r sibling.1.jobId) (F := fun _ => True) rfl
      (fun s _ _ => rfl) (fun s _ => rfl) fun _ _ _ _ => trivial).pre
      fun s hs => ⟨hs.1, trivial⟩) fun _ => ?_
  refine Triple.bind ((releaseConcurrencyForJob_spec hpn K (x := y)
    (List.mem_cons_self ..)).pre fun s hs => hs.1) fun _ => ?_
  exact (K.keep (.refreshRemainingNeeds r sibling.1.jobId base) rfl (fun s _ => trivial)
    fun s => rfl).post fun _ s hs => K.drop hs

include hpn K in
/-- The summary after the siblings replaces the one taken before them, and nothing happened
    since it was taken. -/
theorem applyFailFast_spec {r : RunId} {failed : JobId} {first : ExecutionStatus} :
    Triple c (P (x.conclude r first)) (applyFailFast promoteNext first.isTerminal r failed)
      fun cancelled s => ∃ summary, (cancelled = [] → summary = first) ∧
        P (x.conclude r summary) s ∧ (cancelled ≠ [] → s.summary r = summary) := by
  have hnone : ∀ s, P (x.conclude r first) s → ∃ summary,
      (([] : List JobId) = [] → summary = first) ∧ P (x.conclude r summary) s ∧
        (([] : List JobId) ≠ [] → s.summary r = summary) :=
    fun s hs => ⟨first, fun _ => rfl, hs, fun hne => absurd rfl hne⟩
  refine Triple.select fun s0 _ => ?_
  cases hjob : s0.job r failed with
  | none => exact Triple.ret fun s hs => hnone s hs.2
  | some job =>
      refine Triple.select fun s1 _ => Triple.ite (fun _ => ?_) fun _ => ?_
      · exact Triple.ret fun s hs => hnone s hs.2.2
      refine Triple.select fun s2 _ => ?_
      refine Triple.bind ((Triple.forM fun sibling _ => cancelSibling_spec hpn K).pre
        fun s hs => hs.2.2.2) fun _ => ?_
      cases hsib : s2.siblings r job.baseId failed with
      | nil => exact Triple.ret fun s hs => hnone s hs
      | cons sibling rest =>
          refine Triple.bind ((summarizeRunRow_framed K (.failFast first.isTerminal)
            (F := fun _ => True) rfl (fun s _ => ⟨x, first, rfl, rfl⟩)
            fun s => ⟨x, first, rfl, rfl⟩).pre fun s hs => ⟨hs, trivial⟩) fun summary => ?_
          refine Triple.ret fun s hs => ⟨summary, fun hnil => ?_, hs.1, fun _ => hs.2⟩
          exact absurd hnil (by simp only [List.map_cons, reduceCtorEq, not_false_eq_true])

include hpn K in
theorem concludeRun_spec {r : RunId} {summary : ExecutionStatus} :
    Triple c (P (x.conclude r summary)) (concludeRun promoteNext r summary) fun _ => P x := by
  unfold concludeRun
  cases hterm : summary.isTerminal with
  | false =>
      refine Triple.ret fun s hs => K.shift (.unowed x r) ?_
      simpa only [Pending.conclude, Pending.settle, hterm, Bool.false_eq_true, if_false] using hs
  | true =>
      have hconclude : x.conclude r summary = (x.addGone (.run r)).addOwed r := by
        simp only [Pending.conclude, Pending.settle, hterm, if_true, Pending.addOwed,
          Pending.addGone]
      rw [hconclude]
      refine Triple.bind (releaseConcurrencyForRun_spec hpn K
        (x := (x.addGone (.run r)).addOwed r) (by decide) (.inr (List.mem_cons_self ..)))
        fun _ => ?_
      exact (emitCompleted_spec K).post fun _ s hs => K.drop hs

include hpn K in
/-- Settling a node, with its first write apart: what is known before it need not
    be the invariant that the rest of the transaction keeps. -/
theorem settleNode_from {Q : Db → Prop} {r : RunId} {j : JobId} {reported : ExecutionStatus}
    (hrep : reported.isTerminal = true)
    (hsettled : ∀ s, Q s → (∀ row, s.job r j = some row → row.status.isTerminal = true) →
      P (x.addGone (.job r j)) s)
    (hfinish : ∀ s s' status, Q s → status.isTerminal = true →
      c.rely (.job (.finish .settleNode status) r j) s →
      (Stmt.job (.finish .settleNode status) r j).apply s = .ok s' →
      P (x.addGone (.job r j)) s' ∧ c.guar (.job (.finish .settleNode status) r j) s) :
    Triple c Q (settleNode promoteNext r j reported) fun _ => P (x.addGone (.job r j)) := by
  refine Triple.select fun s0 _ => ?_
  -- no such node: there is nothing to settle
  cases hjob : s0.job r j with
  | none =>
      refine Triple.ret ?_
      rintro s ⟨rfl, hs⟩
      refine hsettled s hs fun row hrow => ?_
      rw [hjob] at hrow
      cases hrow
  | some job =>
      -- a node that is settled already is left as it is
      refine Triple.ite (fun hterm => Triple.ret ?_) fun _ => ?_
      · rintro s ⟨rfl, hs⟩
        rw [Bool.and_eq_true] at hterm
        refine hsettled s hs fun row hrow => ?_
        rw [hjob, Option.some.injEq] at hrow
        exact hrow ▸ hterm.1
      let effective := effectiveStatus job.status reported (job.spec.continueOnError.getD false)
      let y := x.addGone (.job r j)
      refine Triple.select fun s1 _ => ?_
      -- the first write ends the node; from here on the invariant of the rest holds
      refine Triple.bind (Q := fun _ => P y) (Triple.issue fun s s' hs hrely happly =>
        hfinish s s' effective hs.2.2 (effectiveStatus_terminal hrep) hrely happly) fun _ => ?_
      refine Triple.bind (K.keep (.refreshRemainingNeeds r j job.baseId) rfl
        (fun s _ => trivial) fun s => rfl) fun _ => ?_
      refine Triple.bind (summarizeRunRow_spec K .settleNode rfl (fun s => trivial)
        fun s => rfl) fun first => ?_
      -- the rest is the same whether fail-fast cancels siblings or not
      have hrest : ∀ (cancelled : List JobId) (summary : ExecutionStatus),
          Triple c (P (y.conclude r summary)) (do
            settleRequestsForJob r j effective
            releaseConcurrencyForJob promoteNext r j
            concludeRun promoteNext r summary
            let ns ← Tx.select fun s : Db => s.namespaceOf r
            emitJob ns .jobCompleted r j (some effective)
            pure (⟨effective, false, cancelled, first = .success && !s1.runCompleted r⟩ :
              SettleEffects)) fun _ => P y := by
        intro cancelled summary
        have hgone : .job r j ∈ (y.conclude r summary).gone := by
          unfold Pending.conclude Pending.settle
          split
          · exact List.mem_cons_of_mem _ (List.mem_cons_self ..)
          · exact List.mem_cons_self ..
        refine Triple.bind ((settleRequestsForJob_spec K (Ignores.any _)).pre
          fun s hs => ⟨hs, trivial⟩) fun _ => ?_
        refine Triple.bind ((releaseConcurrencyForJob_spec hpn K hgone).pre fun s hs => hs.1)
          fun _ => ?_
        refine Triple.bind (concludeRun_spec hpn K) fun _ => ?_
        refine Triple.select fun s2 _ => ?_
        refine Triple.bind ((emitJob_spec K (by decide)).pre fun s hs => hs.2) fun _ => ?_
        exact Triple.ret fun s hs => hs
      refine Triple.ite (fun _ => ?_) fun _ => ?_
      · refine Triple.bind (applyFailFast_spec hpn K) fun cancelled => ?_
        refine Triple.exists fun before => Triple.of_pure fun hbefore => ?_
        cases cancelled with
        -- nothing was cancelled, so the first summary of the run still stands
        | nil =>
            rw [hbefore rfl]
            exact Triple.ret_bind ((hrest [] first).pre fun s hs => hs.1)
        | cons j' rest =>
            -- siblings were cancelled, so the run is summarized again
            refine Triple.bind ((summarizeRunRow_framed K .settleAgain
              (F := fun s => s.summary r = before) rfl ?_ fun s => ⟨y, before, rfl, rfl⟩).pre
                fun s hs => ⟨hs.1, hs.2 (List.cons_ne_nil j' rest)⟩)
              fun summary => (hrest (j' :: rest) summary).pre fun s hs => hs.1
            rintro s rfl
            exact ⟨y, rfl⟩
      · exact Triple.ret_bind (Triple.ret_bind (hrest [] first))

include hpn K in
/-- After a settlement the job is settled. -/
theorem settleNode_spec {r : RunId} {j : JobId} {reported : ExecutionStatus}
    (hrep : reported.isTerminal = true) :
    Triple c (P x) (settleNode promoteNext r j reported) fun _ => P (x.addGone (.job r j)) :=
  settleNode_from hpn K hrep (fun _ hs hall => K.shift (.jobSettled x r j hall) hs)
    fun _ _ _ hs hst hrely happly => K.step rfl hst rfl hs hrely happly

end Release

end Preloop
