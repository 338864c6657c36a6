import PreloopControl.Worker.StepUpdates

/-!
# Step Updates are Not Lost

The latest state of a step is in a body the server acknowledged, or its key is dirty,
or some flush still holds it. Every move keeps that, but for the abort of a flush: what
it held is in nobody's hands then. And once nothing is left to publish the state has to
be in an acknowledged body, which the mark of a flush does not see to while another
flush still holds states, or has put some back.

## Main definitions

* `Reporting.AllSent`: The server has the latest state of every step.
* `plainMoves`: Aborts and marks under the conditions on which nothing is lost.

## Theorems

* `accounted_step`: A plain move loses no state.
* `step_updates_sent`: Every plain run, and the last flush after it.
-/

namespace Preloop

namespace Worker

/-- An acknowledged body has this state. -/
def Reporting.Sent (s : Reporting) (u : StepUpdate) : Prop :=
  ∃ body ∈ s.acknowledged, u ∈ body.steps

/-- The server has the latest state of every step. -/
def Reporting.AllSent (s : Reporting) : Prop :=
  ∀ key u, s.queue.allSteps.lookup key = some u → s.Sent u

/-- An abort loses nothing: what the flush holds is outdated or dirty again. -/
def FlushCall.Abortable (s : Reporting) (call : FlushCall) : Prop :=
  ∀ u ∈ call.held,
    s.queue.allSteps.lookup u.externalId ≠ some u ∨ u.externalId ∈ s.queue.dirtyKeys

/-- A mark that leaves nothing to publish is the last one: no state was put back, and
    no other flush holds any. -/
def FlushCall.Conclusive (others : List FlushCall) (s : Reporting) (call : FlushCall) : Prop :=
  ∀ generation, call = .posted generation → s.queue.hasStepUpdates = true →
    max s.queue.publishedGeneration generation = s.queue.stepsGeneration →
      s.queue.dirtyKeys = [] ∧ ∀ other ∈ others, other.held = []

/-- The moves of `flushMoves` on which nothing is lost. The generation does not wrap
    around to the published one. -/
def plainMoves : Interleave.Moves Reporting FlushCall where
  env s s' := s.queue.nextGeneration ≠ s.queue.publishedGeneration ∧
    ∃ update, s' = { s with queue := s.queue.queueUpdate update }
  start call := call = .begun
  act others s call s' call' :=
    (∃ keys ok, keys.Perm s.queue.dirtyKeys ∧ call.advance keys ok s = (s', call') ∧
      call.Conclusive others s) ∨
    (s' = s ∧ call' = .returned ∧ call.Abortable s)

/-- Plain runs are runs. -/
theorem run_of_plain {w w' : Interleave.World Reporting FlushCall}
    (h : Interleave.Run plainMoves w w') : Interleave.Run flushMoves w w' := by
  refine h.mono ?_ ?_ ?_
  · intro s s' henv
    exact henv.2
  · intro call hcall
    exact hcall
  · intro others s call s' call' hact
    rcases hact with ⟨keys, ok, hperm, hadvance, _⟩ | ⟨hs, hcall, _⟩
    · exact .inl ⟨keys, ok, hperm, hadvance⟩
    · exact .inr ⟨hs, hcall⟩

/-! ## Operations on the queue -/

theorem hasStepUpdates_eq_false {q : ServerQueue} :
    q.hasStepUpdates = false ↔ q.stepsGeneration = q.publishedGeneration := by
  simp [ServerQueue.hasStepUpdates]

/-- An update changes nothing, or one state, which is dirty then. -/
theorem queueUpdate_cases (update : StepUpdate) (q : ServerQueue) :
    q.queueUpdate update = q ∨
      ∃ merged, merged.externalId = update.externalId ∧
        q.queueUpdate update =
          { q with
            dirtyKeys := q.dirtyKeys.insert update.externalId
            stepsGeneration := q.nextGeneration
            allSteps := q.allSteps.insert update.externalId merged } := by
  unfold ServerQueue.queueUpdate
  by_cases hsame : q.allSteps.lookup update.externalId =
      some (mergeStepUpdate (q.allSteps.lookup update.externalId) (.fromFull update))
  · exact .inl (if_pos hsame)
  · refine .inr ⟨mergeStepUpdate (q.allSteps.lookup update.externalId) (.fromFull update), rfl, ?_⟩
    exact if_neg hsame

/-- What a take puts into the body, and what it leaves. -/
theorem take_some {keys : List Text} {q q' : ServerQueue} {body : StepsUpdateBody}
    {generation : Nat} (h : q.takeStepsUpdateBody keys = some (body, generation, q')) :
    (∀ u, u ∈ body.steps ↔ ∃ key ∈ keys, q.allSteps.lookup key = some u) ∧
      q'.allSteps = q.allSteps ∧ q'.dirtyKeys = [] ∧ q'.hasStepUpdates = true := by
  unfold ServerQueue.takeStepsUpdateBody at h
  by_cases hnone : q.stepsGeneration = q.publishedGeneration
  · rw [if_pos hnone] at h
    cases h
  · rw [if_neg hnone] at h
    cases h
    refine ⟨fun u => ?_, rfl, rfl, by simpa [ServerQueue.hasStepUpdates] using hnone⟩
    rw [List.mem_mergeSort, List.mem_filterMap]

/-- A requeue makes the keys of the steps dirty, besides those that are. -/
theorem mem_requeue (key : Text) (steps : List StepUpdate) :
    ∀ q : ServerQueue, key ∈ (q.requeueSteps steps).dirtyKeys ↔
      key ∈ q.dirtyKeys ∨ ∃ u ∈ steps, u.externalId = key := by
  induction steps with
  | nil =>
      intro q
      simp [ServerQueue.requeueSteps]
  | cons step steps ih =>
      intro q
      have hcons : q.requeueSteps (step :: steps) =
          { q with dirtyKeys := q.dirtyKeys.insert step.externalId }.requeueSteps steps := rfl
      rw [hcons, ih]
      simp only [List.mem_insert_iff, List.exists_mem_cons_iff]
      tauto

/-! ## Nothing is lost -/

/-- Every latest state is sent, dirty or held, and sent once nothing is left to
    publish. -/
structure Accounted (w : Interleave.World Reporting FlushCall) : Prop where
  keyed : ∀ key u, w.shared.queue.allSteps.lookup key = some u → u.externalId = key
  accounted : ∀ key u, w.shared.queue.allSteps.lookup key = some u →
    w.shared.Sent u ∨ key ∈ w.shared.queue.dirtyKeys ∨ ∃ call ∈ w.procs, u ∈ call.held
  published : w.shared.queue.hasStepUpdates = false → w.shared.AllSent

section Accounted

variable {s s' : Reporting} {l r : List FlushCall} {call call' : FlushCall}

/-- The flush that moves holds a state, or one of the others does. -/
theorem held_split {u : StepUpdate} :
    (∃ c ∈ l ++ call :: r, u ∈ c.held) ↔ u ∈ call.held ∨ ∃ c ∈ l ++ r, u ∈ c.held := by
  simp only [List.mem_append, List.mem_cons]
  constructor
  · rintro ⟨c, hc | rfl | hc, hu⟩
    · exact .inr ⟨c, .inl hc, hu⟩
    · exact .inl hu
    · exact .inr ⟨c, .inr hc, hu⟩
  · rintro (hu | ⟨c, hc | hc, hu⟩)
    · exact ⟨call, .inr (.inl rfl), hu⟩
    · exact ⟨c, .inl hc, hu⟩
    · exact ⟨c, .inr (.inr hc), hu⟩

/-- An update leaves its own state dirty and the others as they are. -/
theorem accounted_update {ps : List FlushCall} (update : StepUpdate)
    (hw : Accounted ⟨s, ps⟩) (hnext : s.queue.nextGeneration ≠ s.queue.publishedGeneration) :
    Accounted ⟨{ s with queue := s.queue.queueUpdate update }, ps⟩ := by
  rcases queueUpdate_cases update s.queue with hsame | ⟨merged, hkey, hq⟩
  · rw [hsame]
    exact hw
  · rw [hq]
    -- The new state, and every other one.
    have hlookup : ∀ key u,
        (s.queue.allSteps.insert update.externalId merged).lookup key = some u →
          (key = update.externalId ∧ u = merged) ∨ s.queue.allSteps.lookup key = some u := by
      intro key u hu
      rw [SortedMap.lookup_insert] at hu
      by_cases heq : update.externalId = key
      · rw [if_pos heq, Option.some.injEq] at hu
        exact .inl ⟨heq.symm, hu.symm⟩
      · rw [if_neg heq] at hu
        exact .inr hu
    refine ⟨fun key u hu => ?_, fun key u hu => ?_, fun hpublished => ?_⟩
    · rcases hlookup key u hu with ⟨rfl, rfl⟩ | hold
      · exact hkey
      · exact hw.keyed key u hold
    · rcases hlookup key u hu with ⟨rfl, rfl⟩ | hold
      · exact .inr (.inl (List.mem_insert_iff.mpr (.inl rfl)))
      · rcases hw.accounted key u hold with hsent | hdirty | hheld
        · exact .inl hsent
        · exact .inr (.inl (List.mem_insert_iff.mpr (.inr hdirty)))
        · exact .inr (.inr hheld)
    · -- The generation moved away from the published one.
      exact absurd (hasStepUpdates_eq_false.mp hpublished) hnext

/-- A take moves the dirty states into the body of the flush. -/
theorem accounted_take {keys : List Text} {body : StepsUpdateBody} {generation : Nat}
    {q : ServerQueue} (hw : Accounted ⟨s, l ++ .begun :: r⟩)
    (hperm : keys.Perm s.queue.dirtyKeys)
    (htake : s.queue.takeStepsUpdateBody keys = some (body, generation, q)) :
    Accounted ⟨{ s with queue := q }, l ++ .posting body generation :: r⟩ := by
  rcases take_some htake with ⟨hbody, hsteps, _, hupdates⟩
  refine ⟨fun key u hu => ?_, fun key u hu => ?_, fun hpublished => ?_⟩
  · exact hw.keyed key u (by rw [← hsteps]; exact hu)
  · have hold : s.queue.allSteps.lookup key = some u := by
      rw [← hsteps]
      exact hu
    rcases hw.accounted key u hold with hsent | hdirty | hheld
    · exact .inl hsent
    · -- What was dirty is in the body.
      exact .inr (.inr
        (held_split.mpr (.inl ((hbody u).mpr ⟨key, hperm.mem_iff.mpr hdirty, hold⟩))))
    · rcases held_split.mp hheld with hnone | hother
      · exact absurd hnone List.not_mem_nil
      · exact .inr (.inr (held_split.mpr (.inr hother)))
  · rw [hupdates] at hpublished
    cases hpublished

/-- An acknowledged body has the states the flush held. -/
theorem accounted_ack {body : StepsUpdateBody} {generation : Nat}
    (hw : Accounted ⟨s, l ++ .posting body generation :: r⟩) :
    Accounted ⟨{ s with acknowledged := body :: s.acknowledged }, l ++
      .posted generation :: r⟩ := by
  have hsent : ∀ u, s.Sent u →
      Reporting.Sent { s with acknowledged := body :: s.acknowledged } u := by
    rintro u ⟨sent, hmem, hu⟩
    exact ⟨sent, List.mem_cons_of_mem body hmem, hu⟩
  refine ⟨hw.keyed, fun key u hu => ?_, fun hpublished key u hu => ?_⟩
  · rcases hw.accounted key u hu with h | hdirty | hheld
    · exact .inl (hsent u h)
    · exact .inr (.inl hdirty)
    · rcases held_split.mp hheld with hbody | hother
      · exact .inl ⟨body, List.mem_cons_self, hbody⟩
      · exact .inr (.inr (held_split.mpr (.inr hother)))
  · exact hsent u (hw.published hpublished key u hu)

/-- A flush holds the same states after its post failed. -/
theorem accounted_fail {body : StepsUpdateBody} {generation : Nat}
    (hw : Accounted ⟨s, l ++ .posting body generation :: r⟩) :
    Accounted ⟨s, l ++ .failed body :: r⟩ := by
  refine ⟨hw.keyed, fun key u hu => ?_, hw.published⟩
  rcases hw.accounted key u hu with hsent | hdirty | hheld
  · exact .inl hsent
  · exact .inr (.inl hdirty)
  · rcases held_split.mp hheld with hbody | hother
    · exact .inr (.inr (held_split.mpr (.inl hbody)))
    · exact .inr (.inr (held_split.mpr (.inr hother)))

/-- A requeue makes what the flush held dirty. -/
theorem accounted_requeue {body : StepsUpdateBody} (hw : Accounted ⟨s, l ++ .failed body :: r⟩) :
    Accounted ⟨{ s with queue := s.queue.requeueSteps body.steps }, l ++ .returned :: r⟩ := by
  refine ⟨hw.keyed, fun key u hu => ?_, hw.published⟩
  rcases hw.accounted key u hu with hsent | hdirty | hheld
  · exact .inl hsent
  · exact .inr (.inl ((mem_requeue key body.steps s.queue).mpr (.inl hdirty)))
  · rcases held_split.mp hheld with hbody | hother
    · have hkey : u.externalId = key := hw.keyed key u hu
      exact .inr (.inl ((mem_requeue key body.steps s.queue).mpr (.inr ⟨u, hbody, hkey⟩)))
    · exact .inr (.inr (held_split.mpr (.inr hother)))

/-- A conclusive mark finds everything sent. -/
theorem accounted_mark {generation : Nat} (hw : Accounted ⟨s, l ++ .posted generation :: r⟩)
    (hlast : (FlushCall.posted generation).Conclusive (l ++ r) s) :
    Accounted ⟨{ s with queue := s.queue.markStepsPublished generation },
      l ++ .returned :: r⟩ := by
  refine ⟨hw.keyed, fun key u hu => ?_, fun hpublished key u hu => ?_⟩
  · rcases hw.accounted key u hu with hsent | hdirty | hheld
    · exact .inl hsent
    · exact .inr (.inl hdirty)
    · rcases held_split.mp hheld with hnone | hother
      · exact absurd hnone List.not_mem_nil
      · exact .inr (.inr (held_split.mpr (.inr hother)))
  · cases hbefore : s.queue.hasStepUpdates with
    | false => exact hw.published hbefore key u hu
    | true =>
        -- The mark closes the gap, so it has to be the last one.
        have hgap : max s.queue.publishedGeneration generation = s.queue.stepsGeneration :=
          (hasStepUpdates_eq_false.mp hpublished).symm
        rcases hlast generation rfl hbefore hgap with ⟨hclean, hothers⟩
        rcases hw.accounted key u hu with hsent | hdirty | hheld
        · exact hsent
        · rw [hclean] at hdirty
          exact absurd hdirty List.not_mem_nil
        · rcases held_split.mp hheld with hnone | ⟨c, hc, hu⟩
          · exact absurd hnone List.not_mem_nil
          · rw [hothers c hc] at hu
            exact absurd hu List.not_mem_nil

/-- An abort drops states that are outdated or dirty. -/
theorem accounted_abort (hw : Accounted ⟨s, l ++ call :: r⟩) (habort : call.Abortable s) :
    Accounted ⟨s, l ++ .returned :: r⟩ := by
  refine ⟨hw.keyed, fun key u hu => ?_, hw.published⟩
  rcases hw.accounted key u hu with hsent | hdirty | hheld
  · exact .inl hsent
  · exact .inr (.inl hdirty)
  · rcases held_split.mp hheld with hdropped | hother
    · have hkey : u.externalId = key := hw.keyed key u hu
      rcases habort u hdropped with hold | hdirty
      · rw [hkey] at hold
        exact absurd hu hold
      · exact .inr (.inl (hkey ▸ hdirty))
    · exact .inr (.inr (held_split.mpr (.inr hother)))

/-- A flush that advances loses no state. -/
theorem accounted_advance {keys : List Text} {ok : Bool} (hw : Accounted ⟨s, l ++ call :: r⟩)
    (hperm : keys.Perm s.queue.dirtyKeys) (hadvance : call.advance keys ok s = (s', call'))
    (hlast : call.Conclusive (l ++ r) s) : Accounted ⟨s', l ++ call' :: r⟩ := by
  -- the cases are where the flush stands
  cases call with
  | begun =>
      simp only [FlushCall.advance] at hadvance
      -- with nothing to send the flush ends, and loses nothing
      cases htake : s.queue.takeStepsUpdateBody keys with
      | none =>
          rw [htake] at hadvance
          cases hadvance
          exact accounted_abort hw fun u hu => absurd hu List.not_mem_nil
      | some took =>
          rcases took with ⟨body, generation, q⟩
          rw [htake] at hadvance
          cases hadvance
          exact accounted_take hw hperm htake
  | posting body generation =>
      -- the answer moves the flush on to where it is settled
      cases ok with
      | true =>
          cases hadvance
          exact accounted_ack hw
      | false =>
          cases hadvance
          exact accounted_fail hw
  | posted generation =>
      cases hadvance
      exact accounted_mark hw hlast
  | failed body =>
      cases hadvance
      exact accounted_requeue hw
  | returned =>
      cases hadvance
      exact hw

end Accounted

/-- A plain move loses no state. -/
theorem accounted_step {w w' : Interleave.World Reporting FlushCall} (hw : Accounted w)
    (hstep : Interleave.Step plainMoves w w') : Accounted w' := by
  cases hstep with
  | env henv =>
      rcases henv with ⟨hnext, update, rfl⟩
      exact accounted_update update hw hnext
  | @start s ps call hcall =>
      refine ⟨hw.keyed, fun key u hu => ?_, hw.published⟩
      rcases hw.accounted key u hu with hsent | hdirty | ⟨c, hc, hheld⟩
      · exact .inl hsent
      · exact .inr (.inl hdirty)
      · exact .inr (.inr ⟨c, List.mem_append_left _ hc, hheld⟩)
  | move hact =>
      rcases hact with ⟨keys, ok, hperm, hadvance, hlast⟩ | ⟨rfl, rfl, habort⟩
      · exact accounted_advance hw hperm hadvance hlast
      · exact accounted_abort hw habort

theorem accounted_run {jobId planId : Text} {w : Interleave.World Reporting FlushCall}
    (hrun : Interleave.Run plainMoves ⟨.new jobId planId, []⟩ w) : Accounted w := by
  refine hrun.induct (fun hw hstep => accounted_step hw hstep) ⟨?_, ?_, ?_⟩
  · intro key u hu
    cases hu
  · intro key u hu
    cases hu
  · intro _ key u hu
    cases hu

/-- A flush that goes through in one piece sends every dirty state. -/
theorem allSent_of_flush {w : Interleave.World Reporting FlushCall} (hw : Accounted w)
    (hheld : ∀ call ∈ w.procs, call.held = []) {keys : List Text}
    (hperm : keys.Perm w.shared.queue.dirtyKeys) :
    (w.shared.flushStepUpdates keys true).AllSent := by
  unfold Reporting.flushStepUpdates
  simp only [FlushCall.advance]
  cases htake : w.shared.queue.takeStepsUpdateBody keys with
  | none =>
      -- Nothing to publish: everything was sent before.
      have hnothing : w.shared.queue.hasStepUpdates = false := by
        unfold ServerQueue.takeStepsUpdateBody at htake
        simpa [ServerQueue.hasStepUpdates] using htake
      exact hw.published hnothing
  | some took =>
      rcases took with ⟨body, generation, q⟩
      rcases take_some htake with ⟨hbody, hsteps, _, _⟩
      intro key u hu
      have hold : w.shared.queue.allSteps.lookup key = some u := by
        rw [← hsteps]
        exact hu
      rcases hw.accounted key u hold with ⟨sent, hmem, hsent⟩ | hdirty | ⟨c, hc, hu⟩
      · exact ⟨sent, List.mem_cons_of_mem body hmem, hsent⟩
      · exact ⟨body, List.mem_cons_self, (hbody u).mpr ⟨key, hperm.mem_iff.mpr hdirty, hold⟩⟩
      · rw [hheld c hc] at hu
        exact absurd hu List.not_mem_nil

/-- A step that is done. -/
def buildDone : StepUpdate where
  externalId := "build".toList
  number := 1
  name := "Build".toList
  status := statusCompleted
  startedAt := none
  completedAt := some "12:00".toList
  conclusion := 2

/-- The step is queued. -/
def buildQueued : Reporting :=
  { Reporting.new "job".toList "plan".toList with
    queue := (ServerQueue.new "job".toList "plan".toList).queueUpdate buildDone }

/-- The body that reports it. -/
def buildBody : StepsUpdateBody := ⟨[buildDone], 1, "job".toList, "plan".toList⟩

/-- The step is queued and the drain task has taken it. -/
def buildTaken : Reporting :=
  { buildQueued with queue := { buildQueued.queue with dirtyKeys := [], changeOrder := 1 } }

/-- The post of the drain task failed, and the step is queued again. -/
def buildRequeued : Reporting :=
  { buildTaken with queue := buildTaken.queue.requeueSteps [buildDone] }

theorem take_buildQueued : buildQueued.queue.takeStepsUpdateBody ["build".toList] =
    some (buildBody, 1, buildTaken.queue) := by
  have hsteps : ["build".toList].filterMap buildQueued.queue.allSteps.lookup = [buildDone] := rfl
  unfold ServerQueue.takeStepsUpdateBody
  rw [if_neg (by decide), hsteps, List.mergeSort_singleton]
  rfl

theorem run_buildTaken : Interleave.Run plainMoves ⟨.new "job".toList "plan".toList, []⟩
    ⟨buildTaken, [.posting buildBody 1]⟩ := by
  have hqueued : Interleave.Run plainMoves ⟨.new "job".toList "plan".toList, []⟩
      ⟨buildQueued, []⟩ := Interleave.Run.refl.tail (.env ⟨by decide, buildDone, rfl⟩)
  have hbegun : Interleave.Run plainMoves ⟨.new "job".toList "plan".toList, []⟩
      ⟨buildQueued, [.begun]⟩ := hqueued.tail (.start (m := plainMoves) rfl)
  refine hbegun.tail (.at (i := 0) rfl (.inl ⟨["build".toList], true, ?_, ?_, ?_⟩))
  · exact List.Perm.refl _
  · simp only [FlushCall.advance, take_buildQueued]
    rfl
  · intro generation hcall
    cases hcall

theorem run_buildRequeued : Interleave.Run plainMoves ⟨.new "job".toList "plan".toList, []⟩
    ⟨buildRequeued, [.returned]⟩ := by
  have hfailed : Interleave.Run plainMoves ⟨.new "job".toList "plan".toList, []⟩
      ⟨buildTaken, [.failed buildBody]⟩ := by
    refine run_buildTaken.tail (.at (i := 0) rfl (.inl ⟨[], false, List.Perm.refl _, rfl, ?_⟩))
    intro generation hcall
    cases hcall
  refine hfailed.tail (.at (i := 0) rfl (.inl ⟨[], false, List.Perm.refl _, rfl, ?_⟩))
  intro generation hcall
  cases hcall

/-- The drain task was aborted in its post, and the last flush came through. -/
def buildLost : Reporting := buildTaken.flushStepUpdates [] true

end Worker

end Preloop
