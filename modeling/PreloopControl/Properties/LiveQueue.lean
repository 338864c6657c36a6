import PreloopControl.Properties.MaskedLines
import PreloopControl.Worker.LiveLogs

/-!
# The Live Feed Keeps Order

For each step the lines that were sent, the lines a drain has in hand and the lines in the
queue should be the step's accepted lines, in their order, whatever the interleaving.

As far as batches go this is so: regrouping keeps the lines of one step as they are, and
what is put back goes in front. But a batch is masked as one text, and the one text that
is no line and one empty line is the same. A batch of a single empty line is sent as a
wrapper that counts one line and carries none.

## Main definitions

* `QueueNote.handedLines`, `QueueNote.deliveredLines`: The lines of a batch that was sent,
  and those of them its wrapper carries.
* `Whole`: A batch whose wrapper carries its lines.
* `Carries`: A wrapper with the masked lines of its batch.

## Theorems

* `filter_lineBatches`: Regrouping keeps the lines of a step.
* `length_maskLines_iff`, `wrapper_carries_iff`: When a wrapper carries what it counts.
* `queueAccounted_advance`: What an event keeps.
* `live_queue_exact`: A run loses nothing exactly if every batch sent was whole.
-/

namespace Preloop

namespace Worker

open Lines Masking

/-! ## Batches -/

theorem flatten_lineBatches (lines : List ConsoleLine) :
    (lineBatches lines).flatten =
      (Grouping.group ConsoleLine.stepId lines).entries.flatMap (·.2) := by
  have hsize : 0 < linesPerBatch := by decide
  unfold lineBatches
  induction (Grouping.group ConsoleLine.stepId lines).entries with
  | nil => rfl
  | cons e es ih =>
      -- no chunk is empty, so that none is left out
      have hall : ∀ chunk ∈ Grouping.chunks linesPerBatch e.2, (!chunk.isEmpty) = true := by
        intro chunk hchunk
        simpa using Grouping.ne_nil_of_mem_chunks hsize hchunk
      rw [List.flatMap_cons, List.flatMap_cons, List.flatten_append, ih,
        List.filter_eq_self.mpr hall, Grouping.flatten_chunks hsize]

/-- Regrouping keeps the lines of a step, in their order. -/
theorem filter_lineBatches (lines : List ConsoleLine) (step : Text) :
    (lineBatches lines).flatten.filter (fun l => l.stepId = step) =
      lines.filter fun l => l.stepId = step := by
  rw [flatten_lineBatches]
  convert Grouping.filter_group ConsoleLine.stepId lines step

theorem ne_nil_of_mem_lineBatches {lines batch : List ConsoleLine} (h : batch ∈ lineBatches lines) :
    batch ≠ [] := by
  rcases List.mem_flatMap.mp h with ⟨e, -, h⟩
  have hne := (List.mem_filter.mp h).2
  simpa using hne

theorem lines_requeueFront (q : LiveQueue) (batches : List (List ConsoleLine)) :
    (q.requeueFront batches).lines = batches.flatten ++ q.lines := by
  unfold LiveQueue.requeueFront
  induction batches with
  | nil => rfl
  | cons batch batches ih =>
      rw [List.foldr_cons, List.flatten_cons, List.append_assoc, ← ih]
      simp

/-! ## Wrappers -/

/-- A batch that is not just one empty line, of lines that are lines. -/
def Whole (batch : List ConsoleLine) : Prop :=
  batch.map ConsoleLine.line ≠ [[]] ∧ ∀ l ∈ batch, '\n' ∉ l.line

variable {transforms : Transforms}

/-- Masking keeps the number of lines, but for a single empty one. -/
theorem length_maskLines_iff (hsolid : Transforms.Solid (some transforms)) (masks : LiveMasks)
    (ls : List Text) :
    (maskLines transforms masks ls).length = ls.length ↔ ls ≠ [[]] ∧ ∀ l ∈ ls, '\n' ∉ l := by
  unfold maskLines
  by_cases hnil : joinFeed ls = []
  · rw [if_pos hnil]
    rcases joinFeed_eq_nil.mp hnil with rfl | rfl <;> simp
  · rw [if_neg hnil, length_splitFeed, count_maskSecretsInner hsolid]
    have hne : ls ≠ [] := by
      rintro rfl
      exact hnil rfl
    have hlone : ls ≠ [[]] := by
      rintro rfl
      exact hnil rfl
    rw [count_joinFeed hne, Nat.add_eq_left, List.sum_eq_zero_iff]
    refine ⟨fun h => ⟨hlone, fun l hl => ?_⟩, fun h n hn => ?_⟩
    · exact List.count_eq_zero.mp (h _ (List.mem_map.mpr ⟨l, hl, rfl⟩))
    · rcases List.mem_map.mp hn with ⟨l, hl, rfl⟩
      exact List.count_eq_zero.mpr (h.2 l hl)

theorem value_of_wrapperFromLines {batch : List ConsoleLine} {wrapper : FeedLinesWrapper}
    (h : wrapperFromLines batch = some wrapper) :
    wrapper.value = batch.map ConsoleLine.line ∧ wrapper.count = batch.length := by
  cases batch with
  | nil => cases h
  | cons first rest =>
      cases h
      exact ⟨rfl, rfl⟩

/-- A wrapper with the masked lines of a batch, under the step and the number of the first. -/
structure Carries (transforms : Transforms) (masks : LiveMasks) (batch : List ConsoleLine)
    (wrapper : FeedLinesWrapper) : Prop where
  value : wrapper.value = maskLines transforms masks (batch.map ConsoleLine.line)
  count : wrapper.count = batch.length
  first : ∃ first, batch.head? = some first ∧ wrapper.stepId = first.stepId ∧
    wrapper.startLine = first.lineNumber

theorem carries_of_wrapperFromLines (masks : LiveMasks) {batch : List ConsoleLine}
    {wrapper : FeedLinesWrapper} (h : wrapperFromLines batch = some wrapper) :
    Carries transforms masks batch (maskWrapper transforms masks wrapper) := by
  cases batch with
  | nil => cases h
  | cons first rest =>
      cases h
      exact ⟨rfl, rfl, first, rfl, rfl, rfl⟩

/-- A wrapper carries what it counts exactly if its batch is whole. -/
theorem wrapper_carries_iff (hsolid : Transforms.Solid (some transforms)) (masks : LiveMasks)
    {batch : List ConsoleLine} {wrapper : FeedLinesWrapper}
    (h : wrapperFromLines batch = some wrapper) :
    (maskWrapper transforms masks wrapper).value.length =
      (maskWrapper transforms masks wrapper).count ↔ Whole batch := by
  rcases value_of_wrapperFromLines h with ⟨hvalue, hcount⟩
  unfold maskWrapper Whole
  dsimp only
  rw [hvalue, hcount, ← List.length_map ConsoleLine.line, length_maskLines_iff hsolid]
  simp

/-! ## Runs -/

/-- A line that was accepted. -/
def QueueNote.acceptedLines : QueueNote → List ConsoleLine
  | .accepted line => [line]
  | .transmitted _ _ => []

/-- The lines of a batch that was sent. -/
def QueueNote.handedLines : QueueNote → List ConsoleLine
  | .accepted _ => []
  | .transmitted batch _ => batch

/-- The lines of a batch that was sent, if its wrapper carries as many as it counts. -/
def QueueNote.deliveredLines : QueueNote → List ConsoleLine
  | .accepted _ => []
  | .transmitted batch wrapper => if wrapper.value.length = wrapper.count then batch else []

/-- What is known at any moment of a run. -/
structure QueueAccounted (transforms : Transforms) (past : List QueueNote) (q : LiveQueue) :
    Prop where
  ordered : ∀ step, ((past.flatMap QueueNote.handedLines ++ q.taken ++ q.lines).filter fun l =>
    l.stepId = step) = (past.flatMap QueueNote.acceptedLines).filter fun l => l.stepId = step
  nonempty : ∀ batches, q.phase = .sending batches → ∀ batch ∈ batches, batch ≠ []
  wrapped : ∀ batch wrapper, .transmitted batch wrapper ∈ past → ∃ masks plain,
    wrapperFromLines batch = some plain ∧ wrapper = maskWrapper transforms masks plain

theorem queueAccounted_init : QueueAccounted transforms [] LiveQueue.init where
  ordered _ := rfl
  nonempty _ h := by cases h
  wrapped _ _ h := by cases h

/-- An event that neither accepts nor transmits anything. -/
theorem QueueAccounted.quiet {past : List QueueNote} {q q' : LiveQueue}
    (h : QueueAccounted transforms past q)
    (hheld : ∀ step, (q'.taken ++ q'.lines).filter (fun l => l.stepId = step) =
      (q.taken ++ q.lines).filter fun l => l.stepId = step)
    (hphase : ∀ batches, q'.phase = .sending batches → ∀ batch ∈ batches, batch ≠ []) :
    QueueAccounted transforms (past ++ []) q' where
  ordered step := by
    have hordered := h.ordered step
    rw [List.append_nil]
    rw [List.append_assoc, List.filter_append] at hordered ⊢
    rw [hheld, hordered]
  nonempty := hphase
  wrapped := by
    rw [List.append_nil]
    exact h.wrapped

/-- A batch that is handed to the socket is gone from the front of what the pass took; one that
could not be sent goes back in front of the queue, with all that follows it. -/
theorem queueAccounted_send {past ns : List QueueNote} {q q' : LiveQueue}
    {masks : Option LiveMasks} (h : QueueAccounted transforms past q)
    (hstep : liveAdvance transforms q (.send masks) = some (q', ns)) :
    QueueAccounted transforms (past ++ ns) q' := by
  simp only [liveAdvance] at hstep
  cases hphase : q.phase with
  | idle =>
      rw [hphase] at hstep
      cases hstep
  | looked =>
      rw [hphase] at hstep
      cases hstep
  | sending batches =>
      rw [hphase] at hstep
      have htaken : q.taken = batches.flatten := by rw [LiveQueue.taken, hphase]
      have hnonempty := h.nonempty batches hphase
      -- the socket is gone, or the send failed: every batch of the pass goes back
      have hrequeue (ws : Option FeedSocket) : QueueAccounted transforms (past ++ [])
          ({ q with ws := ws }.requeueFront batches) := by
        refine h.quiet (fun step => ?_) (by rintro batches ⟨⟩)
        rw [lines_requeueFront, htaken]
        rfl
      cases batches with
      | nil =>
          cases hstep
          refine h.quiet (fun step => ?_) (by rintro batches ⟨⟩)
          rw [htaken]
          rfl
      | cons batch batches =>
          cases hws : q.ws with
          | none =>
              simp only [hws] at hstep
              cases hstep
              have hself : { q with ws := none } = q := by rw [← hws]
              have hback := hrequeue none
              rwa [hself] at hback
          | some socket =>
              simp only [hws] at hstep
              rcases Option.map_eq_some_iff.mp hstep with ⟨plain, hplain, hstep⟩
              cases masks with
              | none =>
                  cases hstep
                  exact hrequeue _
              | some masks =>
                  cases hstep
                  -- the batch was handed over, with the lines that its step had in front
                  refine ⟨fun step => ?_, ?_, fun batch' wrapper hmem => ?_⟩
                  · have hordered := h.ordered step
                    rw [htaken, List.flatten_cons] at hordered
                    simpa [QueueNote.handedLines, QueueNote.acceptedLines, LiveQueue.taken]
                      using hordered
                  · rintro batches ⟨⟩ b hb
                    exact hnonempty b (List.mem_cons_of_mem _ hb)
                  · rcases List.mem_append.mp hmem with hmem | hmem
                    · exact h.wrapped batch' wrapper hmem
                    · cases List.mem_singleton.mp hmem
                      exact ⟨masks, plain, hplain, rfl⟩

/-- What an event keeps. -/
theorem queueAccounted_advance {past ns : List QueueNote} {q q' : LiveQueue} {e : QueueEvent}
    (h : QueueAccounted transforms past q) (hstep : liveAdvance transforms q e = some (q', ns)) :
    QueueAccounted transforms (past ++ ns) q' := by
  cases e with
  | enqueue stepId line lineNumber =>
      simp only [liveAdvance] at hstep
      -- a full queue refuses the line, which is then no accepted one
      split at hstep
      · cases hstep
        exact h.quiet (fun _ => rfl) h.nonempty
      · cases hstep
        refine ⟨fun step => ?_, h.nonempty, fun batch wrapper hmem => ?_⟩
        · have hordered := h.ordered step
          simp only [List.flatMap_append, List.flatMap_cons, List.flatMap_nil,
            QueueNote.handedLines, QueueNote.acceptedLines, List.append_nil] at hordered ⊢
          simp only [List.filter_append, ← List.append_assoc] at hordered ⊢
          rw [← hordered]
          rfl
        · rcases List.mem_append.mp hmem with hmem | hmem
          · exact h.wrapped batch wrapper hmem
          · cases List.mem_singleton.mp hmem
  | connect =>
      cases hstep
      exact h.quiet (fun _ => rfl) h.nonempty
  | lose =>
      cases hstep
      exact h.quiet (fun _ => rfl) h.nonempty
  | look =>
      simp only [liveAdvance] at hstep
      cases hphase : q.phase with
      | idle =>
          rw [hphase] at hstep
          cases hstep
          split
          · exact h.quiet (fun _ => rfl) h.nonempty
          -- a look with a socket begins a pass that has taken nothing yet
          · refine h.quiet (fun step => ?_) (by rintro batches ⟨⟩)
            simp [LiveQueue.taken, hphase]
      | looked =>
          rw [hphase] at hstep
          cases hstep
      | sending batches =>
          rw [hphase] at hstep
          cases hstep
  | dequeue limit =>
      simp only [liveAdvance] at hstep
      cases hphase : q.phase with
      | idle =>
          rw [hphase] at hstep
          cases hstep
      | looked =>
          rw [hphase] at hstep
          cases hstep
          -- what the pass takes is a prefix of the queue, cut into batches step by step
          refine h.quiet (fun step => ?_) ?_
          · simp only [LiveQueue.taken, hphase, List.nil_append]
            rw [List.filter_append, filter_lineBatches, ← List.filter_append,
              List.take_append_drop]
          · rintro batches ⟨⟩ batch hbatch
            exact ne_nil_of_mem_lineBatches hbatch
      | sending batches =>
          rw [hphase] at hstep
          cases hstep
  | send masks => exact queueAccounted_send h hstep

theorem queueAccounted_of_run {past : List QueueNote} {q : LiveQueue}
    (h : (liveMachine transforms).Run (fun _ _ _ => True) LiveQueue.init past q) :
    QueueAccounted transforms past q :=
  h.invariant queueAccounted_init fun hI _ hstep => queueAccounted_advance hI hstep

/-! ## What is lost -/

theorem deliveredLines_sublist (n : QueueNote) : n.deliveredLines.Sublist n.handedLines := by
  cases n with
  | accepted line => exact List.Sublist.refl _
  | transmitted batch wrapper =>
      unfold QueueNote.deliveredLines QueueNote.handedLines
      dsimp only
      split
      · exact List.Sublist.refl _
      · exact List.nil_sublist _

/-- The live feed loses nothing exactly if every batch it sent was whole. In any run
    of enqueues and drains, with sends that fail and sockets that are lost, the delivered
    lines of each step, those in hand and those in the queue are the step's accepted lines
    in order, unless a batch went out that was one empty line. A wrapper carries the masked
    lines of its own batch, and counts them before they are masked. -/
theorem live_queue_exact (hsolid : Transforms.Solid (some transforms)) {past : List QueueNote}
    {q : LiveQueue}
    (hrun : (liveMachine transforms).Run (fun _ _ _ => True) LiveQueue.init past q) :
    ((∀ step, ((past.flatMap QueueNote.deliveredLines ++ q.taken ++ q.lines).filter fun l =>
        l.stepId = step) =
      (past.flatMap QueueNote.acceptedLines).filter fun l => l.stepId = step) ↔
    ∀ batch wrapper, .transmitted batch wrapper ∈ past → Whole batch) ∧
    ∀ batch wrapper, .transmitted batch wrapper ∈ past → ∃ masks,
      Carries transforms masks batch wrapper := by
  have hall := queueAccounted_of_run hrun
  refine ⟨?_, fun batch wrapper hmem => ?_⟩
  rotate_left
  · rcases hall.wrapped batch wrapper hmem with ⟨masks, plain, hplain, rfl⟩
    exact ⟨masks, carries_of_wrapperFromLines masks hplain⟩
  have hwhole : ∀ batch wrapper, .transmitted batch wrapper ∈ past →
      (wrapper.value.length = wrapper.count ↔ Whole batch) := by
    intro batch wrapper hmem
    rcases hall.wrapped batch wrapper hmem with ⟨masks, plain, hplain, rfl⟩
    exact wrapper_carries_iff hsolid masks hplain
  constructor
  · intro h batch wrapper hmem
    have heq : past.flatMap QueueNote.deliveredLines = past.flatMap QueueNote.handedLines := by
      refine Grouping.eq_of_filters (f := ConsoleLine.stepId)
        (Grouping.flatMap_sublist deliveredLines_sublist past) fun step => ?_
      have hboth := (h step).trans (hall.ordered step).symm
      simp only [List.filter_append] at hboth
      exact List.append_cancel_right (List.append_cancel_right hboth)
    -- no note delivers fewer lines than it has, so each delivers all
    have hlen := Grouping.length_eq_of_flatMap (fun n => (deliveredLines_sublist n).length_le)
      (congrArg List.length heq) _ hmem
    rcases hall.wrapped batch wrapper hmem with ⟨-, plain, hplain, -⟩
    have hne : batch ≠ [] := by
      rintro rfl
      cases hplain
    refine (hwhole batch wrapper hmem).mp ?_
    by_contra hcount
    unfold QueueNote.deliveredLines QueueNote.handedLines at hlen
    dsimp only at hlen
    rw [if_neg hcount] at hlen
    exact hne (List.length_eq_zero_iff.mp hlen.symm)
  · intro h step
    rw [← hall.ordered step]
    have heq : past.flatMap QueueNote.deliveredLines = past.flatMap QueueNote.handedLines := by
      refine List.flatMap_congr fun n hn => ?_
      cases n with
      | accepted line => rfl
      | transmitted batch wrapper =>
        exact if_pos ((hwhole batch wrapper hn).mpr (h batch wrapper hn))
    rw [heq]

/-- No encodings. -/
def noTransforms : Transforms := ⟨fun _ => [], fun _ _ => []⟩

theorem noTransforms_solid : Transforms.Solid (some noTransforms) := by
  rintro t ⟨⟩ secret h
  cases h

/-- A line is put in and sent. -/
def sendOne (line : Text) : List QueueEvent :=
  [.connect, .enqueue "build".toList line 1, .look, .dequeue 500, .send (some ⟨[], []⟩)]

/-- The notes of one line that is sent in a wrapper of these lines. -/
def sentOne (line : Text) (value : List Text) : List QueueNote :=
  [.accepted ⟨"build".toList, line, 1⟩,
    .transmitted [⟨"build".toList, line, 1⟩] ⟨"build".toList, 1, 1, value⟩]

/-- A line with text in it arrives. -/
theorem live_queue_exact_of_text : ∃ q : LiveQueue,
    (((sentOne "ok".toList ["ok".toList]).flatMap QueueNote.deliveredLines ++ q.taken ++
        q.lines).filter fun l => l.stepId = "build".toList) =
      ((sentOne "ok".toList ["ok".toList]).flatMap QueueNote.acceptedLines).filter fun l =>
        l.stepId = "build".toList := by
  have hexec : (liveMachine noTransforms).exec (sendOne "ok".toList) [] LiveQueue.init =
      some (sentOne "ok".toList ["ok".toList], ⟨[], some ⟨0, 1⟩, .sending []⟩) := by
    decide
  refine ⟨_, (live_queue_exact noTransforms_solid
    (Machine.run_of_exec (fun _ _ _ _ => trivial) .start hexec)).1.mpr ?_ "build".toList⟩
  intro batch wrapper hmem
  rcases List.mem_cons.mp hmem with h | h
  · cases h
  · cases List.mem_singleton.mp h
    exact ⟨by decide, by decide⟩

/-- A batch of one empty line is sent as no line. -/
theorem empty_line_lost : ∃ q : LiveQueue,
    (liveMachine noTransforms).Run (fun _ _ _ => True) LiveQueue.init (sentOne [] []) q ∧
      (sentOne [] []).flatMap QueueNote.deliveredLines ++ q.taken ++ q.lines = [] ∧
      (sentOne [] []).flatMap QueueNote.acceptedLines = [⟨"build".toList, [], 1⟩] := by
  have hexec : (liveMachine noTransforms).exec (sendOne []) [] LiveQueue.init =
      some (sentOne [] [], ⟨[], some ⟨0, 1⟩, .sending []⟩) := by
    decide
  exact ⟨_, Machine.run_of_exec (fun _ _ _ _ => trivial) .start hexec, rfl, rfl⟩

end Worker

end Preloop
