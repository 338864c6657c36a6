import PreloopControl.ReusableOutputs

/-!
# The Fixpoint of Caller Folding

The passes over the callers of a run end when one settles none. By then every caller whose
inner jobs are settled has been folded, at whatever depth. Whether a caller has been folded
is read off its recorded outputs, and its status is another matter: one that was cancelled
before its inner jobs were settled is folded in the same pass as the caller around it, which
reads its outputs too early and keeps what it read, and one that has outputs while it is
still open is never folded.

## Main definitions

* `RunRecord.Settles`: The jobs that are settled in the end, said of the record before.
* `RunRecord.Folded`: What a call is to leave behind.
* `RunRecord.RecordedWhenClosed`: Outputs are recorded of the callers that are not open.

## Theorems

* `Progress.pass`: What the passes keep.
* `stale_outputs`: A caller that read the outputs of an inner caller too early.
* `callers_folded_iff`: The records whose callers are folded as they should.
-/

namespace Preloop

namespace RunRecord

variable {V : Type}

/-- The jobs that are settled in the end: those that are, and the open callers without
    outputs whose inner jobs are settled in the end. -/
inductive Settles (run : RunRecord V) : JobId → Prop
  | settled {id : JobId} (h : run.Settled id) : Settles run id
  | folds {id : JobId} (call : ReusableCallMetadata V)
      (hcall : run.reusableCalls.lookup id = some call) (hopen : run.Open id)
      (hfresh : run.jobOutputs.lookup id = none) (hnonempty : call.innerJobIds ≠ [])
      (hinner : ∀ inner ∈ call.innerJobIds, Settles run inner) : Settles run id

/-- What a call of `propagate_reusable_outputs` is to leave behind. -/
structure Folded (ev : OutputEvaluator V) (run final : RunRecord V) (finalized : List JobId) :
    Prop where
  none_left : ∀ id call, final.reusableCalls.lookup id = some call → final.Open id →
    call.innerJobIds ≠ [] → ¬ ∀ inner ∈ call.innerJobIds, final.Settled inner
  folded : ∀ id ∈ finalized, ∃ call, final.reusableCalls.lookup id = some call ∧
    final.jobs.lookup id = some (final.callerAggregate call) ∧
    final.jobOutputs.lookup id = some (final.callerOutputs ev id call)
  others : ∀ id, id ∉ finalized → final.jobs.lookup id = run.jobs.lookup id ∧
    final.jobOutputs.lookup id = run.jobOutputs.lookup id
  again : ∀ passes, 0 < passes → final.propagate ev passes = some (final, [])

/-- Of the callers whose inner jobs are settled in the end, outputs are recorded of those that
    are not open. -/
def RecordedWhenClosed (run : RunRecord V) : Prop :=
  ∀ id call, run.reusableCalls.lookup id = some call → call.innerJobIds ≠ [] →
    (∀ inner ∈ call.innerJobIds, run.Settles inner) →
      (run.jobOutputs.lookup id ≠ none ↔ ¬ run.Open id)

/-! ## What depends on what -/

variable {run run' run0 : RunRecord V} {ev : OutputEvaluator V} {done newly : List JobId}
  {call : ReusableCallMetadata V}

theorem aggregateNeedStatus_terminal (statuses : List ExecutionStatus) :
    ((aggregateNeedStatus statuses).getD .skipped).isTerminal = true := by
  unfold aggregateNeedStatus
  split
  · rfl
  · split
    · rfl
    · split
      · rfl
      · split <;> rfl

theorem settled_of_aggregate {id : JobId}
    (h : run.jobs.lookup id = some (run.callerAggregate call)) : run.Settled id :=
  ⟨_, h, aggregateNeedStatus_terminal _⟩

theorem Settled.congr {id : JobId} (heq : run'.jobs.lookup id = run.jobs.lookup id) :
    run'.Settled id ↔ run.Settled id := by
  rw [Settled, Settled, heq]

theorem Open.congr {id : JobId} (heq : run'.jobs.lookup id = run.jobs.lookup id) :
    run'.Open id ↔ run.Open id := by
  rw [Open, Open, heq]

/-- The aggregate of a caller depends on the statuses of its inner jobs. -/
theorem callerAggregate_congr
    (h : ∀ inner ∈ call.innerJobIds, run'.jobs.lookup inner = run.jobs.lookup inner) :
    run'.callerAggregate call = run.callerAggregate call := by
  rw [callerAggregate, callerAggregate, List.filterMap_congr h]

/-- The outputs of a caller depend on the outputs of its inner jobs. -/
theorem callerOutputs_congr (ev : OutputEvaluator V) (id : JobId)
    (h : ∀ inner ∈ call.innerJobIds, run'.jobOutputs.lookup inner = run.jobOutputs.lookup inner) :
    run'.callerOutputs ev id call = run.callerOutputs ev id call := by
  have hcontext : run'.callContext id call = run.callContext id call := by
    rw [callContext, callContext]
    congr 2
    exact List.map_congr_left fun inner hinner => by rw [h inner hinner]
  rw [callerOutputs, callerOutputs, hcontext]

namespace PassSpec

variable (h : PassSpec ev run run' newly)

include h

/-- A settled job keeps its status. -/
theorem status_of_settled {id : JobId} (hid : run.Settled id) :
    run'.jobs.lookup id = run.jobs.lookup id := by
  refine h.status_of_not_mem fun hmem => ?_
  rcases h.mem_pass.mp hmem with ⟨call, -, hopen⟩
  exact hid.not_open hopen

theorem settled {id : JobId} (hid : run.Settled id) : run'.Settled id :=
  (Settled.congr (h.status_of_settled hid)).mpr hid

/-- Recorded outputs stay. -/
theorem outputs_kept {id : JobId} {outputs : SortedMap String V}
    (hid : run.jobOutputs.lookup id = some outputs) :
    run'.jobOutputs.lookup id = some outputs := by
  rw [h.outputs_of_not fun call hfolds => ?_, hid]
  rw [hfolds.fresh] at hid
  cases hid

theorem outputs_ne_none {id : JobId} (hid : run.jobOutputs.lookup id ≠ none) :
    run'.jobOutputs.lookup id ≠ none := by
  rcases Option.ne_none_iff_exists'.mp hid with ⟨outputs, houtputs⟩
  rw [h.outputs_kept houtputs]
  exact Option.some_ne_none outputs

end PassSpec

/-! ## The passes -/

/-- How far the passes have come from a record. -/
structure Progress (run0 run : RunRecord V) (done : List JobId) : Prop where
  calls : run.reusableCalls = run0.reusableCalls
  status : ∀ id, id ∉ done → run.jobs.lookup id = run0.jobs.lookup id
  settles : ∀ id, run.Settled id → run0.Settles id
  finalized : ∀ id ∈ done, run0.Open id ∧ run0.jobOutputs.lookup id = none ∧
    run.jobOutputs.lookup id ≠ none ∧ ∃ call, run0.reusableCalls.lookup id = some call ∧
      run.jobs.lookup id = some (run.callerAggregate call) ∧
      ∀ inner ∈ call.innerJobIds, run.Settled inner
  kept : ∀ id, run0.jobOutputs.lookup id ≠ none →
    run.jobOutputs.lookup id = run0.jobOutputs.lookup id
  added : ∀ id, run.jobOutputs.lookup id ≠ none → run0.jobOutputs.lookup id = none →
    id ∈ done ∨ (¬ run0.Open id ∧ ∃ call, run0.reusableCalls.lookup id = some call ∧
      call.innerJobIds ≠ [] ∧ ∀ inner ∈ call.innerJobIds, run.Settled inner)

namespace Progress

theorem start (run0 : RunRecord V) : Progress run0 run0 [] where
  calls := rfl
  status := fun _ _ => rfl
  settles := fun _ h => .settled h
  finalized := fun _ h => (nomatch h)
  kept := fun _ _ => rfl
  added := fun _ h hnone => absurd hnone h

variable (hp : Progress run0 run done)

include hp

/-- A finalized caller is settled. -/
theorem settled_of_done {id : JobId} (hid : id ∈ done) : run.Settled id := by
  rcases hp.finalized id hid with ⟨-, -, -, call, -, hstatus, -⟩
  exact settled_of_aggregate hstatus

/-- An open job was open from the beginning. -/
theorem open_first {id : JobId} (hid : run.Open id) : run0.Open id := by
  have hdone : id ∉ done := fun hmem => (hp.settled_of_done hmem).not_open hid
  exact (Open.congr (hp.status id hdone)).mp hid

/-- What has no outputs had none. -/
theorem fresh_first {id : JobId} (hid : run.jobOutputs.lookup id = none) :
    run0.jobOutputs.lookup id = none := by
  by_contra hsome
  exact hsome ((hp.kept id hsome).symm.trans hid)

/-- What a pass leaves is as far along. -/
theorem pass (hpass : PassSpec ev run run' newly) : Progress run0 run' (done ++ newly) := by
  have hcalls : run'.reusableCalls = run0.reusableCalls := hpass.calls.trans hp.calls
  -- what the pass newly settled joins what was done before it
  refine ⟨hcalls, fun id hid => ?_, fun id hid => ?_, fun id hid => ?_, fun id hid => ?_,
    fun id hid hnone => ?_⟩
  · rw [List.mem_append, not_or] at hid
    exact (hpass.status_of_not_mem hid.2).trans (hp.status id hid.1)
  · by_cases hmem : id ∈ newly
    · rcases hpass.mem_pass.mp hmem with ⟨call, hfolds, hopen⟩
      exact .folds call (hp.calls ▸ hfolds.isCall) (hp.open_first hopen)
        (hp.fresh_first hfolds.fresh) hfolds.nonempty
        fun inner hinner => hp.settles inner (hfolds.complete inner hinner)
    · exact hp.settles id ((Settled.congr (hpass.status_of_not_mem hmem)).mp hid)
  · rcases List.mem_append.mp hid with hdone | hmem
    · -- a caller of an earlier pass keeps its status, and so do its inner jobs
      rcases hp.finalized id hdone with ⟨hopen, hfresh, hsome, call, hcall, hstatus, hinner⟩
      refine ⟨hopen, hfresh, hpass.outputs_ne_none hsome, call, hcall, ?_, fun inner h => ?_⟩
      · rw [hpass.status_of_settled (hp.settled_of_done hdone), hstatus,
          callerAggregate_congr fun inner h => hpass.status_of_settled (hinner inner h)]
      · exact hpass.settled (hinner inner h)
    · rcases hpass.mem_pass.mp hmem with ⟨call, hfolds, hopen⟩
      refine ⟨hp.open_first hopen, hp.fresh_first hfolds.fresh, ?_, call,
        hp.calls ▸ hfolds.isCall, ?_, fun inner h => hpass.settled (hfolds.complete inner h)⟩
      · rw [hpass.outputs_of_folds hfolds]
        exact Option.some_ne_none _
      · rw [hpass.status_of_folds hfolds hopen,
          callerAggregate_congr fun inner h => hpass.status_of_settled (hfolds.complete inner h)]
  · have hkept := hp.kept id hid
    rcases Option.ne_none_iff_exists'.mp hid with ⟨outputs, houtputs⟩
    rw [houtputs] at hkept ⊢
    exact hpass.outputs_kept hkept
  -- outputs are there because the caller folds, or because they were there before
  · by_cases hfolds : ∃ call, run.Folds id call
    · rcases hfolds with ⟨call, hfolds⟩
      by_cases hopen : run.Open id
      · exact .inl (List.mem_append_right _ (hpass.mem_pass.mpr ⟨call, hfolds, hopen⟩))
      · by_cases hdone : id ∈ done
        · exact .inl (List.mem_append_left _ hdone)
        · refine .inr ⟨fun hfirst => hopen ((Open.congr (hp.status id hdone)).mpr hfirst), call,
            hp.calls ▸ hfolds.isCall, hfolds.nonempty,
            fun inner h => hpass.settled (hfolds.complete inner h)⟩
    · rw [hpass.outputs_of_not fun call hcall => hfolds ⟨call, hcall⟩] at hid
      rcases hp.added id hid hnone with hdone | ⟨hclosed, call, hcall, hnonempty, hinner⟩
      · exact .inl (List.mem_append_left _ hdone)
      · exact .inr ⟨hclosed, call, hcall, hnonempty, fun inner h => hpass.settled (hinner inner h)⟩

end Progress

/-! ## The end of the passes -/

/-- A record in which a pass would fold nothing. -/
def Closed (run : RunRecord V) : Prop := ∀ id call, ¬ run.Folds id call

/-- After a pass that settles no caller there is nothing left to fold. -/
theorem PassSpec.closed (h : PassSpec ev run run' []) : run'.Closed := by
  intro id call hfolds
  have hstatus : ∀ id, run'.jobs.lookup id = run.jobs.lookup id := fun id =>
    h.status_of_not_mem (List.not_mem_nil)
  have hfresh : run.jobOutputs.lookup id = none := by
    by_contra hsome
    exact h.outputs_ne_none hsome hfolds.fresh
  have hbefore : run.Folds id call := ⟨h.calls ▸ hfolds.isCall, hfresh, hfolds.nonempty,
    fun inner hinner => (Settled.congr (hstatus inner)).mp (hfolds.complete inner hinner)⟩
  have hsome := h.outputs_of_folds hbefore
  rw [hfolds.fresh] at hsome
  cases hsome

/-- A closed record is left as it is. -/
theorem Closed.propagate (h : run.Closed) (ev : OutputEvaluator V) {passes : Nat}
    (hpasses : 0 < passes) : run.propagate ev passes = some (run, []) := by
  have hnone : run.foldedCalls = [] :=
    List.eq_nil_iff_forall_not_mem.mpr fun e he => h e.1 e.2 (mem_foldedCalls.mp he)
  have honce : run.propagateOnce ev = (run, []) := by
    simp [propagateOnce, outputsToAdd, statusesToSet, hnone]
  cases passes with
  | zero => omega
  | succ passes =>
      rw [RunRecord.propagate, honce]
      rfl

/-- The callers without outputs. -/
def unfolded (run : RunRecord V) : Finset JobId :=
  (run.reusableCalls.entries.map (·.1)).toFinset.filter fun id => run.jobOutputs.lookup id = none

/-- A pass that settles a caller leaves fewer without outputs. -/
theorem PassSpec.unfolded_lt (h : PassSpec ev run run' newly) (hnewly : newly ≠ []) :
    run'.unfolded.card < run.unfolded.card := by
  rcases List.exists_mem_of_ne_nil newly hnewly with ⟨id, hid⟩
  rcases h.mem_pass.mp hid with ⟨call, hfolds, -⟩
  refine Finset.card_lt_card ⟨fun other hother => ?_, fun hsub => ?_⟩
  · rw [unfolded, Finset.mem_filter, h.calls] at hother
    refine Finset.mem_filter.mpr ⟨hother.1, ?_⟩
    by_contra hsome
    exact h.outputs_ne_none hsome hother.2
  · have hbefore : id ∈ run.unfolded := Finset.mem_filter.mpr ⟨List.mem_toFinset.mpr
      (List.mem_map_of_mem (SortedMap.mem_of_lookup hfolds.isCall)), hfolds.fresh⟩
    have hafter := (Finset.mem_filter.mp (hsub hbefore)).2
    rw [h.outputs_of_folds hfolds] at hafter
    cases hafter

/-- The passes end with a record that is as far along and closed. -/
theorem exists_propagate (ev : OutputEvaluator V) {passes : Nat} (hp : Progress run0 run done)
    (hpasses : run.unfolded.card < passes) :
    ∃ final finalized, run.propagate ev passes = some (final, finalized) ∧
      Progress run0 final (done ++ finalized) ∧ final.Closed := by
  induction passes generalizing run done with
  | zero => omega
  | succ passes ih =>
      have hpass := propagateOnce_spec ev run
      rw [propagate]
      by_cases hnewly : (run.propagateOnce ev).2 = []
      · rw [hnewly] at hpass
        refine ⟨(run.propagateOnce ev).1, [], by simp [hnewly], ?_, hpass.closed⟩
        exact hp.pass hpass
      · have hlt := hpass.unfolded_lt hnewly
        rcases ih (hp.pass hpass) (by omega) with ⟨final, finalized, hfinal, hprogress, hclosed⟩
        refine ⟨final, (run.propagateOnce ev).2 ++ finalized, ?_, ?_, hclosed⟩
        · simp [hnewly, hfinal]
        · rw [← List.append_assoc]
          exact hprogress

/-- More passes than are needed change nothing. -/
theorem propagate_mono (ev : OutputEvaluator V) {passes passes' : Nat} (hle : passes ≤ passes')
    {result : RunRecord V × List JobId} (h : run.propagate ev passes = some result) :
    run.propagate ev passes' = some result := by
  induction passes generalizing run passes' result with
  | zero => cases h
  | succ passes ih =>
      cases passes' with
      | zero => omega
      | succ passes' =>
          rw [propagate] at h ⊢
          by_cases hempty : (run.propagateOnce ev).2.isEmpty = true
          · simpa [hempty] using h
          · simp only [hempty, if_false, Bool.false_eq_true] at h ⊢
            rcases Option.map_eq_some_iff.mp h with ⟨rest, hrest, hresult⟩
            exact Option.map_eq_some_iff.mpr ⟨rest, ih (by omega) hrest, hresult⟩

/-! ## What the passes come to -/

/-- What is settled in the end is settled in a closed record. -/
theorem settled_of_settles (hp : Progress run0 run done) (hclosed : run.Closed) {id : JobId}
    (h : run0.Settles id) : run.Settled id := by
  induction h with
  | @settled id h =>
      have hdone : id ∉ done := fun hid => h.not_open (hp.finalized id hid).1
      exact (Settled.congr (hp.status id hdone)).mpr h
  | @folds id call hcall hopen hfresh hnonempty _ ih =>
      by_cases hdone : id ∈ done
      · exact hp.settled_of_done hdone
      · -- an open caller without outputs would be folded
        have hnone : run.jobOutputs.lookup id = none := by
          by_contra hsome
          rcases hp.added id hsome hfresh with hin | ⟨hno, -⟩
          · exact hdone hin
          · exact hno hopen
        exact absurd ⟨hp.calls.symm ▸ hcall, hnone, hnonempty, ih⟩ (hclosed id call)

/-- With outputs recorded of the closed callers, no settled job is folded any more. -/
theorem not_folds_of_settled (hp : Progress run0 run done) (hrec : run0.RecordedWhenClosed)
    {id : JobId} (hid : run.Settled id) : ∀ call, ¬ run.Folds id call := by
  intro call hfolds
  have hfresh := hp.fresh_first hfolds.fresh
  have hopen : run0.Open id := by
    by_contra hclosed
    exact (hrec id call (hp.calls ▸ hfolds.isCall) hfolds.nonempty
      fun inner hinner => hp.settles inner (hfolds.complete inner hinner)).mpr hclosed hfresh
  by_cases hdone : id ∈ done
  · exact (hp.finalized id hdone).2.2.1 hfolds.fresh
  · exact ((Settled.congr (hp.status id hdone)).mp hid).not_open hopen

/-- The outputs of the finalized callers are those over the outputs of their inner jobs. -/
def OutputsFinal (ev : OutputEvaluator V) (run : RunRecord V) (done : List JobId) : Prop :=
  ∀ id ∈ done, ∃ call, run.reusableCalls.lookup id = some call ∧
    (∀ inner ∈ call.innerJobIds, run.Settled inner) ∧
    run.jobOutputs.lookup id = some (run.callerOutputs ev id call)

/-- A pass does not take back what the finalized callers read. -/
theorem OutputsFinal.pass (h : OutputsFinal ev run done) (hp : Progress run0 run done)
    (hrec : run0.RecordedWhenClosed) (hpass : PassSpec ev run run' newly) :
    OutputsFinal ev run' (done ++ newly) := by
  have hsame : ∀ id call, (∀ inner ∈ call.innerJobIds, run.Settled inner) →
      run'.callerOutputs ev id call = run.callerOutputs ev id call := fun id call hinner =>
    callerOutputs_congr ev id fun inner h =>
      hpass.outputs_of_not (not_folds_of_settled hp hrec (hinner inner h))
  intro id hid
  rcases List.mem_append.mp hid with hdone | hmem
  · rcases h id hdone with ⟨call, hcall, hinner, houtputs⟩
    refine ⟨call, hpass.calls.symm ▸ hcall, fun inner h => hpass.settled (hinner inner h), ?_⟩
    rw [hsame id call hinner]
    exact hpass.outputs_kept houtputs
  · rcases hpass.mem_pass.mp hmem with ⟨call, hfolds, -⟩
    refine ⟨call, hpass.calls.symm ▸ hfolds.isCall,
      fun inner h => hpass.settled (hfolds.complete inner h), ?_⟩
    rw [hsame id call hfolds.complete]
    exact hpass.outputs_of_folds hfolds

theorem outputsFinal_propagate {passes : Nat} {final : RunRecord V} {finalized : List JobId}
    (hp : Progress run0 run done) (hrec : run0.RecordedWhenClosed) (h : OutputsFinal ev run done)
    (hfinal : run.propagate ev passes = some (final, finalized)) :
    OutputsFinal ev final (done ++ finalized) := by
  induction passes generalizing run done finalized with
  | zero => cases hfinal
  | succ passes ih =>
      have hpass := propagateOnce_spec ev run
      have hnext := h.pass hp hrec hpass
      rw [propagate] at hfinal
      by_cases hempty : (run.propagateOnce ev).2.isEmpty = true
      · simp only [hempty, if_true, Option.some.injEq, Prod.mk.injEq] at hfinal
        rw [← hfinal.1, ← hfinal.2]
        exact hnext
      · simp only [hempty, if_false, Bool.false_eq_true] at hfinal
        rcases Option.map_eq_some_iff.mp hfinal with ⟨⟨last, rest⟩, hrest, hresult⟩
        rcases Prod.mk.inj hresult with ⟨rfl, rfl⟩
        rw [← List.append_assoc]
        exact ih (hp.pass hpass) hnext hrest

end RunRecord

open RunRecord

/-- The expression of an output of an inner job. -/
def innerOutput (job name : String) : String :=
  "$\x7b\x7b jobs." ++ job ++ ".outputs." ++ name ++ " \x7d\x7d"

/-- Plain texts, of which the expressions of the output `v` of the jobs `mid` and `leaf` are
    evaluated. What is missing is an empty text. -/
def OutputEvaluator.plain : OutputEvaluator String where
  resolveString expr context :=
    let output (job : String) := some (((context.jobs.lookup job).bind (·.lookup "v")).getD "")
    if expr = innerOutput "mid" "v" then output "mid"
    else if expr = innerOutput "leaf" "v" then output "leaf"
    else some expr
  string text := text

/-- An open caller around one that was cancelled, whose only job succeeded with an output. -/
def cancelledMid : RunRecord String where
  jobs := .ofList [("outer", .inProgress), ("outer/mid", .cancelled),
    ("outer/mid/leaf", .success)]
  jobOutputs := .ofList [("outer/mid/leaf", .ofList [("v", "1")])]
  reusableCalls := .ofList
    [("outer", ⟨.ofList [("v", innerOutput "mid" "v")], ["outer/mid"], ∅⟩),
      ("outer/mid", ⟨.ofList [("v", innerOutput "leaf" "v")], ["outer/mid/leaf"], ∅⟩)]

/-- The outer caller reads the outputs of the inner one in the pass that records them, and
    keeps the empty text it read, although its definition would yield another one by then. -/
theorem stale_outputs :
    ∃ final, cancelledMid.propagate .plain 3 = some (final, ["outer"]) ∧
      (final.jobOutputs.lookup "outer").map (·.entries) = some [("v", "")] ∧
      (final.reusableCalls.lookup "outer").map (fun call =>
        (final.callerOutputs .plain "outer" call).entries) = some [("v", "1")] ∧
      ¬ Folded .plain cancelledMid final ["outer"] := by
  have hends : (cancelledMid.propagate .plain 3).map (fun (final, finalized) =>
      (finalized, (final.jobOutputs.lookup "outer").map (·.entries),
        (final.reusableCalls.lookup "outer").map fun call =>
          (final.callerOutputs .plain "outer" call).entries)) =
      some (["outer"], some [("v", "")], some [("v", "1")]) := by
    decide
  rcases Option.map_eq_some_iff.mp hends with ⟨⟨final, finalized⟩, hresult, hshown⟩
  rcases Prod.mk.inj hshown with ⟨rfl, hboth⟩
  rcases Prod.mk.inj hboth with ⟨hkept, hyields⟩
  refine ⟨final, hresult, hkept, hyields, fun hfolded => ?_⟩
  rcases hfolded.folded "outer" (by simp) with ⟨call, hcall, -, houtputs⟩
  rw [houtputs, Option.map_some, Option.some.injEq] at hkept
  rw [hcall, Option.map_some, hkept] at hyields
  exact absurd hyields (by decide)

/-- The passes end, and the callers of a record are folded as they should exactly if, of those
    whose inner jobs are settled in the end, outputs are recorded of the ones that are not
    open. -/
theorem callers_folded_iff {V : Type} (ev : OutputEvaluator V) (run : RunRecord V) :
    ∃ final finalized,
      (∀ passes, run.reusableCalls.entries.length < passes →
        run.propagate ev passes = some (final, finalized)) ∧
      (Folded ev run final finalized ↔ run.RecordedWhenClosed) := by
  -- every pass but the last folds a caller, so the number of callers bounds them
  have hcard : run.unfolded.card ≤ run.reusableCalls.entries.length := by
    calc run.unfolded.card
        ≤ (run.reusableCalls.entries.map (·.1)).toFinset.card :=
          Finset.card_le_card (Finset.filter_subset _ _)
      _ ≤ (run.reusableCalls.entries.map (·.1)).length := List.toFinset_card_le _
      _ = run.reusableCalls.entries.length := List.length_map _
  rcases exists_propagate ev (Progress.start run) (Nat.lt_succ_of_le hcard) with
    ⟨final, finalized, hfinal, hp, hclosed⟩
  rw [List.nil_append] at hp
  refine ⟨final, finalized, fun passes hpasses => propagate_mono ev hpasses hfinal, ?_, ?_⟩
  -- a caller that stays unfolded shows that its outputs and its status disagree
  · intro hfolded id call hcall hnonempty hinner
    have hsettled : ∀ inner ∈ call.innerJobIds, final.Settled inner := fun inner h =>
      settled_of_settles hp hclosed (hinner inner h)
    constructor
    · -- an open caller with outputs is never folded
      intro hsome hopen
      have hdone : id ∉ finalized := fun hid => hsome (hp.finalized id hid).2.1
      exact hfolded.none_left id call (hp.calls.symm ▸ hcall)
        ((Open.congr (hp.status id hdone)).mpr hopen) hnonempty hsettled
    · -- one without outputs that is not open is folded, but not finalized
      intro hnot hnone
      have hdone : id ∉ finalized := fun hid => hnot (hp.finalized id hid).1
      exact hclosed id call ⟨hp.calls.symm ▸ hcall, (hfolded.others id hdone).2.trans hnone,
        hnonempty, hsettled⟩
  -- every caller whose inner jobs are settled is folded in some pass
  · intro hrec
    have houtputs := outputsFinal_propagate (Progress.start run) hrec
      (fun _ h => (nomatch h)) hfinal
    rw [List.nil_append] at houtputs
    refine ⟨fun id call hcall hopen hnonempty hsettled => ?_, fun id hid => ?_,
      fun id hid => ⟨hp.status id hid, ?_⟩, fun passes hpasses => hclosed.propagate ev hpasses⟩
    -- an open caller is none that was recorded before, so the last pass would have folded it
    · have hfresh : run.jobOutputs.lookup id = none := by
        by_contra hsome
        exact (hrec id call (hp.calls ▸ hcall) hnonempty
          fun inner h => hp.settles inner (hsettled inner h)).mp hsome (hp.open_first hopen)
      have hdone : id ∉ finalized := fun hid => (hp.settled_of_done hid).not_open hopen
      have hnone : final.jobOutputs.lookup id = none := by
        by_contra hsome
        rcases hp.added id hsome hfresh with hin | ⟨hno, -⟩
        · exact hdone hin
        · exact hno (hp.open_first hopen)
      exact hclosed id call ⟨hcall, hnone, hnonempty, hsettled⟩
    · rcases houtputs id hid with ⟨call, hcall, -, hresolved⟩
      rcases hp.finalized id hid with ⟨-, -, -, call', hcall', hstatus, -⟩
      rw [← hp.calls, hcall, Option.some.injEq] at hcall'
      exact ⟨call, hcall, hcall' ▸ hstatus, hresolved⟩
    · by_cases hsome : run.jobOutputs.lookup id = none
      · rw [hsome]
        by_contra hadded
        rcases hp.added id hadded hsome with hin | ⟨hno, call, hcall, hnonempty, hsettled⟩
        · exact hid hin
        · exact (hrec id call hcall hnonempty
            fun inner h => hp.settles inner (hsettled inner h)).mpr hno hsome
      · exact hp.kept id hsome

end Preloop
