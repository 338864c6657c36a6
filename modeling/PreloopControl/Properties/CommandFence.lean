import PreloopControl.Properties.OutputLines

/-!
# The Fence of Stopped Commands

A step that has printed `::stop-commands::` with a token prints what it likes up to the line
that resumes. In between every line is only written to the log.

The token is kept as it was received, and each line is held against it as it is received, that
is masked and shortened. The fence stands up to the line with the printed token if the token was
received as it was printed and no line in between is taken for the resuming one; two masked
texts look alike.

Where the lines stand in the chunks of the process plays no part. The fence may go up in the
middle of a chunk and come down in the middle of another, or with the flush at the end, and the
warning about the buffer, which comes in front of the lines of a chunk, is only written as well.

## Main definitions

* `Announces`: The line puts up a fence as it was printed.
* `ReceivedToken`, `Recognised`: The token and the lines are received as they were printed.

## Theorems

* `logWith_suspended`: A line behind the fence.
* `fence_stands`: The lines from the announcement on.
* `fence_holds`: The lines up to the resuming one, in a run of chunks and flushes.
-/

namespace Preloop

namespace Worker

namespace Output

variable {R : Type} {around : Surroundings R}

/-! ## Lines -/

/-- The line that resumes. -/
def resumeLine (token : Text) : Text := "::".toList ++ (token ++ "::".toList)

/-- The line announces the token. -/
def Announces (around : Surroundings R) (token : Text) (q : Passage R) : Prop :=
  trimStart (around.fromUtf8Lossy q.printed) = "::stop-commands::".toList ++ token

/-- The line is the resuming one. -/
def Resumes (around : Surroundings R) (token : Text) (q : Passage R) : Prop :=
  Text.trim (around.fromUtf8Lossy q.printed) = resumeLine token

/-- The line is received as a command that suspends the others with the token. -/
def ReceivedToken (around : Surroundings R) (token : Text) (q : Passage R) : Prop :=
  ∃ line cmd, received around q.masks q.bytes = some line ∧
    parseCommand around.lowercase line = some (some cmd) ∧ cmd.name = "stop-commands".toList ∧
      cmd.data = token

/-- The line is received as the resuming one exactly if it was printed as that. -/
def Recognised (around : Surroundings R) (token : Text) (q : Passage R) : Prop :=
  ∀ line, received around q.masks q.bytes = some line →
    (Text.trim line = resumeLine token ↔ Resumes around token q)

/-- A line behind the fence is written, or resumes. -/
theorem logWith_suspended {stamp : Bool} {line token : Text} {ctx ctx' : StepContext R}
    (htoken : ctx.stopCommandsToken = some token) (h : logWith around stamp line ctx = some ctx') :
    ctx'.guarded = ctx.guarded ∧
      ctx'.stopCommandsToken = if Text.trim line = resumeLine token then none else some token := by
  rcases Option.map_eq_some_iff.mp h with ⟨after, hafter, rfl⟩
  have htoken' : ({ ctx with stdoutPrefixOverride := some stamp } :
      StepContext R).stopCommandsToken = some token := htoken
  have hsuspended : some (logSuspended around token line
      { ctx with stdoutPrefixOverride := some stamp }) = some after :=
    (log_suspended htoken').symm.trans hafter
  cases hsuspended
  unfold logSuspended resumeLine
  split_ifs
  · exact ⟨rfl, rfl⟩
  · exact ⟨rfl, htoken⟩

/-- The announcing line puts up the fence. -/
theorem announced {q : Passage R} {token : Text} (hlogged : q.Logged around)
    (hnone : q.before.stopCommandsToken = none) (hne : token ≠ [])
    (hreceived : ReceivedToken around token q) :
    q.after.guarded = q.before.guarded ∧ q.after.stopCommandsToken = some token := by
  rcases hlogged with ⟨line, stamp, hline, hlogged⟩
  rcases hreceived with ⟨line', cmd, hline', hparse, hname, hdata⟩
  cases hline.symm.trans hline'
  rcases Option.map_eq_some_iff.mp hlogged with ⟨after, hafter, heq⟩
  have hstop : Stops cmd := ⟨hname, hdata ▸ hne⟩
  have hnone' : ({ q.before with stdoutPrefixOverride := some stamp } :
      StepContext R).stopCommandsToken = none := hnone
  rw [← heq]
  rcases log_effect hnone' hafter with ⟨hno, -⟩ | ⟨cmd', hparse', ⟨-, rfl⟩ | ⟨hnot, -⟩⟩
  · cases hparse.symm.trans hno
  · cases hparse.symm.trans hparse'
    exact ⟨rfl, congrArg some hdata⟩
  · cases hparse.symm.trans hparse'
    exact absurd hstop hnot

/-! ## The fence -/

/-- The step is guarded, and commands are suspended with the token. -/
def Fenced (guarded : Guarded R) (token : Text) (ctx : StepContext R) : Prop :=
  ctx.guarded = guarded ∧ ctx.stopCommandsToken = some token

/-- What lies between two lines does not bring the fence down. -/
theorem Fenced.untouched {guarded : Guarded R} {token : Text} {a b : StepContext R}
    (h : Fenced guarded token a) (hab : Untouched a b) : Fenced guarded token b := by
  have hstopped : a.stopCommandsToken ≠ none := by
    rw [h.2]
    exact Option.some_ne_none token
  exact ⟨(hab.guarded hstopped).trans h.1, hab.token.trans h.2⟩

/-- Lines behind the fence, none of which resumes. -/
theorem fence_stands {guarded : Guarded R} {token : Text} {a b : StepContext R}
    {qs : List (Passage R)} (h : Passes around a qs b) (hfenced : Fenced guarded token a)
    (hnot : ∀ q ∈ qs, Recognised around token q ∧ ¬ Resumes around token q) :
    Fenced guarded token b ∧
      ∀ q ∈ qs, Fenced guarded token q.before ∧ Fenced guarded token q.after := by
  induction h with
  | done hab => exact ⟨hfenced.untouched hab, fun q hq => absurd hq List.not_mem_nil⟩
  | line hab hlogged _ ih =>
      rw [List.forall_mem_cons] at hnot
      rcases hnot with ⟨⟨hrecognised, hother⟩, hnot⟩
      have hbefore := hfenced.untouched hab
      rcases hlogged with ⟨line, stamp, hline, hlogged⟩
      rcases logWith_suspended hbefore.2 hlogged with ⟨hsame, htoken⟩
      rw [if_neg fun hresume => hother ((hrecognised line hline).mp hresume)] at htoken
      have hafter : Fenced guarded token _ := ⟨hsame.trans hbefore.1, htoken⟩
      rcases ih hafter hnot with ⟨hlast, hrest⟩
      exact ⟨hlast, List.forall_mem_cons.mpr ⟨⟨hbefore, hafter⟩, hrest⟩⟩

/-- In every run of chunks and flushes: from the announcing line on nothing changes, line by line
    and up to the end of the run, as long as no line is the resuming one, and the resuming line
    ends that without a change. -/
theorem fence_holds (around : Surroundings R) (token : Text) (ctx : StepContext R)
    (hbuffer : ctx.lineBuffer = []) (before fenced after : List (Passage R)) (q : Passage R)
    (p : Process R)
    (hrun : (outputProcess around).Run (fun _ _ _ => True) ⟨ctx, []⟩
      (before ++ q :: (fenced ++ after)) p)
    (hnone : q.before.stopCommandsToken = none) (hne : token ≠ [])
    (hannounces : Announces around token q) (hprinted : ∀ r ∈ fenced, ¬ Resumes around token r)
    (hreceived : Announces around token q → ReceivedToken around token q)
    (hrecognised : ∀ r ∈ fenced, Recognised around token r) :
    Fenced q.before.guarded token q.after ∧
      (∀ r ∈ fenced, Fenced q.before.guarded token r.before ∧
        Fenced q.before.guarded token r.after) ∧
      (after = [] → Fenced q.before.guarded token p.ctx) ∧
      ∀ r rest, after = r :: rest → Resumes around token r → Recognised around token r →
        Fenced q.before.guarded token r.before ∧ r.after.guarded = q.before.guarded ∧
          r.after.stopCommandsToken = none := by
  -- the run is cut at the announcing line, and what follows it at the end of the fence
  rcases (passes_of_run hbuffer hrun).split with ⟨start, -, hpasses⟩
  cases hpasses with
  | line _ hlogged hrest =>
      have hup := announced hlogged hnone hne (hreceived hannounces)
      rcases hrest.split with ⟨mid, hfenced, hafter⟩
      have hnot : ∀ r ∈ fenced, Recognised around token r ∧ ¬ Resumes around token r :=
        fun r hr => ⟨hrecognised r hr, hprinted r hr⟩
      rcases fence_stands hfenced hup hnot with ⟨hmid, hall⟩
      refine ⟨hup, hall, fun hnil => ?_, fun r rest hcons hresumes hknown => ?_⟩
      · subst hnil
        -- no line came behind: the buffer may still change, the step does not
        cases hafter with
        | done hab => exact hmid.untouched hab
      · subst hcons
        cases hafter with
        | line hab hlogged' _ =>
            have hbefore := hmid.untouched hab
            rcases hlogged' with ⟨line, stamp, hline, hlast⟩
            rcases logWith_suspended hbefore.2 hlast with ⟨hsame, htoken⟩
            rw [if_pos ((hknown line hline).mpr hresumes)] at htoken
            exact ⟨hbefore, hsame.trans hbefore.1, htoken⟩

/-- A step behind the fence that has printed a line. -/
def fencedStep (masks : List Text) (token line : Text) : StepContext Unit :=
  { plainStep masks [] with
    stopCommandsToken := some token
    logFile := "2026-01-01T00:00:00Z ".toList ++ (line ++ ['\n']), logLineCount := 1, clock := 1 }

/-- The fence around a command that is cut by the end of a chunk; the resuming line is flushed. -/
theorem fence_holds_of_path : ∃ past p,
    (outputProcess plainSurroundings).Run (fun _ _ _ => True)
        ⟨plainStep ["abc".toList] [], []⟩ past p ∧
      past.map Passage.printed = [Bytes.utf8 "::stop-commands::end".toList,
        Bytes.utf8 "::add-path::/opt".toList, Bytes.utf8 "::end::".toList] ∧
      p.ctx.guarded = (plainStep ["abc".toList] []).guarded ∧ p.ctx.stopCommandsToken = none := by
  have hexec : (outputProcess plainSurroundings).exec
      [.chunk (Bytes.utf8 "::stop-commands::end\n::add-pa".toList),
        .chunk (Bytes.utf8 "th::/opt\n::end::".toList), .flush] []
      ⟨plainStep ["abc".toList] [], []⟩ = some
        ([⟨Bytes.utf8 "::stop-commands::end".toList, Bytes.utf8 "::stop-commands::end".toList,
            ["abc".toList],
            { plainStep ["abc".toList] [] with lineBuffer := Bytes.utf8 "::add-pa".toList },
            { plainStep ["abc".toList] [] with
              lineBuffer := Bytes.utf8 "::add-pa".toList
              stopCommandsToken := some "end".toList }⟩,
          ⟨Bytes.utf8 "::add-path::/opt".toList, Bytes.utf8 "::add-path::/opt".toList,
            ["abc".toList],
            { plainStep ["abc".toList] [] with
              lineBuffer := Bytes.utf8 "::end::".toList
              stopCommandsToken := some "end".toList },
            { fencedStep ["abc".toList] "end".toList "::add-path::/opt".toList with
              lineBuffer := Bytes.utf8 "::end::".toList }⟩,
          ⟨Bytes.utf8 "::end::".toList, Bytes.utf8 "::end::".toList, ["abc".toList],
            fencedStep ["abc".toList] "end".toList "::add-path::/opt".toList,
            { fencedStep ["abc".toList] "end".toList "::add-path::/opt".toList with
              stopCommandsToken := none }⟩],
          ⟨{ fencedStep ["abc".toList] "end".toList "::add-path::/opt".toList with
            stopCommandsToken := none }, []⟩) := rfl
  have hrun : (outputProcess plainSurroundings).Run (fun _ _ _ => True) _ _ _ :=
    Machine.run_of_exec (fun _ _ _ _ => trivial) .start hexec
  -- a line that is recognised is read from what was received, so it is the line printed
  have hdecoded : ∀ (line : Text) {q : Passage Unit},
      received plainSurroundings q.masks q.bytes = some line →
        plainSurroundings.fromUtf8Lossy q.printed = line →
          Recognised plainSurroundings "end".toList q := by
    intro line q hreceived hdecoded line' hline'
    cases hreceived.symm.trans hline'
    rw [Resumes, hdecoded]
  -- the fence is announced by the first passage and ends with the last
  have hholds := fence_holds plainSurroundings "end".toList (plainStep ["abc".toList] []) rfl []
    [_] [_] _ _ hrun rfl (by decide) (by unfold Announces; decide)
    (List.forall_mem_singleton.mpr (by unfold Resumes; decide))
    (fun _ => ⟨"::stop-commands::end".toList, ⟨"stop-commands".toList, ∅, "end".toList⟩,
      by decide, by decide, rfl, rfl⟩)
    (List.forall_mem_singleton.mpr
      (hdecoded "::add-path::/opt".toList (by decide) (by decide)))
  have hlast := hholds.2.2.2 _ [] rfl (by unfold Resumes; decide)
    (hdecoded "::end::".toList (by decide) (by decide))
  exact ⟨_, _, hrun, rfl, hlast.2.1, hlast.2.2⟩

/-- Another mask ends the fence of a token that is masked. -/
theorem fence_of_mask_falls : ∃ p : Process Unit,
    ((outputProcess plainSurroundings).exec
      [.chunk (Bytes.utf8 "::stop-commands::abc\n::xyz::\n::add-path::/opt\n".toList)] []
      ⟨plainStep ["abc".toList, "xyz".toList] [], []⟩).map Prod.snd = some p ∧
      (∀ line ∈ ["::xyz::".toList, "::add-path::/opt".toList],
        Text.trim line ≠ resumeLine "abc".toList) ∧
      p.ctx.guarded ≠ (plainStep ["abc".toList, "xyz".toList] []).guarded := by
  refine ⟨⟨{ fencedStep ["abc".toList, "xyz".toList] [] "::add-path::/opt".toList with
    stopCommandsToken := none, extraPath := ["/opt".toList] }, []⟩, rfl, by decide, ?_⟩
  intro hsame
  have hpath : ["/opt".toList] = [] := congrArg Guarded.extraPath hsame
  cases hpath

end Output

end Worker

end Preloop
