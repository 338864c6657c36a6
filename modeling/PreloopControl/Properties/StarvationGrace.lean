import PreloopControl.Starvation
import PreloopControl.System

/-!
# The Grace of a Starving Job

A ready job fails as starved when no runner appeared for it within a grace period. That is
so as long as the sweep measures from an instant before which nothing counts. A runner that
matches clears the mark of the job, and without a mark the sweep measures from the instant
the job was enqueued: the first tick after the runner is gone may fail the job at once. The
same happens to an old job while the pool prepares, which is always measured from there,
and a mark may stand before the instant the job was enqueued, when that was stamped ahead of
the node's clock.

## Main definitions

* `StarvationWatch.standing`: The stamp that still stands after some ticks.
* `Justified`: A report with no runner and no beginning within its grace period.
* `Forgotten`: An instant within the grace period that the sweep does not know of.

## Theorems

* `worth_tick`: What the marks of a run are worth.
* `runner_forgotten`: A job fails fifteen seconds after a runner matched it.
* `starves_justified_iff`: Exactly the runs without a forgotten instant are as they should.
-/

namespace Preloop

open Machine

namespace StarvationWatch

variable (w : StarvationWatch)

/-- The stamp that stands after some ticks: that of the last tick that stamped the mark since
    the last one that cleared it. -/
def standing (past : List ReaperTick) : Option Int :=
  ((past.reverse.takeWhile fun t => !decide (w.Clears t)).find?
    fun t => decide (w.Stamps t)).map (·.now)

theorem standing_concat (past : List ReaperTick) (t : ReaperTick) :
    w.standing (past ++ [t]) =
      if w.Clears t then none else if w.Stamps t then some t.now else w.standing past := by
  rw [standing, List.reverse_concat, List.takeWhile_cons]
  by_cases hclears : w.Clears t
  · rw [if_neg (by simpa using hclears), if_pos hclears]
    rfl
  · rw [if_pos (by simpa using hclears), if_neg hclears, List.find?_cons]
    by_cases hstamps : w.Stamps t
    · rw [if_pos hstamps, decide_eq_true hstamps]
      rfl
    · rw [if_neg hstamps, decide_eq_false hstamps]
      rfl

/-- The instant the sweep of a tick measures from, after the ticks before it. -/
def measuredFrom (past : List ReaperTick) (t : ReaperTick) : Int :=
  w.measured t (w.standing (past ++ [t]))

/-- An instant lies within the grace period of a tick, but not for the sweep. -/
def Forgotten (past : List ReaperTick) (t : ReaperTick) (instant : Int) : Prop :=
  w.measuredFrom past t + grace t ≤ t.now ∧ t.now < instant + grace t

instance (past : List ReaperTick) (t : ReaperTick) (instant : Int) :
    Decidable (w.Forgotten past t instant) := inferInstanceAs (Decidable (_ ∧ _))

/-- At a tick that may report the job, nothing is forgotten: neither when it began to wait,
    nor a tick at which a runner matched it. -/
def Remembered (past : List ReaperTick) (t : ReaperTick) : Prop :=
  w.Exposed t → ¬ w.Forgotten past t w.waitingSince ∧
    ∀ m ∈ past ++ [t], w.Matched m → ¬ w.Forgotten past t m.now

/-- No runner matched the job within the grace period before a tick, and it has waited for
    as long since it was enqueued and since the node booted. -/
def Justified (past : List ReaperTick) (t : ReaperTick) (g : Int) : Prop :=
  (∀ m ∈ past ++ [t], w.Matched m → m.now + g ≤ t.now) ∧ w.enqueuedAt + g ≤ t.now ∧
    w.bootedAt + g ≤ t.now

end StarvationWatch

/-- The note reports that the job starves for want of a runner within a grace period. -/
def TickNote.Starves (n : TickNote) (g : Int) : Prop :=
  ∃ reason, n.failed = some (.starve reason g)

/-- Whenever the job is reported as starved, it is so with reason. -/
def StarvesJustified (w : StarvationWatch) (past : List TickNote) : Prop :=
  ∀ pre n post, past = pre ++ n :: post → ∀ g, n.Starves g →
    w.Justified (pre.map (·.tick)) n.tick g

variable {w : StarvationWatch} {ok : List TickNote → Option Int → ReaperTick → Prop}
  {past : List TickNote} {mark : Option Int}

/-- What a mark is worth after some ticks: the stamp that stands, or the beginning of the
    wait. -/
def Worth (w : StarvationWatch) (past : List TickNote) (mark : Option Int) : Prop :=
  mark.getD w.waitingSince = (w.standing (past.map (·.tick))).getD w.waitingSince

/-- A tick makes of the mark what it makes of the stamp. -/
theorem worth_tick (h : Worth w past mark) (t : ReaperTick) :
    (w.tick t mark).1.getD w.waitingSince =
      (w.standing (past.map (·.tick) ++ [t])).getD w.waitingSince := by
  rw [w.getD_keepMark, w.standing_concat]
  by_cases hclears : w.Clears t
  · rw [if_pos hclears, if_pos hclears]
    rfl
  · rw [if_neg hclears, if_neg hclears]
    by_cases hstamps : w.Stamps t
    · rw [if_pos hstamps, if_pos hstamps]
      rfl
    · rw [if_neg hstamps, if_neg hstamps]
      exact h

/-- When a note of a run reports that the job starves, in terms of the ticks before it. -/
theorem starves_iff (h : (starvationMachine w).Run ok none past mark) :
    ∀ pre n post, past = pre ++ n :: post → ∀ g, n.Starves g ↔
      w.Exposed n.tick ∧ g = StarvationWatch.grace n.tick ∧
        w.measuredFrom (pre.map (·.tick)) n.tick + g ≤ n.tick.now := by
  refine h.splits (I := Worth w) (P := fun pre n => ∀ g, n.Starves g ↔
    w.Exposed n.tick ∧ g = StarvationWatch.grace n.tick ∧
      w.measuredFrom (pre.map (·.tick)) n.tick + g ≤ n.tick.now) rfl
    fun {past mark t mark' ns} hworth _ he => ?_
  rcases Prod.mk.inj (Option.some.inj he) with ⟨rfl, rfl⟩
  have hkept := worth_tick hworth t
  refine ⟨?_, fun pre n post hsplit g => ?_⟩
  · rw [Worth, List.map_append]
    exact hkept
  · rcases split_singleton hsplit with ⟨rfl, rfl⟩
    rw [List.append_nil, TickNote.Starves, w.tick_starves_iff]
    -- the sweep measures from what the mark is worth by then
    have hmeasured : w.measured t (w.tick t mark).1 = w.measuredFrom (past.map (·.tick)) t := by
      rw [StarvationWatch.measuredFrom, StarvationWatch.measured, StarvationWatch.measured, hkept]
    rw [hmeasured]
    rfl

/-- A tick of a node without a pool, with the runners registered at it. -/
def plainTick (now : Int) (runners : List (List String)) : ReaperTick :=
  ⟨seconds now, false, [], runners, runners, false⟩

/-- A job on a node that boots when it is enqueued. -/
def plainWatch : StarvationWatch := ⟨.plain, ["ubuntu-latest"], 0, 0⟩

/-- A clock that does not go back, tested. -/
def steadyClock (past : List TickNote) (_ : Option Int) (t : ReaperTick) : Bool :=
  past.all fun n => n.tick.now ≤ t.now

/-- A runner matches a job ten minutes after it was enqueued and is gone fifteen seconds
    later, when the job fails since none had appeared within two minutes. -/
theorem runner_forgotten :
    ∃ past mark, (starvationMachine plainWatch).Run
        (fun past _ t => ∀ n ∈ past, n.tick.now ≤ t.now) none past mark ∧
      past.map (fun n => (n.tick.now, n.failed)) =
        [(seconds 600, none), (seconds 615, some (.starve
          ("no runner is registered for `runs-on: ubuntu-latest` and none appeared within 120s, " ++
            "so the job cannot be scheduled") (seconds 120)))] ∧
      past.head?.any (fun n => plainWatch.Matched n.tick) = true ∧
      ¬ StarvesJustified plainWatch past := by
  have hexec : ((starvationMachine plainWatch).execUnder steadyClock
      [plainTick 600 [["ubuntu-latest"]], plainTick 615 []] [] none).isSome = true := by decide
  rcases Option.isSome_iff_exists.mp hexec with ⟨⟨past, mark⟩, hrun⟩
  refine ⟨past, mark, run_of_execUnder (fun past _ t hcheck n hn => ?_) .start hrun, ?_⟩
  · exact of_decide_eq_true (List.all_eq_true.mp hcheck n hn)
  · rcases Prod.mk.inj (Option.some.inj hrun) with ⟨rfl, -⟩
    refine ⟨by decide +kernel, by decide, fun hjust => ?_⟩
    have hstarves : (plainWatch.tick (plainTick 615 [])
        (plainWatch.tick (plainTick 600 [["ubuntu-latest"]]) none).1).2.failed =
          some (.starve (starvedReason ["ubuntu-latest"] (seconds 120)) (seconds 120)) := by
      decide +kernel
    rcases hjust [_] _ [] rfl (seconds 120) ⟨_, hstarves⟩ with ⟨hnone, -⟩
    have hmatched := hnone (plainTick 600 [["ubuntu-latest"]]) List.mem_cons_self (by decide)
    exact absurd hmatched (by decide)

/-- In a run of ticks the job is reported as starved only with reason exactly if at no tick
    that may report it the sweep measures from an instant before one that counts. -/
theorem starves_justified_iff (h : (starvationMachine w).Run ok none past mark) :
    StarvesJustified w past ↔
      ∀ pre n post, past = pre ++ n :: post → w.Remembered (pre.map (·.tick)) n.tick := by
  -- were the sweep to forget, it would report the job once too often
  constructor
  · intro hjust pre n post hsplit hexposed
    have hreport := (starves_iff h pre n post hsplit (StarvationWatch.grace n.tick)).mpr
    refine ⟨fun hforgotten => ?_, fun m hm hmatched hforgotten => ?_⟩
    · rcases hjust pre n post hsplit _ (hreport ⟨hexposed, rfl, hforgotten.1⟩) with
        ⟨-, henqueued, hbooted⟩
      have hsince : w.waitingSince + StarvationWatch.grace n.tick ≤ n.tick.now := by
        rcases max_choice w.enqueuedAt w.bootedAt with hmax | hmax
        · rw [StarvationWatch.waitingSince, hmax]
          exact henqueued
        · rw [StarvationWatch.waitingSince, hmax]
          exact hbooted
      exact absurd hforgotten.2 (not_lt.mpr hsince)
    · rcases hjust pre n post hsplit _ (hreport ⟨hexposed, rfl, hforgotten.1⟩) with ⟨hnone, -⟩
      exact absurd hforgotten.2 (not_lt.mpr (hnone m hm hmatched))
  -- a report is due since the waiting and the last match are both remembered
  · intro hremembered pre n post hsplit g hstarves
    rcases (starves_iff h pre n post hsplit g).mp hstarves with ⟨hexposed, rfl, hold⟩
    rcases hremembered pre n post hsplit hexposed with ⟨hsince, hmatches⟩
    have hwaited : w.waitingSince + StarvationWatch.grace n.tick ≤ n.tick.now :=
      not_lt.mp fun hlt => hsince ⟨hold, hlt⟩
    refine ⟨fun m hm hmatched => not_lt.mp fun hlt => hmatches m hm hmatched ⟨hold, hlt⟩, ?_, ?_⟩
    · have hle := le_max_left w.enqueuedAt w.bootedAt
      unfold StarvationWatch.waitingSince at hwaited
      omega
    · have hle := le_max_right w.enqueuedAt w.bootedAt
      unfold StarvationWatch.waitingSince at hwaited
      omega

/-- A job that no runner ever matched fails with reason after two minutes. -/
theorem starves_justified_iff_of_none :
    ∃ past mark, (starvationMachine plainWatch).Run
        (fun past _ t => ∀ n ∈ past, n.tick.now ≤ t.now) none past mark ∧
      past.map (fun n => n.failed.isSome) = [false, true] ∧
      StarvesJustified plainWatch past := by
  have hexec : ((starvationMachine plainWatch).execUnder steadyClock
      [plainTick 60 [], plainTick 130 []] [] none).isSome = true := by decide
  rcases Option.isSome_iff_exists.mp hexec with ⟨⟨past, mark⟩, hrun⟩
  have hsteady : (starvationMachine plainWatch).Run
      (fun past _ t => ∀ n ∈ past, n.tick.now ≤ t.now) none past mark :=
    run_of_execUnder (fun past _ t hcheck n hn =>
      of_decide_eq_true (List.all_eq_true.mp hcheck n hn)) .start hrun
  refine ⟨past, mark, hsteady, ?_, (starves_justified_iff hsteady).mpr ?_⟩
  · rcases Prod.mk.inj (Option.some.inj hrun) with ⟨rfl, -⟩
    decide +kernel
  · intro pre n post hsplit hexposed
    rcases Prod.mk.inj (Option.some.inj hrun) with ⟨rfl, -⟩
    -- the two notes of the run, one after the other
    rcases pre with _ | ⟨first, _ | ⟨second, rest⟩⟩
    · rcases List.cons.inj hsplit with ⟨rfl, -⟩
      exact ⟨by decide +kernel, by decide +kernel⟩
    · rcases List.cons.inj hsplit with ⟨rfl, htail⟩
      rcases List.cons.inj htail with ⟨rfl, -⟩
      exact ⟨by decide +kernel, by decide +kernel⟩
    · simp at hsplit

end Preloop
