import PreloopControl.GithubBreaker

/-!
# The Breaker Holds Its Window

After a trip no caller should be let through before the window ends, unless a success
closed the breaker in between; a window that GitHub named should not be shortened by a
later failure; and once the window has ended one probe at a time should go through.

The breaker keeps one window and one slot, and does not know who reports. A failure
that opens a shorter window replaces a longer one, and every failure and every success
frees the slot, whoever holds it. What holds is said of runs in which no report does
harm by that.

## Main definitions

* `StandingWindow`: A window that was opened and not closed by a success.
* `Outstanding`: A probe that has neither reported nor lapsed.
* `KeepsWindow`, `KeepsSlot`: What a report leaves alone.

## Theorems

* `breaker_move`: What a call does.
* `windows_step`, `slot_step`: What a call keeps.
* `breaker_safe`: What is seen of a run whose reports keep window and slot.
* `late_failure_shortens`: A failure sent before the trip shortens its window.
-/

namespace Preloop

variable {config : BreakerConfig} {s s' : BreakerState} {past ns : List BreakerNote}
  {now : Nat}

/-! ## What is standing -/

/-- A window that was opened and not closed by a success since. -/
def StandingWindow (past : List BreakerNote) (until_ : Nat) : Prop :=
  ∃ pre now limited post, past = pre ++ .opened now until_ limited :: post ∧
    ∀ t, BreakerNote.closed t ∉ post

/-- A probe let through at some time has neither reported nor lapsed. -/
def Outstanding (config : BreakerConfig) (past : List BreakerNote) (now probe since : Nat) :
    Prop :=
  now < since + config.probeTimeout ∧
    ∃ pre post, past = pre ++ .granted probe since true :: post ∧
      ∀ t, BreakerNote.reported probe t ∉ post

theorem StandingWindow.of_append {until_ : Nat} (h : StandingWindow (past ++ ns) until_) :
    (StandingWindow past until_ ∧ ∀ t, BreakerNote.closed t ∉ ns) ∨
      ∃ t limited, BreakerNote.opened t until_ limited ∈ ns := by
  rcases h with ⟨pre, t, limited, post, hsplit, hopen⟩
  rcases Machine.split_append hsplit with ⟨post', hpast, rfl⟩ | ⟨pre', _, hns⟩
  · refine .inl ⟨⟨pre, t, limited, post', hpast, fun t hc => hopen t ?_⟩, fun t hc => hopen t ?_⟩
    · exact List.mem_append_left _ hc
    · exact List.mem_append_right _ hc
  · exact .inr ⟨t, limited, by rw [hns]; simp⟩

theorem Outstanding.of_append {probe since : Nat}
    (h : Outstanding config (past ++ ns) now probe since) :
    (Outstanding config past now probe since ∧ ∀ t, BreakerNote.reported probe t ∉ ns) ∨
      BreakerNote.granted probe since true ∈ ns := by
  rcases h with ⟨hlt, pre, post, hsplit, hopen⟩
  rcases Machine.split_append hsplit with ⟨post', hpast, rfl⟩ | ⟨pre', _, hns⟩
  · refine .inl ⟨⟨hlt, pre, post', hpast, fun t hc => hopen t ?_⟩, fun t hc => hopen t ?_⟩
    · exact List.mem_append_left _ hc
    · exact List.mem_append_right _ hc
  · exact .inr (by rw [hns]; simp)

/-- A probe that is outstanding was so before. -/
theorem Outstanding.earlier {now' probe since : Nat}
    (h : Outstanding config past now' probe since) (hle : now ≤ now') :
    Outstanding config past now probe since :=
  ⟨Nat.lt_of_le_of_lt hle h.1, h.2⟩

/-! ## The condition -/

/-- A report opens no window that ends before the one it replaces. -/
def KeepsWindow (config : BreakerConfig) (s : BreakerState) : Nat × BreakerCall → Prop
  | (now, .report _ report) => ∀ wait, report.opensFor config s.breaker = some wait →
      ∀ until_, s.breaker.openUntil = some until_ → until_ ≤ now + wait
  | (_, .acquire) => True

/-- A report that comes while another caller's probe is outstanding, and frees its slot or
    finds it freed, leaves the breaker closed, or open until the probe has lapsed. -/
def KeepsSlot (config : BreakerConfig) (past : List BreakerNote) (s : BreakerState) :
    Nat × BreakerCall → Prop
  | (now, .report permit report) => ∀ probe since, Outstanding config past now probe since →
      probe ≠ permit → (report.freesSlot = true ∨ s.breaker.probeStarted ≠ some since) →
      ∀ until_, report.windowAfter config now s.breaker = some until_ →
        since + config.probeTimeout ≤ until_
  | (_, .acquire) => True

/-- The condition of a run. -/
def KeepsBreaker (config : BreakerConfig) (past : List BreakerNote) (s : BreakerState)
    (e : Nat × BreakerCall) : Prop :=
  KeepsWindow config s e ∧ KeepsSlot config past s e

/-! ## Moves -/

/-- What a call does. -/
inductive BreakerMove (config : BreakerConfig) (s : BreakerState) :
    Nat × BreakerCall → BreakerState → List BreakerNote → Prop
  | refused {now : Nat} (wait : Nat) : s.clock ≤ now →
      BreakerMove config s (now, .acquire) ⟨s.breaker, now, s.granted⟩ [.refused now wait]
  | passed {now : Nat} : s.clock ≤ now → s.breaker.openUntil = none →
      BreakerMove config s (now, .acquire) ⟨s.breaker, now, s.granted + 1⟩
        [.granted s.granted now false]
  | probed {now until_ : Nat} : s.clock ≤ now → s.breaker.openUntil = some until_ → until_ ≤ now →
      s.breaker.probeLive config now = false →
      BreakerMove config s (now, .acquire)
        ⟨{ s.breaker with probeStarted := some now }, now, s.granted + 1⟩
        [.granted s.granted now true]
  | reported {now permit : Nat} {report : BreakerReport} : s.clock ≤ now →
      BreakerMove config s (now, .report permit report)
        ⟨report.apply config now s.breaker, now, s.granted⟩
        (s.reportSeen config now permit report)

theorem breaker_move {e : Nat × BreakerCall} (h : BreakerState.advance config e s = some (s', ns)) :
    BreakerMove config s e s' ns := by
  rcases e with ⟨now, call⟩
  unfold BreakerState.advance at h
  -- the clock does not go back
  rcases Option.ite_none_right_eq_some.mp h with ⟨hclock, h⟩
  cases call with
  | report permit report =>
      rcases Prod.mk.inj (Option.some.inj h) with ⟨rfl, rfl⟩
      exact .reported hclock
  | acquire =>
      simp only [BreakerState.acquire, GithubBreaker.acquire] at h
      -- by what the breaker says of the time: closed, open, or open with the window over
      cases hremaining : s.breaker.remaining now with
      | some wait =>
          simp only [hremaining, Option.some.injEq, Prod.mk.injEq] at h
          rcases h with ⟨rfl, rfl⟩
          exact .refused wait hclock
      | none =>
          cases hopen : s.breaker.openUntil with
          | none =>
              simp only [hremaining, hopen, Option.isSome_none, Bool.false_eq_true, if_false,
                Option.some.injEq, Prod.mk.injEq] at h
              rcases h with ⟨rfl, rfl⟩
              exact .passed hclock hopen
          | some until_ =>
              have hsome : s.breaker.openUntil.isSome = true := by rw [hopen, Option.isSome_some]
              -- the window is over: one probe is let through, while the others still wait
              cases hlive : s.breaker.probeLive config now with
              | true =>
                  simp only [hremaining, hsome, hlive, if_true, Option.some.injEq,
                    Prod.mk.injEq] at h
                  rcases h with ⟨rfl, rfl⟩
                  exact .refused _ hclock
              | false =>
                  simp only [hremaining, hsome, hlive, Bool.false_eq_true, if_false, if_true,
                    Option.some.injEq, Prod.mk.injEq] at h
                  rcases h with ⟨rfl, rfl⟩
                  refine .probed hclock hopen (Nat.le_of_not_lt fun hlt => ?_) hlive
                  simp [GithubBreaker.remaining, hopen, Option.filter, hlt] at hremaining

theorem mem_reportSeen {permit : Nat} {report : BreakerReport} {n : BreakerNote}
    (h : n ∈ s.reportSeen config now permit report) :
    n = .reported permit now ∨
      (∃ wait, report.opensFor config s.breaker = some wait ∧
        n = .opened now (now + wait) report.limits) ∨
      (report = .success ∧ n = .closed now) := by
  unfold BreakerState.reportSeen at h
  rcases List.mem_cons.mp h with h | h
  · exact .inl h
  · cases hopens : report.opensFor config s.breaker with
    | some wait =>
        simp only [hopens, List.mem_singleton] at h
        exact .inr (.inl ⟨wait, rfl, h⟩)
    | none =>
        simp only [hopens] at h
        by_cases hsuccess : report = .success
        · rw [if_pos hsuccess] at h
          exact .inr (.inr ⟨hsuccess, List.mem_singleton.mp h⟩)
        · rw [if_neg hsuccess] at h
          exact absurd h List.not_mem_nil

/-! ## The window -/

/-- Every standing window lies within the one the breaker keeps. -/
def WindowKept (past : List BreakerNote) (s : BreakerState) : Prop :=
  ∀ until_, StandingWindow past until_ → ∃ u, s.breaker.openUntil = some u ∧ until_ ≤ u

theorem windows_step {e : Nat × BreakerCall} (h : WindowKept past s) (hok : KeepsWindow config s e)
    (hm : BreakerMove config s e s' ns) : WindowKept (past ++ ns) s' := by
  intro until_ hstanding
  have hcases := hstanding.of_append
  cases hm with
  -- a call that reports nothing leaves the window it found
  | refused wait hclock => exact h until_ (hcases.resolve_right (by simp)).1
  | passed hclock hopen => exact h until_ (hcases.resolve_right (by simp)).1
  | probed hclock hopen hle hlive => exact h until_ (hcases.resolve_right (by simp)).1
  | @reported now permit report hclock =>
      show ∃ u, (report.apply config now s.breaker).openUntil = some u ∧ _
      rw [BreakerReport.openUntil_report]
      unfold BreakerReport.windowAfter
      cases hopens : report.opensFor config s.breaker with
      -- the report opens a window of its own
      | some wait =>
          refine ⟨now + wait, rfl, ?_⟩
          rcases hcases with ⟨hold, _⟩ | ⟨t, limited, hmem⟩
          · -- an older window: it ends before the new one
            rcases h until_ hold with ⟨u, hu, hle⟩
            exact hle.trans (hok wait hopens u hu)
          · rcases mem_reportSeen hmem with hn | ⟨wait', hwait', hn⟩ | ⟨_, hn⟩
            · cases hn
            · rw [hopens, Option.some.injEq] at hwait'
              subst hwait'
              rw [(BreakerNote.opened.inj hn).2.1]
            · cases hn
      | none =>
          -- without a window of its own, only a success ends the old one
          rcases hcases with ⟨hold, hopen⟩ | ⟨t, limited, hmem⟩
          · by_cases hsuccess : report = .success
            · refine absurd ?_ (hopen now)
              rw [hsuccess]
              simp [BreakerState.reportSeen, BreakerReport.opensFor]
            · simp only [if_neg hsuccess]
              exact h until_ hold
          · rcases mem_reportSeen hmem with hn | ⟨wait', hwait', hn⟩ | ⟨_, hn⟩
            · cases hn
            · rw [hopens] at hwait'
              cases hwait'
            · cases hn

/-! ## The slot -/

/-- The slot is the outstanding probe's, or the breaker is closed or open until the probe
    has lapsed. -/
def SlotKept (config : BreakerConfig) (past : List BreakerNote) (s : BreakerState) : Prop :=
  ∀ probe since, Outstanding config past s.clock probe since → since ≤ s.clock ∧
    (s.breaker.probeStarted = some since ∨
      ∀ until_, s.breaker.openUntil = some until_ → since + config.probeTimeout ≤ until_)

/-- No probe is outstanding where another one is let through. -/
theorem not_outstanding {until_ probe since : Nat} (h : SlotKept config past s)
    (hclock : s.clock ≤ now) (hopen : s.breaker.openUntil = some until_) (hle : until_ ≤ now)
    (hlive : s.breaker.probeLive config now = false) :
    ¬ Outstanding config past now probe since := by
  intro hout
  have hlapse := hout.1
  rcases h probe since (hout.earlier hclock) with ⟨hsince, hslot | hwindow⟩
  · simp only [GithubBreaker.probeLive, hslot, Option.any_some, decide_eq_false_iff_not] at hlive
    omega
  · have := hwindow until_ hopen
    omega

theorem slot_step {e : Nat × BreakerCall} (h : SlotKept config past s)
    (hok : KeepsSlot config past s e) (hm : BreakerMove config s e s' ns) :
    SlotKept config (past ++ ns) s' := by
  intro probe since hout
  have hcases := hout.of_append
  cases hm with
  -- the permit was out before, so its slot was held before, and time only goes on
  | refused wait hclock =>
      rcases h probe since ((hcases.resolve_right (by simp)).1.earlier hclock) with ⟨hsince, hslot⟩
      exact ⟨hsince.trans hclock, hslot⟩
  | passed hclock hopen =>
      rcases h probe since ((hcases.resolve_right (by simp)).1.earlier hclock) with ⟨hsince, hslot⟩
      exact ⟨hsince.trans hclock, hslot⟩
  | probed hclock hopen hle hlive =>
      rcases hcases with ⟨hold, _⟩ | hmem
      -- a probe that is out and live would have been found holding the slot
      · exact absurd hold (not_outstanding h hclock hopen hle hlive)
      · simp only [List.mem_singleton, BreakerNote.granted.injEq] at hmem
        rw [hmem.2.1]
        exact ⟨Nat.le_refl _, .inl rfl⟩
  | @reported now permit report hclock =>
      -- a report grants no permit
      have hnew : BreakerNote.granted probe since true ∉ s.reportSeen config now permit report := by
        intro hmem
        rcases mem_reportSeen hmem with hn | ⟨_, _, hn⟩ | ⟨_, hn⟩ <;> cases hn
      rcases hcases.resolve_right hnew with ⟨hold, hsilent⟩
      have hother : probe ≠ permit := by
        rintro rfl
        exact hsilent now List.mem_cons_self
      have hkept := hok probe since hold hother
      refine ⟨(h probe since (hold.earlier hclock)).1.trans hclock, ?_⟩
      show (report.apply config now s.breaker).probeStarted = _ ∨
        ∀ until_, (report.apply config now s.breaker).openUntil = _ → _
      rw [BreakerReport.openUntil_report, BreakerReport.probeStarted_report]
      by_cases hfrees : report.freesSlot = true
      · exact .inr (hkept (.inl hfrees))
      · rw [if_neg hfrees]
        by_cases hslot : s.breaker.probeStarted = some since
        · exact .inl hslot
        · exact .inr (hkept (.inr hslot))

/-! ## Runs -/

/-- What a note must not follow. -/
def BreakerSafe (config : BreakerConfig) (pre : List BreakerNote) : BreakerNote → Prop
  | .granted _ now probe => (∀ until_, StandingWindow pre until_ → until_ ≤ now) ∧
      (probe = true → ∀ other since, ¬ Outstanding config pre now other since)
  | .opened _ until_ _ => ∀ earlier, StandingWindow pre earlier → earlier ≤ until_
  | .refused _ _ | .reported _ _ | .closed _ => True

/-- In a run whose reports keep the window and the slot, no caller is let through before a
    standing window ends, no window is shortened, and no probe is let through while another
    one is outstanding. -/
theorem breaker_safe
    (hrun : (breakerMachine config).Run (KeepsBreaker config) .start past s) :
    ∀ pre n post, past = pre ++ n :: post → BreakerSafe config pre n := by
  refine hrun.splits (I := fun past s => WindowKept past s ∧ SlotKept config past s) ?_ ?_
  · refine ⟨fun _ hstanding => ?_, fun _ _ hout => ?_⟩
    · rcases hstanding with ⟨pre, _, _, post, hsplit, _⟩
      simp at hsplit
    · rcases hout with ⟨_, pre, post, hsplit, _⟩
      simp at hsplit
  · intro past s e s' ns h hok he
    have hm := breaker_move he
    refine ⟨⟨windows_step h.1 hok.1 hm, slot_step h.2 hok.2 hm⟩, fun pre n post hns => ?_⟩
    -- by what the call met: a standing window, a closed breaker, a free probe, or a report
    cases hm with
    | refused wait hclock =>
        rcases Machine.split_singleton hns with ⟨_, rfl⟩
        trivial
    | passed hclock hopen =>
        rcases Machine.split_singleton hns with ⟨rfl, rfl⟩
        rw [List.append_nil]
        refine ⟨fun until_ hstanding => ?_, fun hprobe => by cases hprobe⟩
        rcases h.1 until_ hstanding with ⟨u, hu, _⟩
        rw [hopen] at hu
        cases hu
    | probed hclock hopen hle hlive =>
        rcases Machine.split_singleton hns with ⟨rfl, rfl⟩
        rw [List.append_nil]
        refine ⟨fun until_ hstanding => ?_, fun _ other since => ?_⟩
        · rcases h.1 until_ hstanding with ⟨u, hu, hwithin⟩
          rw [hopen, Option.some.injEq] at hu
          exact (hu ▸ hwithin).trans hle
        · exact not_outstanding h.2 hclock hopen hle hlive
    | @reported now permit report hclock =>
        have hmem : n ∈ s.reportSeen config now permit report := by rw [hns]; simp
        rcases mem_reportSeen hmem with rfl | ⟨wait, hopens, rfl⟩ | ⟨_, rfl⟩
        · trivial
        · intro earlier hstanding
          -- the report itself is the only note in front of the window it opens
          have hpre : pre = [.reported permit now] := by
            simp only [BreakerState.reportSeen, hopens] at hns
            cases pre with
            | nil => simp at hns
            | cons first rest =>
                rcases List.cons.inj hns with ⟨rfl, hrest⟩
                rw [(Machine.split_singleton hrest).1]
          rw [hpre] at hstanding
          rcases h.1 earlier (hstanding.of_append.resolve_right (by simp)).1 with ⟨u, hu, hle⟩
          exact hle.trans (hok.1 wait hopens u hu)
        · trivial

/-! ## Two runs -/

theorem keepsBreaker_acquire (now : Nat) : KeepsBreaker config past s (now, .acquire) :=
  ⟨trivial, trivial⟩

/-- A call on an enabled breaker is rate limited, and a probe follows after the window. -/
theorem limited_run : ∃ s, (breakerMachine {}).Run (KeepsBreaker {}) .start
    [.granted 0 0 false, .reported 0 0, .opened 0 (60 * oneSecond) true,
      .granted 1 (60 * oneSecond) true] s := by
  have hfirst : (breakerMachine {}).Run (KeepsBreaker {}) .start
      [.granted 0 0 false] ⟨.new, 0, 1⟩ :=
    .step .start (keepsBreaker_acquire 0) rfl
  have hlimited := hfirst.step (e := (0, .report 0 (.failure (.rateLimited (some (60 * oneSecond)))
    []))) ⟨fun _ _ _ h => (by cases h), fun probe since hout => ?_⟩ rfl
  · exact ⟨_, hlimited.step (keepsBreaker_acquire (60 * oneSecond)) rfl⟩
  · rcases hout with ⟨_, pre, post, hsplit, _⟩
    cases (Machine.split_singleton hsplit).2

/-- The probe comes after the window, and is the only one. -/
theorem breaker_safe_of_limited :
    (∀ until_, StandingWindow
        [.granted 0 0 false, .reported 0 0, .opened 0 (60 * oneSecond) true] until_ →
      until_ ≤ 60 * oneSecond) ∧
    ∀ other since, ¬ Outstanding {}
      [.granted 0 0 false, .reported 0 0, .opened 0 (60 * oneSecond) true]
      (60 * oneSecond) other since := by
  rcases limited_run with ⟨s, hrun⟩
  have hsafe := breaker_safe hrun
    [.granted 0 0 false, .reported 0 0, .opened 0 (60 * oneSecond) true]
    (.granted 1 (60 * oneSecond) true) [] rfl
  exact ⟨hsafe.1, hsafe.2 rfl⟩

/-- A failure sent before the trip shortens its window: GitHub names an hour, two other
    callers report that it could not answer, and a minute later a caller is let through. -/
theorem late_failure_shortens : ∃ pre s,
    (breakerMachine {}).Run (fun _ _ _ => True) .start
      (pre ++ [.granted 3 (60 * oneSecond) true]) s ∧
    StandingWindow pre (3600 * oneSecond) := by
  have hexec : (breakerMachine {}).exec
      [(0, .acquire), (0, .acquire), (0, .acquire),
        (0, .report 0 (.failure (.rateLimited (some (3600 * oneSecond))) [])),
        (0, .report 1 (.failure .unavailable [])), (0, .report 2 (.failure .unavailable [])),
        (60 * oneSecond, .acquire)] [] .start =
      some ([.granted 0 0 false, .granted 1 0 false, .granted 2 0 false, .reported 0 0,
          .opened 0 (3600 * oneSecond) true, .reported 1 0, .reported 2 0,
          .opened 0 (60 * oneSecond) false, .granted 3 (60 * oneSecond) true],
        ⟨⟨3, some (60 * oneSecond), some (60 * oneSecond), 2, 2, false, some []⟩,
          60 * oneSecond, 4⟩) := by decide
  refine ⟨[.granted 0 0 false, .granted 1 0 false, .granted 2 0 false, .reported 0 0,
    .opened 0 (3600 * oneSecond) true, .reported 1 0, .reported 2 0,
    .opened 0 (60 * oneSecond) false], _, Machine.run_of_exec (fun _ _ _ _ => trivial) .start hexec,
    ?_⟩
  refine ⟨[.granted 0 0 false, .granted 1 0 false, .granted 2 0 false, .reported 0 0], 0, true,
    [.reported 1 0, .reported 2 0, .opened 0 (60 * oneSecond) false], rfl, fun t => ?_⟩
  simp

end Preloop
