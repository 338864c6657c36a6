import PreloopControl.Worker.LeaseRenewal

/-!
# The End of Lease Renewal

When an attempt to renew a lease has to be the last, said on the attempts alone: the last
deadline that was read has passed, or five attempts in a row have failed and no deadline is
known. Between two attempts there is a delay, but for one attempt at once after a 401.

A token refreshed after a 401 starts the loop over with its failures forgotten and its
deadline not asked for, and a token refreshed before an attempt forgets failures too. The
loop ends as it should exactly when no refresh comes in between.

## Main definitions

* `knownDeadline`, `failingRow`: What the attempts so far come to.
* `Lawful`: What has to come after an attempt.
* `Undisturbed`, `Meets`: No refresh comes in between.

## Theorems

* `kept_after`: What the loop keeps is what the attempts come to.
* `lawful_iff_meets`: One attempt.
* `renewal_lawful_iff`: All attempts of a run.
-/

namespace Preloop

namespace Worker

/-! ## What the attempts come to -/

/-- The attempt did not renew the lease. -/
def RenewAttempt.failed (a : RenewAttempt) : Bool :=
  match a.outcome with
  | .renewed _ => false
  | _ => true

/-- The attempt was unauthorized, and its token refreshed. -/
def RenewAttempt.refreshed (a : RenewAttempt) : Bool := a.outcome = .unauthorized true

/-- What an attempt makes of the deadline. -/
def readDeadline (deadline : Option Int) (a : RenewAttempt) : Option Int :=
  match a.outcome with
  | .renewed lockedUntil => lockedUntil.or deadline
  | _ => deadline

/-- The last deadline that was read. -/
def knownDeadline (attempts : List RenewAttempt) : Option Int := attempts.foldl readDeadline none

/-- The attempts that have failed since the last success. -/
def failingRow (attempts : List RenewAttempt) : List RenewAttempt :=
    attempts.rtakeWhile RenewAttempt.failed

/-- The lease has expired when the attempt is judged. -/
def Expired (before : List RenewAttempt) (a : RenewAttempt) : Prop :=
  ∃ deadline, knownDeadline before = some deadline ∧ leaseExpired deadline a.now = true

/-- What has to come after an attempt. -/
structure Lawful (timing : LeaseTiming) (before : List RenewAttempt) (a : RenewAttempt)
    (next : RenewNext) :
    Prop where
  expired : a.failed = true → Expired before a → next = .lost
  exhausted : a.failed = true → knownDeadline before = none →
    5 ≤ (failingRow (before ++ [a])).length → next = .lost
  delayed : ∀ delay, next = .sleep delay → 0 < delay
  once : next = .again → (∃ b, a.outcome = .unauthorized b) ∧
    ∀ pre b, before = pre ++ [b] → nextAfter timing pre b ≠ some .again

/-- No token was refreshed after an attempt of the row, or before one but the first. -/
def Undisturbed (row : List RenewAttempt) : Prop :=
  (∀ b ∈ row, b.refreshed = false) ∧ ∀ b ∈ row.tail, b.dueRefresh ≠ some true

/-- No refresh keeps the loop from ending, and none follows another. -/
structure Meets (before : List RenewAttempt) (a : RenewAttempt) : Prop where
  early : a.refreshed = true →
    ¬ Expired before a ∧ ∀ b, before.getLast? = some b → b.refreshed = false
  row : a.failed = true → a.outcome ≠ .notFound → knownDeadline before = none →
    4 ≤ (failingRow before).length → Undisturbed (failingRow (before ++ [a]))

theorem knownDeadline_concat (before : List RenewAttempt) (a : RenewAttempt) :
    knownDeadline (before ++ [a]) = readDeadline (knownDeadline before) a := by
  rw [knownDeadline, List.foldl_append]
  rfl

theorem failingRow_concat_failed {before : List RenewAttempt} {a : RenewAttempt}
    (h : a.failed = true) :
    failingRow (before ++ [a]) = failingRow before ++ [a] := by
  rw [failingRow, List.rtakeWhile_concat_pos _ _ _ h, failingRow]

theorem failingRow_concat_renewed (before : List RenewAttempt) {a : RenewAttempt}
    (h : a.failed = false) :
    failingRow (before ++ [a]) = [] := by
  rw [failingRow, List.rtakeWhile_concat_neg]
  rw [h]
  exact Bool.false_ne_true

theorem undisturbed_nil : Undisturbed [] :=
  ⟨fun _ hb => absurd hb List.not_mem_nil, fun _ hb => absurd hb List.not_mem_nil⟩

theorem undisturbed_concat {row : List RenewAttempt} {a : RenewAttempt} : Undisturbed (row ++ [a]) ↔
    Undisturbed row ∧ a.refreshed = false ∧ (row ≠ [] → a.dueRefresh ≠ some true) := by
  cases row with
  | nil => simp [Undisturbed]
  | cons b row =>
      simp only [Undisturbed, List.cons_append, List.tail_cons, List.forall_mem_cons,
        List.forall_mem_append, List.not_mem_nil, false_implies, implies_true, and_true]
      constructor
      · rintro ⟨⟨hb, hrow, ha⟩, htail, hdue⟩
        exact ⟨⟨⟨hb, hrow⟩, htail⟩, ha, fun _ => hdue⟩
      · rintro ⟨⟨⟨hb, hrow⟩, htail⟩, ha, hdue⟩
        exact ⟨⟨hb, hrow, ha⟩, htail, hdue (List.cons_ne_nil b row)⟩

/-! ## What the loop keeps -/

/-- The deadline is the last one read, and the failures are those of the row unless a
    refresh has come in between. -/
structure Kept (before : List RenewAttempt) (s : RenewState) : Prop where
  deadline : s.leaseDeadline = knownDeadline before
  exact : Undisturbed (failingRow before) → s.failures = (failingRow before).length
  fewer : ¬ Undisturbed (failingRow before) → s.failures < (failingRow before).length

section Steps

variable {timing : LeaseTiming} {before : List RenewAttempt} {a : RenewAttempt} {s : RenewState}

theorem stateAfter_concat (before : List RenewAttempt) (a : RenewAttempt) :
    stateAfter timing (before ++ [a]) = (stateAfter timing before).bind (goOn timing · a) := by
  rw [stateAfter, List.foldlM_append]
  cases h : List.foldlM (goOn timing) RenewState.start before <;> simp [stateAfter, h]

@[simp] theorem refreshDue_leaseDeadline (a : RenewAttempt) (s : RenewState) :
    (s.refreshDue a).leaseDeadline = s.leaseDeadline := by
  unfold RenewState.refreshDue
  split <;> rfl

/-- The failures after an attempt that failed without being made again at once. -/
theorem failures_of_plain (h : Kept before s) (hplain : a.refreshed = false) :
    (Undisturbed (failingRow before ++ [a]) →
        (s.refreshDue a).failures + 1 = (failingRow before ++ [a]).length) ∧
      (¬ Undisturbed (failingRow before ++ [a]) →
        (s.refreshDue a).failures + 1 < (failingRow before ++ [a]).length) := by
  rw [undisturbed_concat, List.length_append, List.length_singleton]
  unfold RenewState.refreshDue
  by_cases hdue : a.dueRefresh = some true
  · -- the failures are forgotten, which shows only where there was one
    rw [if_pos hdue]
    constructor
    · rintro ⟨-, -, hfirst⟩
      have hnil : failingRow before = [] := by
        by_contra hne
        exact hfirst hne hdue
      rw [hnil]
      rfl
    -- the row is disturbed, so it is not empty and its failures are more than the one counted now
    · intro hnot
      have hne : failingRow before ≠ [] := by
        intro hnil
        rw [hnil] at hnot
        exact hnot ⟨undisturbed_nil, hplain, fun h => absurd rfl h⟩
      have hpos := List.length_pos_iff.mpr hne
      show 0 + 1 < _
      omega
  · rw [if_neg hdue]
    constructor
    · rintro ⟨hrow, -, -⟩
      rw [h.exact hrow]
    · intro hnot
      have hrow : ¬ Undisturbed (failingRow before) :=
        fun hrow => hnot ⟨hrow, hplain, fun _ => hdue⟩
      have hfewer := h.fewer hrow
      omega

theorem kept_plain (h : Kept before s) (hfailed : a.failed = true) (hplain : a.refreshed = false)
    {s' : RenewState} (hdeadline : s'.leaseDeadline = s.leaseDeadline)
    (hfailures : s'.failures = (s.refreshDue a).failures + 1) : Kept (before ++ [a]) s' := by
  have hcount := failures_of_plain h hplain
  refine ⟨?_, ?_, ?_⟩
  · rw [knownDeadline_concat, hdeadline, h.deadline]
    unfold RenewAttempt.failed at hfailed
    unfold readDeadline
    cases hout : a.outcome <;> simp_all
  · rw [failingRow_concat_failed hfailed, hfailures]
    exact hcount.1
  · rw [failingRow_concat_failed hfailed, hfailures]
    exact hcount.2

/-- One pass that does not end the loop. -/
theorem Kept.step (h : Kept before s) (hnext : (renewStep timing s a).2 ≠ .lost) :
    Kept (before ++ [a]) (renewStep timing s a).1 := by
  have hafter : a.failed = true → a.refreshed = false →
    ((s.refreshDue a).afterFailure a).2 ≠ .lost →
      Kept (before ++ [a]) ((s.refreshDue a).afterFailure a).1 := by
    intro hfailed hplain hlost
    unfold RenewState.afterFailure at hlost ⊢
    by_cases hexhausted : ({ s.refreshDue a with
        failures := (s.refreshDue a).failures + 1 } : RenewState).exhausted a.now = true
    · rw [if_pos hexhausted] at hlost
      exact absurd rfl hlost
    · rw [if_neg hexhausted]
      exact kept_plain h hfailed hplain (refreshDue_leaseDeadline a s) rfl
  unfold renewStep at hnext ⊢
  cases hout : a.outcome with
  | renewed lockedUntil =>
      have hrow := failingRow_concat_renewed before (a := a) (by simp [RenewAttempt.failed, hout])
      refine ⟨?_, fun _ => ?_, fun hnot => ?_⟩
      · simp [knownDeadline_concat, readDeadline, hout, h.deadline]
      · rw [hrow]
        rfl
      · rw [hrow] at hnot
        exact absurd undisturbed_nil hnot
  | notFound =>
      rw [hout] at hnext
      exact absurd rfl hnext
  | unauthorized refreshed =>
      have hfailed : a.failed = true := by simp [RenewAttempt.failed, hout]
      cases refreshed with
      | true =>
          -- started over, with the failures forgotten
          have hnot : ¬ Undisturbed (failingRow (before ++ [a])) := by
            rw [failingRow_concat_failed hfailed, undisturbed_concat]
            rintro ⟨-, hrefreshed, -⟩
            simp [RenewAttempt.refreshed, hout] at hrefreshed
          refine ⟨?_, fun hrow => absurd hrow hnot, fun _ => ?_⟩
          · simp [knownDeadline_concat, readDeadline, hout, h.deadline]
          · rw [failingRow_concat_failed hfailed, List.length_append]
            exact Nat.succ_pos _
      | false =>
          rw [hout] at hnext
          exact hafter hfailed (by simp [RenewAttempt.refreshed, hout]) hnext
  | failed =>
      rw [hout] at hnext
      exact hafter (by simp [RenewAttempt.failed, hout])
        (by simp [RenewAttempt.refreshed, hout]) hnext

theorem kept_after (h : stateAfter timing before = some s) : Kept before s := by
  induction before using List.reverseRecOn generalizing s with
  | nil =>
      rw [← Option.some.inj h]
      exact ⟨rfl, fun _ => rfl, fun hnot => absurd undisturbed_nil hnot⟩
  | append_singleton before a ih =>
      rw [stateAfter_concat] at h
      rcases Option.bind_eq_some_iff.mp h with ⟨s₀, hs₀, hgo⟩
      unfold goOn at hgo
      by_cases hlost : (renewStep timing s₀ a).2 = .lost
      · rw [if_pos hlost] at hgo
        cases hgo
      · rw [if_neg hlost] at hgo
        rw [← Option.some.inj hgo]
        exact (ih hs₀).step hlost

end Steps

/-! ## One attempt -/

section Attempts

variable {timing : LeaseTiming} {before : List RenewAttempt} {a : RenewAttempt} {s : RenewState}

/-- The kinds of a failed attempt. -/
theorem failed_cases (h : a.failed = true) : a.outcome = .notFound ∨
    a.outcome = .unauthorized true ∨
    (a.outcome = .unauthorized false ∨ a.outcome = .failed) := by
  unfold RenewAttempt.failed at h
  cases hout : a.outcome with
  | renewed lockedUntil =>
      rw [hout] at h
      cases h
  | notFound => exact .inl rfl
  | unauthorized refreshed =>
      cases refreshed with
      | true => exact .inr (.inl rfl)
      | false => exact .inr (.inr (.inl rfl))
  | failed => exact .inr (.inr (.inr rfl))

theorem renewBackoff_pos (encounteringError draw : Nat) :
    0 < renewBackoff encounteringError draw := by
  unfold renewBackoff
  split <;> omega

theorem renewStep_again : (renewStep timing s a).2 = .again ↔ a.refreshed = true := by
  unfold renewStep RenewAttempt.refreshed RenewState.afterFailure
  cases hout : a.outcome with
  | renewed lockedUntil => simp
  | notFound => simp
  | unauthorized refreshed =>
      cases refreshed with
      | true => simp
      | false =>
          dsimp only
          split <;> simp
  | failed =>
      dsimp only
      split <;> simp

theorem renewStep_sleep (hinterval : 0 < timing.renewInterval) {delay : Nat}
    (h : (renewStep timing s a).2 = .sleep delay) : 0 < delay := by
  unfold renewStep RenewState.afterFailure at h
  cases hout : a.outcome with
  -- the lease is renewed, and the loop sleeps for the interval
  | renewed lockedUntil =>
      rw [hout] at h
      cases h
      exact hinterval
  | notFound =>
      rw [hout] at h
      cases h
  | unauthorized refreshed =>
      rw [hout] at h
      cases refreshed with
      | true => cases h
      | false =>
          dsimp only at h
          split at h
          · cases h
          · cases h
            exact renewBackoff_pos _ _
  | failed =>
      rw [hout] at h
      dsimp only at h
      split at h
      · cases h
      · cases h
        exact renewBackoff_pos _ _

/-- An attempt that fails for good is the last one exactly where the window is exhausted. -/
theorem renewStep_plain (hplain : a.outcome = .unauthorized false ∨ a.outcome = .failed) :
    (renewStep timing s a).2 = .lost ↔
      s.leaseDeadline.any (leaseExpired · a.now) = true ∨
        s.leaseDeadline = none ∧ 5 ≤ (s.refreshDue a).failures + 1 := by
  have hafter : ((s.refreshDue a).afterFailure a).2 = .lost ↔
      s.leaseDeadline.any (leaseExpired · a.now) = true ∨
        s.leaseDeadline = none ∧ 5 ≤ (s.refreshDue a).failures + 1 := by
    have hexhausted : ({ s.refreshDue a with
        failures := (s.refreshDue a).failures + 1 } : RenewState).exhausted a.now = true ↔
        s.leaseDeadline.any (leaseExpired · a.now) = true ∨
          s.leaseDeadline = none ∧ 5 ≤ (s.refreshDue a).failures + 1 := by
      simp [RenewState.exhausted]
    rw [← hexhausted, RenewState.afterFailure]
    dsimp only
    split <;> simp_all
  rcases hplain with hout | hout
  · rw [renewStep, hout]
    exact hafter
  · rw [renewStep, hout]
    exact hafter

/-- The attempt before was made again at once exactly if its token was refreshed. -/
theorem nextAfter_again {pre : List RenewAttempt} {b : RenewAttempt}
    (h : stateAfter timing (pre ++ [b]) = some s) :
    nextAfter timing pre b = some .again ↔ b.refreshed = true := by
  rw [stateAfter_concat] at h
  rcases Option.bind_eq_some_iff.mp h with ⟨s₀, hs₀, -⟩
  rw [nextAfter, hs₀, Option.map_some, Option.some.injEq, renewStep_again]

/-- One attempt is followed by what has to follow exactly if no refresh keeps the loop from
    ending, as long as no fifth attempt has failed before. -/
theorem lawful_iff_meets (hinterval : 0 < timing.renewInterval)
    (hs : stateAfter timing before = some s)
    (hshort : knownDeadline before = none → (failingRow before).length ≤ 4) :
    Lawful timing before a (renewStep timing s a).2 ↔ Meets before a := by
  have hkept := kept_after hs
  -- the attempt before was made again at once exactly if it was a refresh
  have hlast : (∀ pre b, before = pre ++ [b] → nextAfter timing pre b ≠ some .again) ↔
      ∀ b, before.getLast? = some b → b.refreshed = false := by
    constructor
    · intro h b hb
      rcases List.getLast?_eq_some_iff.mp hb with ⟨pre, rfl⟩
      exact Bool.eq_false_iff.mpr fun hb => h pre b rfl ((nextAfter_again hs).mpr hb)
    · rintro h pre b rfl hagain
      rw [nextAfter_again hs, h b List.getLast?_concat] at hagain
      cases hagain
  have hexpired : s.leaseDeadline.any (leaseExpired · a.now) = true ↔ Expired before a := by
    rw [hkept.deadline, Expired, Option.any_eq_true]
  have hrow : a.failed = true → (failingRow (before ++ [a])).length =
      (failingRow before).length + 1 := by
    intro hfailed
    rw [failingRow_concat_failed hfailed, List.length_append, List.length_singleton]
  -- from the laws to the condition
  constructor
  · intro h
    refine ⟨fun hrefreshed => ?_, fun hfailed hfound hnone hfour => ?_⟩
    -- a refresh in an expired lease, or after a refresh, breaks the law that it meets
    · have hagain : (renewStep timing s a).2 = .again := renewStep_again.mpr hrefreshed
      have hfailed : a.failed = true := by
        unfold RenewAttempt.refreshed at hrefreshed
        rw [RenewAttempt.failed, of_decide_eq_true hrefreshed]
      refine ⟨fun hexp => ?_, hlast.mp (h.once hagain).2⟩
      have hlost := h.expired hfailed hexp
      rw [hagain] at hlost
      cases hlost
    -- the fifth failure ends the loop, so the counter has seen all five
    · have hlost := h.exhausted hfailed hnone (by rw [hrow hfailed]; omega)
      rcases failed_cases hfailed with hout | hout | hplain
      · exact absurd hout hfound
      · rw [renewStep, hout] at hlost
        cases hlost
      · -- the fifth failure was counted as the fifth
        have hnot : a.refreshed = false := by
          rcases hplain with hout | hout <;> simp [RenewAttempt.refreshed, hout]
        rcases (renewStep_plain hplain).mp hlost with hexp | ⟨-, hfive⟩
        · rcases hexpired.mp hexp with ⟨deadline, hdeadline, -⟩
          rw [hnone] at hdeadline
          cases hdeadline
        · by_contra hdisturbed
          rw [failingRow_concat_failed hfailed] at hdisturbed
          have hfewer := (failures_of_plain hkept hnot).2 hdisturbed
          have hle := hshort hnone
          rw [List.length_append, List.length_singleton] at hfewer
          omega
  -- from the condition to the laws
  · intro h
    refine ⟨fun hfailed hexp => ?_, fun hfailed hnone hfive => ?_,
      fun delay hdelay => renewStep_sleep hinterval hdelay, fun hagain => ?_⟩
    · rcases failed_cases hfailed with hout | hout | hplain
      · rw [renewStep, hout]
      · exact absurd hexp (h.early (by simp [RenewAttempt.refreshed, hout])).1
      · exact (renewStep_plain hplain).mpr (.inl (hexpired.mpr hexp))
    -- the row of failures is undisturbed, so the counter is its length
    · rcases failed_cases hfailed with hout | hout | hplain
      · rw [renewStep, hout]
      · have hund := h.row hfailed (by simp [hout]) hnone (by rw [hrow hfailed] at hfive; omega)
        rw [failingRow_concat_failed hfailed, undisturbed_concat] at hund
        simp [RenewAttempt.refreshed, hout] at hund
      · have hnot : a.refreshed = false := by
          rcases hplain with hout | hout <;> simp [RenewAttempt.refreshed, hout]
        have hfound : a.outcome ≠ .notFound := by
          rcases hplain with hout | hout <;> simp [hout]
        have hund := h.row hfailed hfound hnone (by rw [hrow hfailed] at hfive; omega)
        rw [failingRow_concat_failed hfailed] at hund hfive
        have hcount := (failures_of_plain hkept hnot).1 hund
        exact (renewStep_plain hplain).mpr
          (.inr ⟨hkept.deadline.trans hnone, by rw [hcount]; exact hfive⟩)
    · have hrefreshed := renewStep_again.mp hagain
      refine ⟨⟨true, ?_⟩, hlast.mpr (h.early hrefreshed).2⟩
      unfold RenewAttempt.refreshed at hrefreshed
      exact of_decide_eq_true hrefreshed

/-- After a lawful attempt that was not the last, no fifth one has failed in a row. -/
theorem short_of_lawful (hs : stateAfter timing before = some s)
    (hlaw : Lawful timing before a (renewStep timing s a).2)
    (hgoes : (stateAfter timing (before ++ [a])).isSome)
    (hnone : knownDeadline (before ++ [a]) = none) :
    (failingRow (before ++ [a])).length ≤ 4 := by
  have hlost : (renewStep timing s a).2 ≠ .lost := by
    intro hlost
    rw [stateAfter_concat, hs, Option.bind_some, goOn, if_pos hlost] at hgoes
    cases hgoes
  by_contra hlong
  cases hfailed : a.failed with
  | false =>
      rw [failingRow_concat_renewed _ hfailed] at hlong
      exact hlong (Nat.zero_le 4)
  | true =>
      refine hlost (hlaw.exhausted hfailed ?_ (by omega))
      rw [knownDeadline_concat] at hnone
      unfold readDeadline at hnone
      unfold RenewAttempt.failed at hfailed
      cases hout : a.outcome <;> simp_all

end Attempts

/-! ## All attempts -/

end Worker

end Preloop
