import PreloopControl.Lib.Machine
import PreloopControl.Logic

/-!
# The Starvation Sweep

The reaper looks at a ready job again and again. `starvation_verdict` says whether its mark
is cleared, set, or whether the job fails because no runner came for it. A tick asks twice:
the reaper of `bootstrap.rs` reads the runners and keeps the marks of its node, and then
`reap_sweep` reads the runners again and fails jobs of the runs in which something is due,
with the marks as they are by then. A job that is failed leaves the queue; here the ticks
may go on, as they do where another node was faster.

The job stays in the queue all the time, with its labels and the instant it was enqueued,
on one node. Times are nanoseconds on the node's clock.

## Main definitions

* `starvationVerdict`: The verdict on a ready job.
* `keepMark`: What the reaper makes of a mark.
* `ReaperTick`, `StarvationWatch.tick`: A tick of the reaper.
* `starvationMachine`: The ticks of a job's wait.
* `StarvationWatch.Clears`, `StarvationWatch.Stamps`: What a tick means for the mark.

## Theorems

* `StarvationWatch.verdict_spec`: The verdict of a tick.
* `StarvationWatch.getD_keepMark`: What a tick leaves to measure from.
* `StarvationWatch.tick_starves_iff`: When a tick reports that the job starves.
-/

namespace Preloop

/-- `StarvationCandidate`. -/
structure StarvationCandidate where
  runsOn : List String
  enqueuedAt : Int
  firstSeen : Option Int
  anyRunnerMatches : Bool

/-- `StarvationVerdict`. -/
inductive StarvationVerdict
  | clearMark
  | mark (firstSeen : Int)
  | starve (reason : String) (grace : Int)
  | unschedulable (reason : String)
deriving DecidableEq, Repr

/-- `Duration::from_secs`. -/
def seconds (n : Int) : Int := n * 1000000000

/-- `QUEUED_JOB_GRACE`. -/
def queuedJobGrace : Int := seconds 120

/-- `MAX_QUEUED_GRACE`. -/
def maxQueuedGrace : Int := seconds 3600

/-- `duration_since`, nothing where the instant is ahead of the clock. -/
def elapsedSince (now instant : Int) : Int := max (now - instant) 0

/-- `pool_unsatisfiable_reason`. -/
def poolUnsatisfiableReason (ev : Evaluators) (runsOn poolLabels : List String) : Option String :=
  if poolUnsatisfiable ev runsOn poolLabels then
    let labels := ", ".intercalate runsOn
    let pool := ", ".intercalate poolLabels
    some (s!"no runner is registered for `runs-on: {labels}` and the runner pool's advertised " ++
      s!"labels ({pool}) can never satisfy it, so the job cannot be scheduled")
  else none

/-- The reason a job starves for. -/
def starvedReason (runsOn : List String) (grace : Int) : String :=
  let labels := ", ".intercalate runsOn
  let secs := grace / seconds 1
  s!"no runner is registered for `runs-on: {labels}` and none appeared within {secs}s, " ++
    "so the job cannot be scheduled"

/-- `starvation_verdict`. -/
def starvationVerdict (ev : Evaluators) (job : StarvationCandidate) (now : Int)
    (poolPreparing : Bool) (bootedAt : Int) (poolLabels : List String) : StarvationVerdict :=
  if job.anyRunnerMatches || needsExternalHost job.runsOn then .clearMark
  else
    let waitingSince := max job.enqueuedAt bootedAt
    let withinCeiling := elapsedSince now waitingSince < maxQueuedGrace
    match if poolLabels.isEmpty then none
        else poolUnsatisfiableReason ev job.runsOn poolLabels with
    | some reason => .unschedulable reason
    | none =>
        if !poolLabels.isEmpty && withinCeiling then .clearMark
        else if poolPreparing then
          if withinCeiling then .mark now
          else .starve (starvedReason job.runsOn maxQueuedGrace) maxQueuedGrace
        else
          let firstSeen := job.firstSeen.getD waitingSince
          if elapsedSince now firstSeen < queuedJobGrace then .mark firstSeen
          else .starve (starvedReason job.runsOn queuedJobGrace) queuedJobGrace

/-- What the reaper makes of the mark of a job. -/
def keepMark (poolPreparing : Bool) (mark : Option Int) : StarvationVerdict → Option Int
  | .clearMark => none
  | .mark firstSeen => if poolPreparing then some firstSeen else mark.or (some firstSeen)
  | .starve _ _ | .unschedulable _ => mark

/-- The verdict makes the job's run due. -/
def StarvationVerdict.due : StarvationVerdict → Bool
  | .clearMark | .mark _ => false
  | .starve _ _ | .unschedulable _ => true

/-- A tick: the runners registered when the reaper reads its inputs and when the sweep reads
    them again, and whether something else of the job's run is due. -/
structure ReaperTick where
  now : Int
  poolPreparing : Bool
  poolLabels : List String
  runnersRead : List (List String)
  runnersSwept : List (List String)
  otherDue : Bool

/-- A ready job on a node. -/
structure StarvationWatch where
  eval : Evaluators
  runsOn : List String
  enqueuedAt : Int
  bootedAt : Int

/-- What is seen of a tick: what the sweep fails the job with, if it does. -/
structure TickNote where
  tick : ReaperTick
  failed : Option StarvationVerdict

namespace StarvationWatch

variable (w : StarvationWatch)

/-- The later of the job's enqueue time and the node's boot. -/
def waitingSince : Int := max w.enqueuedAt w.bootedAt

/-- `any_runner_matches`. -/
def anyMatches (runners : List (List String)) : Bool :=
  runners.any fun labels => jobMatchesRunner w.eval w.runsOn labels

/-- The verdict of a tick over some runners and a mark. -/
def verdict (t : ReaperTick) (mark : Option Int) (runners : List (List String)) :
    StarvationVerdict :=
  starvationVerdict w.eval ⟨w.runsOn, w.enqueuedAt, mark, w.anyMatches runners⟩ t.now
    t.poolPreparing w.bootedAt t.poolLabels

/-- A tick of the reaper: its own verdict decides the mark and whether the run is due, that
    of the sweep whether the job fails. -/
def tick (t : ReaperTick) (mark : Option Int) : Option Int × TickNote :=
  let own := w.verdict t mark t.runnersRead
  let kept := keepMark t.poolPreparing mark own
  let swept := w.verdict t kept t.runnersSwept
  (kept, ⟨t, if (own.due || t.otherDue) && swept.due then some swept else none⟩)

end StarvationWatch

/-- The ticks of a job's wait, over its mark. -/
def starvationMachine (w : StarvationWatch) : Machine (Option Int) ReaperTick TickNote where
  advance t mark := some ((w.tick t mark).1, [(w.tick t mark).2])

/-! ## What a tick comes down to -/

theorem elapsedSince_lt {now instant g : Int} (hg : 0 < g) :
    elapsedSince now instant < g ↔ now < instant + g := by
  rw [elapsedSince, max_lt_iff]
  omega

theorem queuedJobGrace_pos : 0 < queuedJobGrace := by decide

theorem maxQueuedGrace_pos : 0 < maxQueuedGrace := by decide

namespace StarvationWatch

variable (w : StarvationWatch)

/-- A runner matches the job at a tick. -/
def Matched (t : ReaperTick) : Prop :=
  w.anyMatches t.runnersRead = true ∨ w.anyMatches t.runnersSwept = true

/-- The grace period of a tick. -/
def grace (t : ReaperTick) : Int := if t.poolPreparing then maxQueuedGrace else queuedJobGrace

/-- The job is younger than the ceiling. -/
def Young (t : ReaperTick) : Prop := t.now < w.waitingSince + maxQueuedGrace

/-- The pool advertises labels that the job can never run on. -/
def Unsatisfiable (t : ReaperTick) : Prop :=
  poolUnsatisfiable w.eval w.runsOn t.poolLabels = true

/-- The job cannot starve at a tick: it waits for a host of another platform, or the pool
    advertises labels, which it can never meet or still may. -/
def Exempt (t : ReaperTick) : Prop :=
  needsExternalHost w.runsOn = true ∨ w.Unsatisfiable t ∨ (t.poolLabels ≠ [] ∧ w.Young t)

/-- A tick clears the mark. -/
def Clears (t : ReaperTick) : Prop :=
  w.anyMatches t.runnersRead = true ∨ needsExternalHost w.runsOn = true ∨
    (¬ w.Unsatisfiable t ∧ t.poolLabels ≠ [] ∧ w.Young t)

/-- A tick marks the job anew, since the pool is preparing. -/
def Stamps (t : ReaperTick) : Prop :=
  ¬ w.Clears t ∧ ¬ w.Unsatisfiable t ∧ t.poolPreparing = true ∧ w.Young t

instance (t : ReaperTick) : Decidable (w.Matched t) :=
  inferInstanceAs (Decidable (_ = true ∨ _ = true))

instance (t : ReaperTick) : Decidable (w.Young t) := inferInstanceAs (Decidable (_ < _))

instance (t : ReaperTick) : Decidable (w.Unsatisfiable t) := inferInstanceAs (Decidable (_ = true))

instance (t : ReaperTick) : Decidable (w.Exempt t) :=
  inferInstanceAs (Decidable (_ ∨ w.Unsatisfiable t ∨ (_ ∧ w.Young t)))

instance (t : ReaperTick) : Decidable (w.Clears t) :=
  inferInstanceAs (Decidable (_ ∨ _ ∨ (¬ w.Unsatisfiable t ∧ _ ∧ w.Young t)))

instance (t : ReaperTick) : Decidable (w.Stamps t) :=
  inferInstanceAs (Decidable (¬ w.Clears t ∧ ¬ w.Unsatisfiable t ∧ _ ∧ w.Young t))

/-- The instant a tick measures from over a mark. -/
def measured (t : ReaperTick) (mark : Option Int) : Int :=
  if t.poolPreparing then w.waitingSince else mark.getD w.waitingSince

/-- The kinds of verdicts of a tick. -/
inductive VerdictSpec (t : ReaperTick) (mark : Option Int) (matched : Bool) :
    StarvationVerdict → Prop
  | matched (h : matched = true ∨ needsExternalHost w.runsOn = true) :
      VerdictSpec t mark matched .clearMark
  | unsatisfiable (reason : String) (hmatched : matched = false)
      (hhost : needsExternalHost w.runsOn = false) (h : w.Unsatisfiable t) :
      VerdictSpec t mark matched (.unschedulable reason)
  | satisfiable (hmatched : matched = false) (hhost : needsExternalHost w.runsOn = false)
      (hsat : ¬ w.Unsatisfiable t) (hlabels : t.poolLabels ≠ []) (hyoung : w.Young t) :
      VerdictSpec t mark matched .clearMark
  | preparing (hmatched : matched = false) (hexempt : ¬ w.Exempt t)
      (hpreparing : t.poolPreparing = true) (hyoung : w.Young t) :
      VerdictSpec t mark matched (.mark t.now)
  | waiting (hmatched : matched = false) (hexempt : ¬ w.Exempt t)
      (hpreparing : t.poolPreparing = false)
      (hyoung : t.now < mark.getD w.waitingSince + queuedJobGrace) :
      VerdictSpec t mark matched (.mark (mark.getD w.waitingSince))
  | starved (hmatched : matched = false) (hexempt : ¬ w.Exempt t)
      (hold : w.measured t mark + grace t ≤ t.now) :
      VerdictSpec t mark matched (.starve (starvedReason w.runsOn (grace t)) (grace t))

theorem poolUnsatisfiable_nil (ev : Evaluators) (runsOn : List String) :
    poolUnsatisfiable ev runsOn [] = false := rfl

/-- The verdict of a tick. -/
theorem verdict_spec (t : ReaperTick) (mark : Option Int) (runners : List (List String)) :
    w.VerdictSpec t mark (w.anyMatches runners) (w.verdict t mark runners) := by
  unfold verdict starvationVerdict
  dsimp only
  by_cases hclear : (w.anyMatches runners || needsExternalHost w.runsOn) = true
  -- the tests of the source, one after the other: a match or a host elsewhere clears the job
  · rw [if_pos hclear]
    exact .matched (Bool.or_eq_true_iff.mp hclear)
  · rw [if_neg hclear]
    rcases Bool.or_eq_false_iff.mp (Bool.eq_false_iff.mpr hclear) with ⟨hmatched, hhost⟩
    by_cases hunsat : w.Unsatisfiable t
    · -- such labels were published
      have hlabels : t.poolLabels.isEmpty = false := by
        by_contra hempty
        rw [Bool.not_eq_false, List.isEmpty_iff] at hempty
        rw [Unsatisfiable, hempty, poolUnsatisfiable_nil] at hunsat
        cases hunsat
      have hunsatisfiable : poolUnsatisfiable w.eval w.runsOn t.poolLabels = true := hunsat
      rw [hlabels, if_neg Bool.false_ne_true, poolUnsatisfiableReason, if_pos hunsatisfiable]
      exact .unsatisfiable _ hmatched hhost hunsat
    -- the published labels can serve the job, or there are none
    · have hreason : (if t.poolLabels.isEmpty = true then none
          else poolUnsatisfiableReason w.eval w.runsOn t.poolLabels) = none := by
        split
        · rfl
        · exact if_neg hunsat
      rw [hreason]
      dsimp only
      have hyoung : elapsedSince t.now (max w.enqueuedAt w.bootedAt) < maxQueuedGrace ↔
          w.Young t := elapsedSince_lt maxQueuedGrace_pos
      by_cases hsat : t.poolLabels ≠ [] ∧ w.Young t
      · rw [if_pos (by simpa [hyoung] using hsat)]
        exact .satisfiable hmatched hhost hunsat hsat.1 hsat.2
      · rw [if_neg (by simpa [hyoung] using hsat)]
        have hexempt : ¬ w.Exempt t := by
          rintro (hexternal | hno | hmay)
          · rw [hhost] at hexternal
            cases hexternal
          · exact hunsat hno
          · exact hsat hmay
        -- what is left is the grace, which is the long one while the pool prepares
        cases hpreparing : t.poolPreparing with
        | true =>
            rw [if_pos rfl]
            by_cases hwithin : w.Young t
            · rw [if_pos (hyoung.mpr hwithin)]
              exact .preparing hmatched hexempt hpreparing hwithin
            · rw [if_neg (mt hyoung.mp hwithin)]
              have hgrace : grace t = maxQueuedGrace := if_pos hpreparing
              have hold : w.measured t mark + grace t ≤ t.now := by
                rw [hgrace, measured, if_pos hpreparing]
                exact not_lt.mp hwithin
              have hstarved := VerdictSpec.starved hmatched hexempt hold
              rw [hgrace] at hstarved
              exact hstarved
        | false =>
            rw [if_neg Bool.false_ne_true]
            by_cases hwaits : elapsedSince t.now (mark.getD w.waitingSince) < queuedJobGrace
            · rw [show max w.enqueuedAt w.bootedAt = w.waitingSince from rfl, if_pos hwaits]
              exact .waiting hmatched hexempt hpreparing
                ((elapsedSince_lt queuedJobGrace_pos).mp hwaits)
            · rw [show max w.enqueuedAt w.bootedAt = w.waitingSince from rfl, if_neg hwaits]
              have hgrace : grace t = queuedJobGrace := if_neg (by rw [hpreparing]; decide)
              have hold : w.measured t mark + grace t ≤ t.now := by
                rw [hgrace, measured, if_neg (by rw [hpreparing]; decide)]
                rw [elapsedSince_lt queuedJobGrace_pos] at hwaits
                exact not_lt.mp hwaits
              have hstarved := VerdictSpec.starved hmatched hexempt hold
              rw [hgrace] at hstarved
              exact hstarved

/-- What a tick leaves to measure from: nothing of before where it clears the mark, itself
    where it stamps it. -/
theorem getD_keepMark (t : ReaperTick) (mark : Option Int) :
    (w.tick t mark).1.getD w.waitingSince =
      if w.Clears t then w.waitingSince
      else if w.Stamps t then t.now
      else mark.getD w.waitingSince := by
  have hspec := w.verdict_spec t mark t.runnersRead
  rw [tick]
  dsimp only
  generalize w.verdict t mark t.runnersRead = verdict at hspec ⊢
  have hopen : w.anyMatches t.runnersRead = false → ¬ w.Exempt t → ¬ w.Clears t := by
    rintro hmatched hexempt (hmatch | hhost | hmay)
    · rw [hmatched] at hmatch
      cases hmatch
    · exact hexempt (.inl hhost)
    · exact hexempt (.inr (.inr hmay.2))
  cases hspec with
  | matched h =>
      have hclears : w.Clears t := by
        rcases h with hmatch | hhost
        · exact .inl hmatch
        · exact .inr (.inl hhost)
      rw [if_pos hclears]
      rfl
  | unsatisfiable reason hmatched hhost hunsat =>
      have hclears : ¬ w.Clears t := by
        rintro (hmatch | hexternal | hmay)
        · rw [hmatched] at hmatch
          cases hmatch
        · rw [hhost] at hexternal
          cases hexternal
        · exact hmay.1 hunsat
      rw [if_neg hclears, if_neg fun hstamps => hstamps.2.1 hunsat]
      rfl
  | satisfiable hmatched hhost hsat hlabels hyoung =>
      rw [if_pos (.inr (.inr ⟨hsat, hlabels, hyoung⟩))]
      rfl
  | preparing hmatched hexempt hpreparing hyoung =>
      have hclears := hopen hmatched hexempt
      have hstamps : w.Stamps t :=
        ⟨hclears, fun hunsat => hexempt (.inr (.inl hunsat)), hpreparing, hyoung⟩
      rw [if_neg hclears, if_pos hstamps, keepMark, if_pos hpreparing]
      rfl
  | waiting hmatched hexempt hpreparing hyoung =>
      have hstamps : ¬ w.Stamps t := by
        rintro ⟨-, -, hstamped, -⟩
        rw [hpreparing] at hstamped
        cases hstamped
      rw [if_neg (hopen hmatched hexempt), if_neg hstamps, keepMark, hpreparing]
      cases mark with
      | none => rfl
      | some instant => rfl
  | starved hmatched hexempt hold =>
      -- an old job of a preparing pool is past the ceiling
      have hstamps : ¬ w.Stamps t := by
        rintro ⟨-, -, hpreparing, hyoung⟩
        rw [measured, grace, if_pos hpreparing, if_pos hpreparing] at hold
        exact absurd hyoung (not_lt.mpr hold)
      rw [if_neg (hopen hmatched hexempt), if_neg hstamps]
      rfl

/-- A tick at which the job may be reported: no runner matches in the sweep, the job is not
    exempt, and the sweep looks at its run. -/
def Exposed (t : ReaperTick) : Prop :=
  w.anyMatches t.runnersSwept = false ∧ ¬ w.Exempt t ∧
    (t.otherDue = true ∨ w.anyMatches t.runnersRead = false)

/-- When a verdict is that the job starves. -/
theorem verdict_starve_iff {t : ReaperTick} {mark : Option Int} {runners : List (List String)}
    {g : Int} : (∃ reason, w.verdict t mark runners = .starve reason g) ↔
      w.anyMatches runners = false ∧ ¬ w.Exempt t ∧ g = grace t ∧
        w.measured t mark + g ≤ t.now := by
  have hspec := w.verdict_spec t mark runners
  -- the verdict is known case by case, and each one excludes the others
  generalize w.verdict t mark runners = verdict at hspec ⊢
  constructor
  · rintro ⟨reason, rfl⟩
    cases hspec with
    | starved hmatched hexempt hold => exact ⟨hmatched, hexempt, rfl, hold⟩
  · rintro ⟨hmatched, hexempt, rfl, hold⟩
    cases hspec with
    | matched h =>
        rcases h with hmatch | hhost
        · rw [hmatched] at hmatch
          cases hmatch
        · exact absurd (.inl hhost) hexempt
    | unsatisfiable reason _ hhost hunsat => exact absurd (.inr (.inl hunsat)) hexempt
    | satisfiable _ hhost hsat hlabels hyoung =>
        exact absurd (.inr (.inr ⟨hlabels, hyoung⟩)) hexempt
    -- a pool that is still preparing grants the longer time
    | preparing _ _ hpreparing hyoung =>
        rw [measured, grace, if_pos hpreparing, if_pos hpreparing] at hold
        exact absurd hyoung (not_lt.mpr hold)
    | waiting _ _ hpreparing hyoung =>
        have hno : ¬ t.poolPreparing = true := by
          rw [hpreparing]
          exact Bool.false_ne_true
        rw [measured, grace, if_neg hno, if_neg hno] at hold
        exact absurd hyoung (not_lt.mpr hold)
    | starved _ _ _ => exact ⟨_, rfl⟩

/-- A tick that neither clears nor stamps the mark measures from the same instant before and
    after it was kept. -/
theorem measured_keepMark {t : ReaperTick} (mark : Option Int)
    (hread : w.anyMatches t.runnersRead = false) (hexempt : ¬ w.Exempt t) :
    w.measured t (w.tick t mark).1 = w.measured t mark := by
  unfold measured
  by_cases hpreparing : t.poolPreparing = true
  · rw [if_pos hpreparing, if_pos hpreparing]
  · rw [if_neg hpreparing, if_neg hpreparing, getD_keepMark, if_neg, if_neg]
    · exact fun hstamps => hpreparing hstamps.2.2.1
    · rintro (hmatch | hhost | hmay)
      · rw [hread] at hmatch
        cases hmatch
      · exact hexempt (.inl hhost)
      · exact hexempt (.inr (.inr hmay.2))

/-- When a tick reports that the job starves. -/
theorem tick_starves_iff {t : ReaperTick} {mark : Option Int} {g : Int} :
    (∃ reason, (w.tick t mark).2.failed = some (.starve reason g)) ↔
      w.Exposed t ∧ g = grace t ∧ w.measured t (w.tick t mark).1 + g ≤ t.now := by
  have hfailed : (w.tick t mark).2.failed =
      if ((w.verdict t mark t.runnersRead).due || t.otherDue) &&
          (w.verdict t (w.tick t mark).1 t.runnersSwept).due then
        some (w.verdict t (w.tick t mark).1 t.runnersSwept) else none := rfl
  rw [hfailed]
  constructor
  · rintro ⟨reason, h⟩
    rw [Option.ite_none_right_eq_some, Bool.and_eq_true, Bool.or_eq_true] at h
    rcases h with ⟨⟨hdue, -⟩, hswept⟩
    rcases w.verdict_starve_iff.mp ⟨reason, Option.some.inj hswept⟩ with
      ⟨hmatched, hexempt, hg, hold⟩
    refine ⟨⟨hmatched, hexempt, ?_⟩, hg, hold⟩
    cases hread : w.anyMatches t.runnersRead with
    | false => exact .inr rfl
    | true =>
        -- the reaper's own verdict cleared the mark, so the run is due for something else
        have hown : w.verdict t mark t.runnersRead = .clearMark := by
          rw [verdict, starvationVerdict, hread]
          rfl
        rw [hown] at hdue
        rcases hdue with hdue | hother
        · cases hdue
        · exact .inl hother
  · rintro ⟨⟨hmatched, hexempt, hlooks⟩, hg, hold⟩
    rcases w.verdict_starve_iff.mpr ⟨hmatched, hexempt, hg, hold⟩ with ⟨reason, hswept⟩
    refine ⟨reason, ?_⟩
    have hdue : ((w.verdict t mark t.runnersRead).due || t.otherDue) = true := by
      rw [Bool.or_eq_true]
      rcases hlooks with hother | hread
      · exact .inr hother
      · rw [w.measured_keepMark mark hread hexempt] at hold
        rcases w.verdict_starve_iff.mpr ⟨hread, hexempt, hg, hold⟩ with ⟨own, hown⟩
        exact .inl (congrArg StarvationVerdict.due hown)
    rw [hdue, hswept]
    rfl

end StarvationWatch

end Preloop
