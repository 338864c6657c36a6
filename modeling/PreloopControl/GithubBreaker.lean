import PreloopControl.Lib.Machine
import PreloopControl.Lib.Text

/-!
# GitHub Circuit Breaker

`GithubBreaker` (`github_breaker.rs`): one credential's breaker, and the callers that
ask it for permission and report later. The breaker does not know who reports. The
machine does, so that a run can tell a probe's own report from another caller's.

Times are nanoseconds. What a response says about the budget comes parsed: the requests
that remain, and the time until the budget is back.

## Main definitions

* `GithubBreaker`: The state of a breaker.
* `acquire`, `recordSuccess`, `recordFailure`, `observeRateBudget`: Its operations.
* `opensFor`: How long a report opens the breaker.
* `breakerMachine`: The callers of one breaker, with a clock that does not go back.

## Theorems

* `openUntil_report`: The window a report leaves.
-/

namespace Preloop

/-! ## The breaker -/

/-- One second. -/
def oneSecond : Nat := 10 ^ 9

/-- `GithubFailureKind`. -/
inductive GithubFailureKind
  | unavailable
  | rateLimited (retryAfter : Option Nat)
deriving DecidableEq, Repr

/-- `BreakerConfig`. -/
structure BreakerConfig where
  enabled : Bool := true
  failureThreshold : Nat := 3
  baseOpen : Nat := 30 * oneSecond
  maxOpen : Nat := 300 * oneSecond
  probeTimeout : Nat := 60 * oneSecond
deriving DecidableEq, Repr

/-- The headers that speak of the budget. -/
structure RateHeaders where
  remaining : Option Int
  retryAfter : Option Nat
deriving DecidableEq, Repr

/-- `BreakerInner`. -/
structure GithubBreaker where
  consecutiveFailures : Nat
  openUntil : Option Nat
  probeStarted : Option Nat
  trips : Nat
  openStreak : Nat
  rateLimited : Bool
  lastError : Option Text
deriving DecidableEq, Repr

namespace GithubBreaker

/-- `new`. -/
def new : GithubBreaker := ⟨0, none, none, 0, 0, false, none⟩

/-- A saturating successor. -/
def succSat (bits n : Nat) : Nat := min (n + 1) (2 ^ bits - 1)

/-- `remaining`. -/
def remaining (now : Nat) (b : GithubBreaker) : Option Nat :=
  (b.openUntil.filter fun until_ => now < until_).map fun until_ => until_ - now

/-- A probe holds the slot. -/
def probeLive (config : BreakerConfig) (now : Nat) (b : GithubBreaker) : Bool :=
  b.probeStarted.any fun started => now - started < config.probeTimeout

/-- `acquire`. -/
def acquire (config : BreakerConfig) (now : Nat) (b : GithubBreaker) :
    Except Nat Unit × GithubBreaker :=
  match b.remaining now with
  | some wait => (.error wait, b)
  | none =>
    if b.openUntil.isSome then
      if b.probeLive config now then (.error config.probeTimeout, b)
      else (.ok (), { b with probeStarted := some now })
    else (.ok (), b)

/-- `record_success`. -/
def recordSuccess (b : GithubBreaker) : GithubBreaker :=
  { b with
    consecutiveFailures := 0
    openUntil := none
    probeStarted := none
    openStreak := 0
    rateLimited := false
    lastError := none }

/-- `open_for`. -/
def openFor (now wait : Nat) (b : GithubBreaker) : GithubBreaker :=
  { b with
    openUntil := some (now + wait)
    openStreak := succSat 32 b.openStreak
    trips := succSat 64 b.trips }

/-- A wait GitHub named, kept between a second and an hour. -/
def clampWait (wait : Nat) : Nat := min (max wait oneSecond) (3600 * oneSecond)

/-- How long a failure opens the breaker. -/
def failureWait (config : BreakerConfig) (kind : GithubFailureKind) (b : GithubBreaker) :
    Option Nat :=
  if config.enabled then
    match kind with
    | .rateLimited retryAfter => some (clampWait (retryAfter.getD config.baseOpen))
    | .unavailable =>
      if succSat 32 b.consecutiveFailures < config.failureThreshold then none
      else some (min (config.baseOpen * 2 ^ min b.openStreak 4) config.maxOpen)
  else none

/-- `record_failure`. -/
def recordFailure (config : BreakerConfig) (now : Nat) (kind : GithubFailureKind) (error : Text)
    (b : GithubBreaker) : GithubBreaker :=
  let counted : GithubBreaker := { b with
    consecutiveFailures := succSat 32 b.consecutiveFailures
    lastError := some error
    probeStarted := none
    rateLimited :=
      match kind with
      | .rateLimited _ => config.enabled || b.rateLimited
      | .unavailable => !config.enabled && b.rateLimited }
  match failureWait config kind b with
  | some wait => counted.openFor now wait
  | none => counted

/-- How long the budget a response advertises opens the breaker. -/
def budgetWait (config : BreakerConfig) (headers : RateHeaders) : Option Nat :=
  if config.enabled && headers.remaining.any (· ≤ 0) then headers.retryAfter.map clampWait
  else none

/-- `observe_rate_budget`. -/
def observeRateBudget (config : BreakerConfig) (now : Nat) (headers : RateHeaders)
    (b : GithubBreaker) : GithubBreaker :=
  match budgetWait config headers with
  | some wait =>
    { b with
      rateLimited := true
      lastError := some "GitHub primary rate limit exhausted".toList }.openFor now wait
  | none => b

end GithubBreaker

/-! ## Callers -/

/-- What a caller reports. -/
inductive BreakerReport
  | success
  | failure (kind : GithubFailureKind) (error : Text)
  | budget (headers : RateHeaders)
deriving DecidableEq, Repr

namespace BreakerReport

/-- The breaker after a report. -/
def apply (config : BreakerConfig) (now : Nat) :
    BreakerReport → GithubBreaker → GithubBreaker
  | success, b => b.recordSuccess
  | failure kind error, b => b.recordFailure config now kind error
  | budget headers, b => b.observeRateBudget config now headers

/-- How long a report opens the breaker. -/
def opensFor (config : BreakerConfig) (b : GithubBreaker) : BreakerReport → Option Nat
  | success => none
  | failure kind _ => b.failureWait config kind
  | budget headers => GithubBreaker.budgetWait config headers

/-- The window a report leaves. -/
def windowAfter (config : BreakerConfig) (now : Nat) (b : GithubBreaker) (report : BreakerReport) :
    Option Nat :=
  match report.opensFor config b with
  | some wait => some (now + wait)
  | none => if report = success then none else b.openUntil

/-- The report frees the slot of a probe. -/
def freesSlot : BreakerReport → Bool
  | success | failure _ _ => true
  | budget _ => false

/-- GitHub named the time to come back. -/
def limits : BreakerReport → Bool
  | failure (.rateLimited _) _ | budget _ => true
  | success | failure .unavailable _ => false

theorem openUntil_report (config : BreakerConfig) (now : Nat) (b : GithubBreaker)
    (report : BreakerReport) :
    (report.apply config now b).openUntil = report.windowAfter config now b := by
  unfold windowAfter
  cases report with
  | success => rfl
  | failure kind error =>
      unfold apply opensFor GithubBreaker.recordFailure
      dsimp only
      cases b.failureWait config kind with
      | none => rfl
      | some wait => rfl
  | budget headers =>
      unfold apply opensFor GithubBreaker.observeRateBudget
      dsimp only
      cases GithubBreaker.budgetWait config headers with
      | none => rfl
      | some wait => rfl

theorem probeStarted_report (config : BreakerConfig) (now : Nat) (b : GithubBreaker)
    (report : BreakerReport) :
    (report.apply config now b).probeStarted =
      if report.freesSlot then none else b.probeStarted := by
  cases report with
  | success => rfl
  | failure kind error =>
      unfold apply GithubBreaker.recordFailure
      dsimp only
      cases b.failureWait config kind with
      | none => rfl
      | some wait => rfl
  | budget headers =>
      unfold apply GithubBreaker.observeRateBudget
      dsimp only
      cases GithubBreaker.budgetWait config headers with
      | none => rfl
      | some wait => rfl

end BreakerReport

/-- A call on the breaker. A report names the permit it reports for. -/
inductive BreakerCall
  | acquire
  | report (permit : Nat) (report : BreakerReport)
deriving DecidableEq, Repr

/-- What is seen of a call. -/
inductive BreakerNote
  /-- A caller was let through, as a probe or not. -/
  | granted (permit now : Nat) (probe : Bool)
  | refused (now wait : Nat)
  | reported (permit now : Nat)
  /-- A report closed the breaker. -/
  | closed (now : Nat)
  /-- A report opened the breaker until some time, which GitHub named or not. -/
  | opened (now until_ : Nat) (limited : Bool)
deriving DecidableEq, Repr

/-- A breaker, the time of the last call and the number of permits granted. -/
structure BreakerState where
  breaker : GithubBreaker
  clock : Nat
  granted : Nat
deriving DecidableEq, Repr

namespace BreakerState

/-- A breaker nobody has called. -/
def start : BreakerState := ⟨.new, 0, 0⟩

/-- A call of `acquire`. -/
def acquire (config : BreakerConfig) (now : Nat) (s : BreakerState) :
    BreakerState × List BreakerNote :=
  match s.breaker.acquire config now with
  | (.ok (), b) => (⟨b, now, s.granted + 1⟩, [.granted s.granted now s.breaker.openUntil.isSome])
  | (.error wait, b) => (⟨b, now, s.granted⟩, [.refused now wait])

/-- What a report shows. -/
def reportSeen (config : BreakerConfig) (now permit : Nat) (report : BreakerReport)
    (s : BreakerState) : List BreakerNote :=
  .reported permit now ::
    match report.opensFor config s.breaker with
    | some wait => [.opened now (now + wait) report.limits]
    | none => if report = .success then [.closed now] else []

/-- A call at some time, which is not before the last one. -/
def advance (config : BreakerConfig) (e : Nat × BreakerCall) (s : BreakerState) :
    Option (BreakerState × List BreakerNote) :=
  if s.clock ≤ e.1 then
    match e.2 with
    | .acquire => some (s.acquire config e.1)
    | .report permit report =>
      some (⟨report.apply config e.1 s.breaker, e.1, s.granted⟩,
        s.reportSeen config e.1 permit report)
  else none

end BreakerState

/-- The callers of one breaker. -/
def breakerMachine (config : BreakerConfig) :
    Machine BreakerState (Nat × BreakerCall) BreakerNote :=
  ⟨BreakerState.advance config⟩

end Preloop
