import Mathlib

/-!
# Renewing the Lease of a Job

The loop that renews the lease while a job runs (`spawn_renew_loop` in `job_runner.rs`). One
attempt may first refresh a token that is due, asks for a renewal, and decides from the
answer how long to wait, or that the lease is lost.

An attempt comes with all that it meets: what the refreshes give, the answer, the time at
which it is judged, and what the random back-off draws. Times are in milliseconds. Health
probes and the cancellation of the job are left out.

## Main definitions

* `RenewAttempt`: One pass of the loop, with what it meets.
* `RenewState`: What the loop keeps.
* `renewStep`: One pass of the loop.
* `stateAfter`, `nextAfter`: A run of attempts, as long as the loop goes on.
-/

namespace Preloop

namespace Worker

/-- The answer of `renew_job`. A success may carry a deadline that can be read. -/
inductive RenewOutcome
  | renewed (lockedUntil : Option Int)
  | notFound
  /-- A 401, and whether the token could be refreshed after it. -/
  | unauthorized (refreshed : Bool)
  | failed
deriving DecidableEq, Repr

/-- One pass of the loop. A refresh that is due before it succeeds or fails. -/
structure RenewAttempt where
  dueRefresh : Option Bool
  outcome : RenewOutcome
  now : Int
  draw : Nat
deriving DecidableEq, Repr

/-- What comes after a pass. -/
inductive RenewNext
  | sleep (delay : Nat)
  /-- `continue`. -/
  | again
  /-- The loop ends with the lease lost and the job cancelled. -/
  | lost
deriving DecidableEq, Repr

/-- The variables of the loop. -/
structure RenewState where
  leaseDeadline : Option Int
  failures : Nat
  leaseLost : Bool
  jobCancelled : Bool
deriving DecidableEq, Repr

/-- `LeaseTiming::renew_interval`. -/
structure LeaseTiming where
  renewInterval : Nat

/-- `LeaseTiming::default`. -/
def LeaseTiming.default : LeaseTiming where
  renewInterval := 60000

/-- `lease_expired`, five minutes after the deadline. -/
def leaseExpired (lockedUntil now : Int) : Bool := lockedUntil + 300000 < now

/-- `renew_backoff`, of the number that was drawn. -/
def renewBackoff (encounteringError draw : Nat) : Nat :=
  if 5 < encounteringError then 1000 * (15 + draw % 16) else 1000 * (5 + draw % 11)

/-- The loop before its first pass. -/
def RenewState.start : RenewState where
  leaseDeadline := none
  failures := 0
  leaseLost := false
  jobCancelled := false

namespace RenewState

/-- The refresh of a token that is due. -/
def refreshDue (a : RenewAttempt) (s : RenewState) : RenewState :=
  if a.dueRefresh = some true then { s with failures := 0 } else s

/-- The lease is given up. -/
def giveUp (s : RenewState) : RenewState := { s with leaseLost := true, jobCancelled := true }

/-- The retry window is exhausted. -/
def exhausted (s : RenewState) (now : Int) : Bool :=
  s.leaseDeadline.any (leaseExpired · now) || (s.leaseDeadline.isNone && 5 ≤ s.failures)

/-- An attempt that failed and is not made again at once. -/
def afterFailure (a : RenewAttempt) (s : RenewState) : RenewState × RenewNext :=
  let s := { s with failures := s.failures + 1 }
  if s.exhausted a.now then (s.giveUp, .lost) else (s, .sleep (renewBackoff s.failures a.draw))

end RenewState

/-- One pass of the loop. -/
def renewStep (timing : LeaseTiming) (s : RenewState) (a : RenewAttempt) : RenewState × RenewNext :=
  let s := s.refreshDue a
  match a.outcome with
  | .renewed lockedUntil =>
    ({ s with leaseDeadline := lockedUntil.or s.leaseDeadline, failures := 0 },
      .sleep timing.renewInterval)
  | .notFound => (s.giveUp, .lost)
  | .unauthorized true => ({ s with failures := 0 }, .again)
  | .unauthorized false => s.afterFailure a
  | .failed => s.afterFailure a

/-- The loop goes on. -/
def goOn (timing : LeaseTiming) (s : RenewState) (a : RenewAttempt) : Option RenewState :=
  if (renewStep timing s a).2 = .lost then none else some (renewStep timing s a).1

/-- The variables after some attempts, if the loop goes on after each. -/
def stateAfter (timing : LeaseTiming) (attempts : List RenewAttempt) : Option RenewState :=
  attempts.foldlM (goOn timing) .start

/-- What comes after an attempt, if the loop gets to it. -/
def nextAfter (timing : LeaseTiming) (before : List RenewAttempt) (a : RenewAttempt) :
    Option RenewNext :=
  (stateAfter timing before).map fun s => (renewStep timing s a).2

end Worker

end Preloop
