import PreloopControl.Lib.Counter
import PreloopControl.WebhookWatchdog

/-!
# One Request per Claimed Redelivery

Several watchdogs work on the repair rows of an App. A watchdog that wants a delivery sent
again claims an attempt with the row it read, and sends one request if the claim succeeds.
The attempts of a row never go back, since an upsert takes the larger number and no
statement deletes a row, and a claim is one more of them. So a claim that succeeded on what
was read can never succeed on it again, however the row was resolved and opened meanwhile.

## Main definitions

* `claimedPair`: What the caller of a successful claim gets.

## Theorems

* `redeliveries_counted`: The attempts of a row count its claims.
* `one_request_per_claim`: No two claims get the same delivery and attempt.
-/

namespace Preloop

open Machine

variable {G : Type}

/-- What the caller of a successful claim gets, as it reads it. -/
def claimedPair (row : WebhookRedelivery G) : G × Nat :=
  (row.asRead.1.deliveryGuid, row.asRead.1.attempts)

variable [LinearOrder G]

/-- The attempts of a row count its claims. -/
theorem redeliveries_counted : Counted (redeliveryMachine G) Redeliveries.attemptsOf
    (·.deliveryGuid) (·.attempts) where
  mono := by
    intro call rows rows' claimed h guid
    have hcall : rows.call call = (rows', claimed) := Option.some.inj h
    have hcases := rows.call_cases call
    rw [hcall] at hcases
    rcases hcases with ⟨-, hle⟩ | ⟨row, hrow, hat, -⟩
    · exact hle guid
    · rw [(Prod.mk.inj hrow).1]
      exact Redeliveries.attemptsOf_put (by omega) guid
  grant := by
    intro call rows rows' claimed h
    have hcall : rows.call call = (rows', claimed) := Option.some.inj h
    have hcases := rows.call_cases call
    rw [hcall] at hcases
    rcases hcases with ⟨hnone, -⟩ | ⟨row, hrow, hat, -⟩
    · exact .inl hnone
    · refine .inr ⟨row, (Prod.mk.inj hrow).2, by omega, ?_⟩
      rw [(Prod.mk.inj hrow).1, Redeliveries.attemptsOf, Redeliveries.load_put, if_pos rfl]
      exact le_rfl

variable {ok : List (WebhookRedelivery G) → Redeliveries G → RedeliveryCall G → Prop}
  {init rows : Redeliveries G} {past : List (WebhookRedelivery G)}

/-- A claimed row has an attempt, and no more than one above those that can be observed. -/
theorem claimed_bounds (h : (redeliveryMachine G).Run ok init past rows) :
    ∀ row ∈ past, 1 ≤ row.attempts ∧ row.attempts ≤ 2 ^ 32 := by
  refine h.invariant (I := fun past _ => ∀ row ∈ past, 1 ≤ row.attempts ∧ row.attempts ≤ 2 ^ 32)
    (fun _ hrow => (nomatch hrow)) fun {past rows call rows' claimed} hbounds _ he row hrow => ?_
  rcases List.mem_append.mp hrow with hrow | hrow
  · exact hbounds row hrow
  · have hcall : rows.call call = (rows', claimed) := Option.some.inj he
    have hcases := rows.call_cases call
    rw [hcall] at hcases
    rcases hcases with ⟨hnone, -⟩ | ⟨new, hclaim, hat, hle⟩
    · rw [show claimed = [] from hnone] at hrow
      cases hrow
    · rw [(Prod.mk.inj hclaim).2] at hrow
      rw [List.mem_singleton.mp hrow]
      exact ⟨by omega, hle⟩

/-- No two successful claims get the same delivery and attempt, there are never more of them
    than the delivery has attempts, and these never decrease. -/
theorem one_request_per_claim (h : (redeliveryMachine G).Run ok init past rows) :
    (past.map claimedPair).Nodup ∧
      (∀ guid, past.countP (fun row => row.deliveryGuid = guid) ≤ rows.attemptsOf guid) ∧
      ∀ past' rows', (redeliveryMachine G).Run ok rows past' rows' →
        ∀ guid, rows.attemptsOf guid ≤ rows'.attemptsOf guid := by
  refine ⟨?_, h.grants_le redeliveries_counted,
    fun past' rows' h' guid => h'.counter_le redeliveries_counted guid⟩
  have hbounds := claimed_bounds h
  -- the attempts of a delivery rise from claim to claim, and 32 bits tell them apart
  have hrise := h.ticks_pairwise redeliveries_counted
  refine List.pairwise_map.mpr (hrise.imp_of_mem fun {a b} ha hb hlt hpair => ?_)
  rcases Prod.mk.inj hpair with ⟨hguid, hread⟩
  have hcut : a.attempts % 2 ^ 32 = b.attempts % 2 ^ 32 := hread
  have habove := hlt hguid
  have haBounds := hbounds a ha
  have hbBounds := hbounds b hb
  omega

/-- Two watchdogs find no row and want the same delivery again, and one that reads later. -/
theorem one_request_per_claim_of_race :
    let observed : RedeliveryRecord Nat :=
      ⟨⟨7, 70, .remoteFailure, 0, 1, none, none, none⟩, by decide⟩
    let later : RedeliveryRecord Nat :=
      ⟨⟨7, 70, .remoteFailure, 1, 1, some 2, some 4, none⟩, by decide⟩
    ∃ past rows, (redeliveryMachine Nat).exec
        [.claim observed 2, .claim observed 3, .resolve 7 4, .claim later 5, .claim later 6]
        [] [] = some (past, rows) ∧
      past.map claimedPair = [(7, 1), (7, 2)] ∧ (past.map claimedPair).Nodup ∧
      rows.attemptsOf 7 = 2 := by
  intro observed later
  have hexec : ((redeliveryMachine Nat).exec
      [.claim observed 2, .claim observed 3, .resolve 7 4, .claim later 5, .claim later 6]
      [] []).isSome = true := by rfl
  rcases Option.isSome_iff_exists.mp hexec with ⟨⟨past, rows⟩, hrun⟩
  have hrun' : (redeliveryMachine Nat).Run (fun _ _ _ => True) [] past rows :=
    run_of_exec (fun _ _ _ _ => trivial) Machine.Run.start hrun
  refine ⟨past, rows, hrun, ?_, (one_request_per_claim hrun').1, ?_⟩
  · rcases Prod.mk.inj (Option.some.inj hrun) with ⟨rfl, -⟩
    rfl
  · rcases Prod.mk.inj (Option.some.inj hrun) with ⟨-, rfl⟩
    rfl

end Preloop
