import PreloopControl.Lib.Machine

/-!
# The Webhook Delivery Watchdog

What the watchdog over the deliveries of one App stores (`webhook_watchdog.rs`), by the
statements of `control/lite/webhooks.rs`: the cursor of its scan, and the repair rows on which
several watchdogs claim their attempts. Times are microseconds. No statement deletes a repair
row.

## Main definitions

* `WatchdogCursor.store`: The stored watermark only moves forward.
* `Redeliveries.claim`: An attempt is taken only on the row that was read.
* `redeliveryMachine`: The statements of several watchdogs on the repair rows.

## Theorems

* `store_watermark`: A stored watermark is the old one or the new one.
* `load_put`: What is found after a row was put.
* `call_cases`: What one statement can do.
-/

namespace Preloop

variable {G : Type}

/-! ## The cursor -/

/-- `WebhookWatchdogCursor`: the row of an App. -/
structure WatchdogCursor (G : Type) where
  watermark : Option Int
  guid : Option G
  scanCursor : Option Nat
  lastPollAt : Option Int
  lastSuccessAt : Option Int

/-- The later of two times, either of which may be missing. -/
def laterOf (a b : Option Int) : Option Int :=
  match a, b with
  | none, b => b
  | a, none => a
  | some a, some b => some (max a b)

/-- `store_webhook_watchdog_cursor`: what the row becomes. -/
def WatchdogCursor.store [LinearOrder G] (new : WatchdogCursor G) :
    Option (WatchdogCursor G) → WatchdogCursor G
  | none => new
  | some old =>
      { watermark := laterOf old.watermark new.watermark
        guid :=
          match new.watermark, old.watermark with
          | none, _ => old.guid
          | some _, none => new.guid
          | some newAt, some oldAt =>
              if oldAt < newAt then new.guid
              else if newAt < oldAt then old.guid
              else
                match new.guid, old.guid with
                | none, oldGuid => oldGuid
                | some newGuid, none => some newGuid
                | some newGuid, some oldGuid =>
                    if oldGuid < newGuid then some newGuid else some oldGuid
        scanCursor := new.scanCursor
        lastPollAt := laterOf old.lastPollAt new.lastPollAt
        lastSuccessAt := laterOf old.lastSuccessAt new.lastSuccessAt }

/-! ## Repair rows -/

/-- `WebhookRepairReason`. -/
inductive WebhookRepairReason
  | phantomAck
  | remoteFailure

/-- `WebhookRedeliveryRecord` of the App. -/
structure WebhookRedelivery (G : Type) where
  deliveryGuid : G
  githubDeliveryId : Int
  reason : WebhookRepairReason
  attempts : Nat
  firstSeenAt : Int
  lastAttemptAt : Option Int
  resolvedAt : Option Int
  lastError : Option String

/-- `webhook_redeliveries`. -/
abbrev Redeliveries (G : Type) := List (WebhookRedelivery G)

namespace Redeliveries

variable [DecidableEq G]

/-- There is a row for the delivery. -/
def HasRow (rows : Redeliveries G) (guid : G) : Prop := ∃ row ∈ rows, row.deliveryGuid = guid

instance (rows : Redeliveries G) (guid : G) : Decidable (HasRow rows guid) :=
  inferInstanceAs (Decidable (∃ row ∈ rows, row.deliveryGuid = guid))

/-- `load_webhook_redelivery`. -/
def load (rows : Redeliveries G) (guid : G) : Option (WebhookRedelivery G) :=
  rows.find? fun row => row.deliveryGuid = guid

/-- The attempts of a delivery, none without a row. -/
def attemptsOf (rows : Redeliveries G) (guid : G) : Nat := (rows.load guid).elim 0 (·.attempts)

/-- The row in place of the one of its delivery, or a new one. -/
def put (rows : Redeliveries G) (row : WebhookRedelivery G) : Redeliveries G :=
  if HasRow rows row.deliveryGuid then
    rows.map fun old => if old.deliveryGuid = row.deliveryGuid then row else old
  else rows ++ [row]

/-- `upsert_webhook_redelivery`. -/
def upsert (rows : Redeliveries G) (new : WebhookRedelivery G) : Redeliveries G :=
  rows.put (match rows.load new.deliveryGuid with
    | none => new
    | some old => { new with
        attempts := max old.attempts new.attempts
        firstSeenAt := old.firstSeenAt
        lastAttemptAt := laterOf old.lastAttemptAt new.lastAttemptAt
        resolvedAt := old.resolvedAt.or new.resolvedAt })

/-- `claim_webhook_redelivery`: the claimed row, if the row is as it was read. -/
def claim (rows : Redeliveries G) (observed : WebhookRedelivery G) (now : Int) :
    Option (WebhookRedelivery G) × Redeliveries G :=
  match rows.load observed.deliveryGuid with
  | none =>
      let row := { observed with
        attempts := 1
        lastAttemptAt := some now
        resolvedAt := none
        lastError := none }
      (some row, rows.put row)
  | some old =>
      if old.attempts = observed.attempts ∧ old.resolvedAt = observed.resolvedAt then
        let row := { old with
          githubDeliveryId := observed.githubDeliveryId
          reason := observed.reason
          attempts := old.attempts + 1
          lastAttemptAt := some now
          resolvedAt := none
          lastError := none }
        (some row, rows.put row)
      else (none, rows)

/-- `resolve_webhook_redelivery`. -/
def resolve (rows : Redeliveries G) (guid : G) (now : Int) : Redeliveries G :=
  rows.map fun row =>
    if row.deliveryGuid = guid ∧ row.resolvedAt = none then { row with resolvedAt := some now }
    else row

end Redeliveries

/-- `WebhookRedeliveryRecord`, whose attempts have 32 bits. -/
abbrev RedeliveryRecord (G : Type) := { row : WebhookRedelivery G // row.attempts < 2 ^ 32 }

/-- `redelivery_row`: the attempts of the row are cut to 32 bits. -/
def WebhookRedelivery.asRead (row : WebhookRedelivery G) : RedeliveryRecord G :=
  ⟨{ row with attempts := row.attempts % 2 ^ 32 }, Nat.mod_lt _ (by decide)⟩

/-- The statements of any number of watchdogs, in the order in which they commit. A call may
    carry any record: one that was read at any time before, one that was changed since, or
    one made up for a delivery without a row. -/
inductive RedeliveryCall (G : Type)
  | claim (observed : RedeliveryRecord G) (now : Int)
  | upsert (record : RedeliveryRecord G)
  | resolve (guid : G) (now : Int)

/-- What a call makes of the rows. A successful claim is seen with the row it leaves, of
    which the caller gets what is read. -/
def Redeliveries.call [DecidableEq G] (rows : Redeliveries G) :
    RedeliveryCall G → Redeliveries G × List (WebhookRedelivery G)
  | .claim observed now => ((rows.claim observed now).2, (rows.claim observed now).1.toList)
  | .upsert record => (rows.upsert record, [])
  | .resolve guid now => (rows.resolve guid now, [])

/-- Watchdogs over the repair rows. -/
def redeliveryMachine (G : Type) [DecidableEq G] :
    Machine (Redeliveries G) (RedeliveryCall G) (WebhookRedelivery G) where
  advance call rows := some (rows.call call)

/-! ## Stored rows -/

variable [LinearOrder G]

/-- A stored watermark is the old one or the new one. -/
theorem store_watermark {new : WatchdogCursor G} {newAt : Int} (hnew : new.watermark = some newAt)
    (old : Option (WatchdogCursor G)) :
    ((new.store old).watermark = some newAt ∧ (new.store old).guid = new.guid) ∨
      ∃ c, old = some c ∧ (new.store old).watermark = c.watermark ∧
        c.watermark ≠ none ∧ (new.store old).guid = c.guid := by
  cases old with
  | none => exact .inl ⟨hnew, rfl⟩
  | some c =>
      simp only [WatchdogCursor.store, hnew]
      cases hold : c.watermark with
      | none => exact .inl ⟨rfl, rfl⟩
      | some oldAt =>
          simp only [laterOf]
          by_cases hlt : oldAt < newAt
          · rw [if_pos hlt, max_eq_right hlt.le]
            exact .inl ⟨rfl, rfl⟩
          · rw [if_neg hlt]
            by_cases hgt : newAt < oldAt
            · rw [if_pos hgt, max_eq_left hgt.le]
              exact .inr ⟨c, rfl, hold.symm, by simp [hold], rfl⟩
            · rw [if_neg hgt]
              have heq : oldAt = newAt := le_antisymm (not_lt.mp hgt) (not_lt.mp hlt)
              rw [heq, max_self]
              cases hguid : new.guid with
              | none => exact .inr ⟨c, rfl, by rw [hold, heq], by simp [hold], rfl⟩
              | some newGuid =>
                  cases holdGuid : c.guid with
                  | none => exact .inl ⟨rfl, rfl⟩
                  | some oldGuid =>
                      dsimp only
                      by_cases hafter : oldGuid < newGuid
                      · rw [if_pos hafter]
                        exact .inl ⟨rfl, rfl⟩
                      · rw [if_neg hafter]
                        exact .inr ⟨c, rfl, by rw [hold, heq], by simp [hold], holdGuid.symm⟩

namespace Redeliveries

variable {rows : Redeliveries G} {guid : G}

theorem load_guid {row : WebhookRedelivery G} (h : rows.load guid = some row) :
    row.deliveryGuid = guid := by
  have hfound := List.find?_some h
  exact of_decide_eq_true hfound

theorem load_eq_none_iff : rows.load guid = none ↔ ¬ HasRow rows guid := by
  simp [Redeliveries.load, HasRow]

/-- What is found after the rows were changed in place. -/
theorem load_map {f : WebhookRedelivery G → WebhookRedelivery G}
    (hf : ∀ row, (f row).deliveryGuid = row.deliveryGuid) (rows : Redeliveries G) (guid : G) :
    Redeliveries.load (rows.map f) guid = (rows.load guid).map f := by
  rw [Redeliveries.load, List.find?_map, Redeliveries.load]
  congr 2
  funext row
  rw [Function.comp_apply, hf row]

/-- What is found after a row was put. -/
theorem load_put (rows : Redeliveries G) (row : WebhookRedelivery G) (guid : G) :
    (rows.put row).load guid = if row.deliveryGuid = guid then some row else rows.load guid := by
  by_cases hrow : HasRow rows row.deliveryGuid
  · rw [Redeliveries.put, if_pos hrow, load_map (fun old => by split <;> simp_all)]
    by_cases hguid : row.deliveryGuid = guid
    · rw [if_pos hguid]
      cases hload : rows.load guid with
      | none => exact absurd (hguid ▸ hrow) (load_eq_none_iff.mp hload)
      | some old => rw [Option.map_some, if_pos ((load_guid hload).trans hguid.symm)]
    · rw [if_neg hguid]
      cases hload : rows.load guid with
      | none => rfl
      | some old =>
          rw [Option.map_some, if_neg fun heq => hguid (heq.symm.trans (load_guid hload))]
  · rw [Redeliveries.put, if_neg hrow, Redeliveries.load, List.find?_append]
    by_cases hguid : row.deliveryGuid = guid
    · have hnone : rows.load guid = none := load_eq_none_iff.mpr (hguid ▸ hrow)
      rw [if_pos hguid, ← Redeliveries.load, hnone]
      simp [hguid]
    · rw [if_neg hguid]
      simp [hguid, Redeliveries.load]

/-- A put row is found with at least the attempts it replaces. -/
theorem attemptsOf_put {row : WebhookRedelivery G}
    (hle : rows.attemptsOf row.deliveryGuid ≤ row.attempts) (guid : G) :
    rows.attemptsOf guid ≤ (rows.put row).attemptsOf guid := by
  rw [attemptsOf, attemptsOf, load_put]
  by_cases hguid : row.deliveryGuid = guid
  · rw [if_pos hguid, ← hguid]
    exact hle
  · rw [if_neg hguid]

theorem attemptsOf_of_load {row : WebhookRedelivery G} (h : rows.load guid = some row) :
    rows.attemptsOf guid = row.attempts := by
  rw [attemptsOf, h, Option.elim_some]

theorem attemptsOf_of_none (h : rows.load guid = none) : rows.attemptsOf guid = 0 := by
  rw [attemptsOf, h, Option.elim_none]

theorem attemptsOf_upsert (rows : Redeliveries G) (new : WebhookRedelivery G) (guid : G) :
    rows.attemptsOf guid ≤ (rows.upsert new).attemptsOf guid := by
  unfold Redeliveries.upsert
  cases hload : rows.load new.deliveryGuid with
  | none => exact attemptsOf_put ((attemptsOf_of_none hload).trans_le (Nat.zero_le _)) guid
  | some old =>
      refine attemptsOf_put ?_ guid
      exact (attemptsOf_of_load hload).trans_le (Nat.le_max_left old.attempts new.attempts)

theorem attemptsOf_resolve (rows : Redeliveries G) (other : G) (now : Int) (guid : G) :
    (rows.resolve other now).attemptsOf guid = rows.attemptsOf guid := by
  rw [attemptsOf, attemptsOf, Redeliveries.resolve,
    load_map (fun row => by split <;> rfl)]
  cases rows.load guid with
  | none => rfl
  | some row =>
      rw [Option.map_some, Option.elim_some, Option.elim_some]
      split
      · rfl
      · rfl

/-- What a claim does: nothing, or it puts the claimed row with one attempt more than the
    row had that was observed. -/
theorem claim_cases (rows : Redeliveries G) (observed : WebhookRedelivery G) (now : Int) :
    rows.claim observed now = (none, rows) ∨
      ∃ row, rows.claim observed now = (some row, rows.put row) ∧
        row.deliveryGuid = observed.deliveryGuid ∧
        row.attempts = rows.attemptsOf row.deliveryGuid + 1 ∧
        (rows.attemptsOf row.deliveryGuid = 0 ∨
          rows.attemptsOf row.deliveryGuid = observed.attempts) := by
  unfold Redeliveries.claim
  cases hload : rows.load observed.deliveryGuid with
  | none =>
      have hzero := attemptsOf_of_none hload
      exact .inr ⟨_, rfl, rfl, congrArg (· + 1) hzero.symm, .inl hzero⟩
  | some old =>
      dsimp only
      by_cases hsame : old.attempts = observed.attempts ∧ old.resolvedAt = observed.resolvedAt
      · rw [if_pos hsame]
        have hguid : old.deliveryGuid = observed.deliveryGuid := load_guid hload
        have hat : rows.attemptsOf old.deliveryGuid = old.attempts := by
          rw [hguid]
          exact attemptsOf_of_load hload
        exact .inr ⟨_, rfl, hguid, congrArg (· + 1) hat.symm, .inr (hat.trans hsame.1)⟩
      · rw [if_neg hsame]
        exact .inl rfl

/-- What a call does: it claims an attempt, or it leaves the attempts as they are or raises
    them. -/
theorem call_cases (rows : Redeliveries G) (call : RedeliveryCall G) :
    ((rows.call call).2 = [] ∧ ∀ guid, rows.attemptsOf guid ≤ (rows.call call).1.attemptsOf guid) ∨
      ∃ row, rows.call call = (rows.put row, [row]) ∧
        row.attempts = rows.attemptsOf row.deliveryGuid + 1 ∧ row.attempts ≤ 2 ^ 32 := by
  cases call with
  | claim observed now =>
      have hobserved := observed.2
      rcases rows.claim_cases observed.1 now with hsame | ⟨row, hrow, -, hat, hfrom⟩
      · refine .inl ⟨congrArg (·.1.toList) hsame, fun guid => ?_⟩
        exact (congrArg (fun result => result.2.attemptsOf guid) hsame).ge
      · exact .inr ⟨row, congrArg (fun result => (result.2, result.1.toList)) hrow, hat, by omega⟩
  | upsert record => exact .inl ⟨rfl, rows.attemptsOf_upsert record.1⟩
  | resolve other now => exact .inl ⟨rfl, fun guid => (rows.attemptsOf_resolve other now guid).ge⟩

end Redeliveries

end Preloop
