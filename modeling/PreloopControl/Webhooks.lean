import PreloopControl.Logic

/-!
# The Webhook Inbox

`webhook_deliveries` (`control/lite/webhooks.rs`): deliveries are received,
leased to workers, and end up done or dead-lettered. Every operation is one
transaction and reads the clock once.

A claim mints a fresh token and every write of a worker is fenced by it: the row
must still be processing under that token, with a deadline in the future. The
deadlines are 64-bit microseconds and saturate.

The JSON parser and the UUID generator are parameters.

## Main definitions

* `WebhookDelivery`: A row of the inbox.
* `WebhookDelivery.owned`: The fence every lease-holder write carries.
* `WebhookDelivery.claimable`: The rows a claim may lease.
* `InboxCall.exec`: The operations, with what they reply.
-/

namespace Preloop

open Txn

/-! ## Deadlines -/

/-- `i64::MAX`. -/
def i64Max : Int := 2 ^ 63 - 1

/-- `lease_until`: the seconds are cast to a signed integer first. -/
def leaseUntil (now : Int) (secs : UInt64) : Int :=
  saturate (now + saturate (secs.toBitVec.toInt * 1000000))

/-- `retry_deadline_us`, the delay in microseconds. -/
def retryDeadlineUs (now : Int) (micros : Nat) : Int :=
  saturate (now + min (micros : Int) i64Max)

/-! ## Rows -/

/-- `WebhookDeliveryStatus`. -/
inductive DeliveryState
  | received
  | processing
  | done
  | failed
deriving DecidableEq, Repr

/-- A row of `webhook_deliveries`. -/
structure WebhookDelivery where
  deliveryId : String
  installationId : Option Int
  event : String
  payload : String
  receivedAt : Int
  state : DeliveryState
  attempts : Nat
  leaseUntil : Option Int
  leaseToken : Option String
  signerAppId : Option String
  lastError : Option String
deriving DecidableEq, Repr

namespace WebhookDelivery

/-- `OWNED_LEASE`. -/
def owned (token : String) (now : Int) (d : WebhookDelivery) : Bool :=
  d.state = .processing && d.leaseToken = some token && d.leaseUntil.any (now < ·)

/-- A processing row whose lease ran out. -/
def expired (now : Int) (d : WebhookDelivery) : Bool :=
  d.state = .processing && d.leaseUntil.any (· < now)

/-- The rows `claim_webhook_deliveries` selects. -/
def claimable (now : Int) (d : WebhookDelivery) : Bool :=
  (d.state = .received && d.leaseUntil.all (· ≤ now)) || d.expired now

/-- The delivery ended, one way or the other. -/
def terminal (d : WebhookDelivery) : Bool := d.state = .done || d.state = .failed

end WebhookDelivery

/-- `WebhookDeliveryRecord`, as a caller passes it in. -/
structure WebhookDeliveryRecord where
  deliveryId : String
  event : String
  payload : ByteArray
  receivedAtUs : Int
  state : DeliveryState
  attempts : Nat
  leaseUntilUs : Option Int
  leaseToken : Option String
  signerAppId : Option String
  lastError : Option String

/-- What the inbox uses from outside: the JSON parser, giving `installation.id`
    of a text that parses, and the UUID generator, by the number of tokens drawn
    so far. -/
structure InboxEnv where
  installation : String → Option (Option Int)
  uuid : Nat → String

/-- The inbox. -/
structure Inbox where
  rows : Table WebhookDelivery.deliveryId
  minted : Nat

/-- A new inbox. -/
def Inbox.init : Inbox := ⟨.empty, 0⟩

/-! ## Operations -/

/-- What an operation replies. -/
inductive InboxReply
  | badRequest
  | changed (changed : Bool)
  | claimed (records : List WebhookDelivery)
  | count (n : Nat)
deriving DecidableEq, Repr

namespace Inbox

/-- `UPDATE … WHERE delivery_id = :id AND …`: whether a row changed. -/
def updateOne (s : Inbox) (id : String) (guard : WebhookDelivery → Bool)
    (f : WebhookDelivery → WebhookDelivery) (hf : ∀ d, (f d).deliveryId = d.deliveryId) :
    InboxReply × Inbox :=
  (.changed ((s.rows.get id).any guard),
    { s with rows := s.rows.updateWhere (fun d => d.deliveryId = id && guard d) f hf })

/-- `enqueue_webhook_delivery`. -/
def enqueue (env : InboxEnv) (r : WebhookDeliveryRecord) (s : Inbox) : InboxReply × Inbox :=
  match String.fromUTF8? r.payload with
  | none => (.badRequest, s)
  | some payload =>
    match env.installation payload with
    | none => (.badRequest, s)
    | some installationId =>
      let row : WebhookDelivery := ⟨r.deliveryId, installationId, r.event, payload,
        r.receivedAtUs, r.state, r.attempts, r.leaseUntilUs, r.leaseToken, r.signerAppId,
        r.lastError⟩
      match s.rows.insert? row with
      | some rows => (.changed true, { s with rows := rows })
      | none =>
        -- `ON CONFLICT … DO UPDATE … WHERE state = 'failed'`.
        s.updateOne r.deliveryId (fun d => d.state = .failed) (fun d =>
          { row with
            deliveryId := d.deliveryId, state := .received, attempts := 0, leaseUntil := none,
            leaseToken := none, lastError := none }) fun _ => rfl

/-- One delivery of a claim: it is leased under a fresh token, or dead-lettered
    when its payload cannot be read. -/
def claimOne (env : InboxEnv) (deadline : Int) (acc : Inbox × List WebhookDelivery)
    (id : String) : Inbox × List WebhookDelivery :=
  let (s, claimed) := acc
  let lease (d : WebhookDelivery) : WebhookDelivery :=
    { d with
      state := .processing, leaseUntil := some deadline, attempts := d.attempts + 1,
      leaseToken := some (env.uuid s.minted) }
  let rows := s.rows.updateWhere (fun d => d.deliveryId = id) lease fun _ => rfl
  match rows.get id with
  | none => (⟨rows, s.minted + 1⟩, claimed)
  | some row =>
    if (env.installation row.payload).isSome then (⟨rows, s.minted + 1⟩, claimed ++ [row])
    else
      (⟨rows.updateWhere (fun d => d.deliveryId = id) (fun d =>
          { d with
            state := .failed, leaseUntil := none,
            lastError := some "undeliverable payload" }) fun _ => rfl,
        s.minted + 1⟩, claimed)

/-- The deliveries a claim takes, oldest first. -/
def claimIds (s : Inbox) (now : Int) (limit : Nat) : List String :=
  (((s.rows.select (WebhookDelivery.claimable now)).insertionSort
    fun a b => a.receivedAt ≤ b.receivedAt).take (min limit i64Max.toNat)).map
      WebhookDelivery.deliveryId

/-- `claim_webhook_deliveries`. -/
def claim (env : InboxEnv) (now : Int) (limit : Nat) (secs : UInt64) (s : Inbox) :
    InboxReply × Inbox :=
  let (s', claimed) :=
    (s.claimIds now limit).foldl (claimOne env (Preloop.leaseUntil now secs)) (s, [])
  (.claimed claimed, s')

/-- `renew_webhook_delivery`. -/
def renew (now : Int) (id token : String) (secs : UInt64) (s : Inbox) : InboxReply × Inbox :=
  s.updateOne id (WebhookDelivery.owned token now)
    (fun d => { d with leaseUntil := some (Preloop.leaseUntil now secs) }) fun _ => rfl

/-- `complete_webhook_delivery`. -/
def complete (now : Int) (id token : String) (s : Inbox) : InboxReply × Inbox :=
  s.updateOne id (WebhookDelivery.owned token now)
    (fun d => { d with
      state := .done, leaseUntil := none, leaseToken := none, lastError := none }) fun _ => rfl

/-- `fail_webhook_delivery`. -/
def fail (now : Int) (id token error : String) (permanent : Bool) (retryDelay : Option Nat)
    (s : Inbox) : InboxReply × Inbox :=
  if permanent then
    s.updateOne id (WebhookDelivery.owned token now)
      (fun d => { d with
        state := .failed, leaseUntil := none, leaseToken := none, lastError := some error })
      fun _ => rfl
  else
    s.updateOne id (WebhookDelivery.owned token now)
      (fun d => { d with
        state := .received, leaseUntil := retryDelay.map (retryDeadlineUs now),
        leaseToken := none, lastError := some error }) fun _ => rfl

/-- `recover_webhook_deliveries`. -/
def recover (now : Int) (s : Inbox) : InboxReply × Inbox :=
  let rows := s.rows.updateWhere (WebhookDelivery.expired now)
    (fun d => { d with state := .received, leaseUntil := none, leaseToken := none }) fun _ => rfl
  (.count (s.rows.select (WebhookDelivery.expired now)).length, { s with rows := rows })

/-- The deliveries a prune drops, oldest first. -/
def pruneIds (s : Inbox) (before : Int) (limit : Nat) : List String :=
  (((s.rows.select fun d => d.terminal && d.receivedAt < before).insertionSort
    fun a b => a.receivedAt ≤ b.receivedAt).take (min limit i64Max.toNat)).map
      WebhookDelivery.deliveryId

/-- `prune_webhook_deliveries`. -/
def prune (before : Int) (limit : Nat) (s : Inbox) : InboxReply × Inbox :=
  let ids := s.pruneIds before limit
  (.count ids.length, { s with rows := s.rows.deleteWhere fun d => ids.contains d.deliveryId })

/-- `park_webhook_delivery`: the attempt the claim charged is refunded. -/
def park (now : Int) (id token error : String) (secs : UInt64) (s : Inbox) :
    InboxReply × Inbox :=
  s.updateOne id (WebhookDelivery.owned token now)
    (fun d => { d with
      state := .received, leaseUntil := some (Preloop.leaseUntil now secs), leaseToken := none,
      attempts := d.attempts - 1, lastError := some error }) fun _ => rfl

/-- `requeue_webhook_delivery`. -/
def requeue (id : String) (s : Inbox) : InboxReply × Inbox :=
  s.updateOne id WebhookDelivery.terminal
    (fun d => { d with
      state := .received, attempts := 0, leaseUntil := none, leaseToken := none,
      lastError := none }) fun _ => rfl

end Inbox

/-! ## Calls -/

/-- The record the webhook handler builds for a delivery that passed its checks. -/
def WebhookDeliveryRecord.accepted (deliveryId event : String) (payload : ByteArray)
    (receivedAtUs : Int) (signerAppId : Option String) : WebhookDeliveryRecord :=
  ⟨deliveryId, event, payload, receivedAtUs, .received, 0, none, none, signerAppId, none⟩

/-- A call of the handler, a worker, the boot recovery, the pruner or an
    operator. -/
inductive InboxCall
  | enqueue (deliveryId event : String) (payload : ByteArray) (receivedAtUs : Int)
      (signerAppId : Option String)
  | claim (limit : Nat) (secs : UInt64)
  | renew (id token : String) (secs : UInt64)
  | complete (id token : String)
  | fail (id token error : String) (permanent : Bool) (retryDelay : Option Nat)
  | recover
  | prune (before : Int) (limit : Nat)
  | park (id token error : String) (secs : UInt64)
  | requeue (id : String)

/-- The call at some time. -/
def InboxCall.exec (env : InboxEnv) (now : Int) : InboxCall → Inbox → InboxReply × Inbox
  | .enqueue deliveryId event payload receivedAtUs signerAppId, s =>
    s.enqueue env (.accepted deliveryId event payload receivedAtUs signerAppId)
  | .claim limit secs, s => s.claim env now limit secs
  | .renew id token secs, s => s.renew now id token secs
  | .complete id token, s => s.complete now id token
  | .fail id token error permanent retryDelay, s => s.fail now id token error permanent retryDelay
  | .recover, s => s.recover now
  | .prune before limit, s => s.prune before limit
  | .park id token error secs, s => s.park now id token error secs
  | .requeue id, s => s.requeue id

/-- The delivery and the token of a write by the holder of a lease. -/
def InboxCall.fence : InboxCall → Option (String × String)
  | .renew id token _ | .complete id token | .fail id token _ _ _ | .park id token _ _ =>
    some (id, token)
  | _ => none

end Preloop
