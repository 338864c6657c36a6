import PreloopControl.Webhooks

/-!
# Webhook Leases

What the outside knows about a delivery is the history of calls and replies: who
claimed it last, under which token, until when, and how often it was claimed and
parked since its last reset. `Ledger` keeps these books and the rows of the
inbox agree with them after every call.

Everything else follows from that agreement. A write of a lease holder passes
the fence only with the token the row carries, which is the token of the latest
claim; two claims never mint the same token, so a worker whose delivery was
claimed again is fenced off for good. A row that is neither done nor failed is
never dropped, and it can be claimed at any time after its deadline.

## Main definitions

* `Ledger`: The books about one delivery.
* `InboxRun`: The histories of the inbox, under a clock that does not run
  backwards.
* `Inbox.Booked`: The rows agree with the books.

## Theorems

* `booked_exec`: Every call keeps the agreement.
* `inbox_leases`: Fencing, no loss and the count of attempts, in every history.
-/

namespace Preloop

open Txn

/-- The books about one delivery: claims and parks since the last reset, the
    tokens of all claims, latest first, and the deadline last granted. -/
structure Ledger where
  claims : Nat
  parks : Nat
  tokens : List String
  lease : Option Int
deriving DecidableEq, Repr

namespace Ledger

/-- Nothing happened yet. -/
def init : Ledger := ⟨0, 0, [], none⟩

/-- The attempts start over. -/
def reset (l : Ledger) : Ledger := { l with claims := 0, parks := 0 }

/-- A worker was handed this record. -/
def claim (id : String) (l : Ledger) (record : WebhookDelivery) : Ledger :=
  if record.deliveryId = id then
    { l with
      claims := l.claims + 1, tokens := record.leaseToken.toList ++ l.tokens,
      lease := record.leaseUntil }
  else l

end Ledger

/-- A call with the time it read and its reply. -/
structure InboxEntry where
  now : Int
  call : InboxCall
  reply : InboxReply

/-- The books after one more call. -/
def Ledger.after (id : String) (l : Ledger) (e : InboxEntry) : Ledger :=
  match e.call, e.reply with
  | .enqueue d _ _ _ _, .changed true => if d = id then l.reset else l
  | .claim _ _, .claimed records => records.foldl (Ledger.claim id) l
  | .renew d _ secs, .changed true =>
    if d = id then { l with lease := some (leaseUntil e.now secs) } else l
  | .park d _ _ _, .changed true => if d = id then { l with parks := l.parks + 1 } else l
  | .requeue d, .changed true => if d = id then l.reset else l
  | _, _ => l

/-- The books of a history, latest call first. -/
def ledger : List InboxEntry → String → Ledger
  | [], _ => .init
  | e :: h, id => (ledger h id).after id e

/-- The histories of the inbox, latest call first. -/
inductive InboxRun (env : InboxEnv) : List InboxEntry → Inbox → Prop
  | init : InboxRun env [] .init
  | step {h : List InboxEntry} {s s' : Inbox} {now : Int} {call : InboxCall}
      {reply : InboxReply} : InboxRun env h s → (∀ e ∈ h.head?, e.now ≤ now) →
      call.exec env now s = (reply, s') → InboxRun env (⟨now, call, reply⟩ :: h) s'

/-- A row agrees with the books about it. -/
structure WebhookDelivery.Booked (env : InboxEnv) (row : WebhookDelivery) (l : Ledger) :
    Prop where
  readable : (env.installation row.payload).isSome = true
  attempts : row.attempts + l.parks = l.claims
  leased : row.state = .processing → row.leaseToken = l.tokens.head? ∧
    row.leaseUntil = l.lease ∧ row.leaseUntil.isSome = true ∧ 0 < row.attempts

/-- The rows agree with the books, and the tokens in the books are distinct and
    were all drawn. -/
structure Inbox.Booked (env : InboxEnv) (books : String → Ledger) (s : Inbox) : Prop where
  rows : ∀ {id row}, s.rows.get id = some row → row.Booked env (books id)
  distinct : ∀ id, (books id).tokens.Nodup
  drawn : ∀ {id token}, token ∈ (books id).tokens → ∃ n < s.minted, token = env.uuid n

section Inbox

variable {env : InboxEnv} {books : String → Ledger} {s : Inbox}

/-! ## One row -/

/-- An update of one row hits it, or changes nothing. -/
theorem updateOne_cases (s : Inbox) (id : String) (guard : WebhookDelivery → Bool)
    (f : WebhookDelivery → WebhookDelivery) (hf : ∀ d, (f d).deliveryId = d.deliveryId) :
    (∃ row, s.rows.get id = some row ∧ guard row = true ∧
      (s.updateOne id guard f hf).1 = .changed true ∧
      (s.updateOne id guard f hf).2.minted = s.minted ∧
      ∀ k, (s.updateOne id guard f hf).2.rows.get k =
        if id = k then some (f row) else s.rows.get k) ∨
    s.updateOne id guard f hf = (.changed false, s) := by
  by_cases h : (s.rows.get id).any guard = true
  · left
    obtain ⟨row, hrow, hguard⟩ := (Option.any_eq_true _ _).mp h
    have hid : row.deliveryId = id := Table.key_of_get hrow
    refine ⟨row, hrow, hguard, by rw [Inbox.updateOne, h], rfl, fun k => ?_⟩
    rw [Inbox.updateOne, Table.get_updateWhere]
    by_cases hk : id = k
    · subst hk
      rw [hrow, if_pos rfl, Option.map_some, hid, hguard]
      simp only [decide_true, Bool.and_self, if_true]
    · rw [if_neg hk]
      cases hget : s.rows.get k with
      | none => rfl
      | some d =>
          -- The row stored under another key is not the one the statement names.
          have hd : d.deliveryId = k := Table.key_of_get hget
          simp only [Option.map_some, hd, Ne.symm hk, decide_false, Bool.false_and,
            Bool.false_eq_true, if_false]
  · right
    rw [Bool.not_eq_true] at h
    rw [Inbox.updateOne, h, Table.updateWhere_of_none]
    intro k d hd
    have hkey : d.deliveryId = k := Table.key_of_get hd
    by_cases hk : k = id
    · subst hk
      rw [hd, Option.any_some] at h
      rw [h, Bool.and_false]
    · simp only [hkey, hk, decide_false, Bool.false_and]

/-- One row is replaced and the books about it are brought up to date. -/
theorem booked_replace {s' : Inbox} {books' : String → Ledger} {id : String}
    {row : WebhookDelivery} (hs : s.Booked env books)
    (hget : ∀ k, s'.rows.get k = if id = k then some row else s.rows.get k)
    (hminted : s'.minted = s.minted) (htokens : ∀ k, (books' k).tokens = (books k).tokens)
    (hother : ∀ k, id ≠ k → books' k = books k) (hrow : row.Booked env (books' id)) :
    s'.Booked env books' where
  rows := by
    intro k row' h
    rw [hget] at h
    by_cases hk : id = k
    · subst hk
      rw [if_pos rfl, Option.some.injEq] at h
      subst h
      exact hrow
    · rw [if_neg hk] at h
      rw [hother k hk]
      exact hs.rows h
  distinct := by
    intro k
    rw [htokens k]
    exact hs.distinct k
  drawn := by
    intro k token h
    rw [htokens k] at h
    rw [hminted]
    exact hs.drawn h

/-! ## Claims -/

/-- One delivery of a claim: a row that is there is leased under the next token
    and handed out. -/
theorem claimOne_eq (deadline : Int) (claimed : List WebhookDelivery) {id : String}
    {row : WebhookDelivery} (hs : s.Booked env books) (hrow : s.rows.get id = some row) :
    ∃ s' row', Inbox.claimOne env deadline (s, claimed) id = (s', claimed ++ [row']) ∧
      s'.minted = s.minted + 1 ∧ row'.deliveryId = id ∧
      row' = { row with
        state := .processing, leaseUntil := some deadline, attempts := row.attempts + 1,
        leaseToken := some (env.uuid s.minted) } ∧
      ∀ k, s'.rows.get k = if id = k then some row' else s.rows.get k := by
  have hid : row.deliveryId = id := Table.key_of_get hrow
  have hread := (hs.rows hrow).readable
  -- the update touches the row of the id alone
  have hget : ∀ k f hf, (s.rows.updateWhere (fun d => d.deliveryId = id) f hf).get k =
      if id = k then some (f row) else s.rows.get k := by
    intro k f hf
    rw [Table.get_updateWhere]
    by_cases hk : id = k
    · subst hk
      simp only [hrow, Option.map_some, hid, decide_true, if_true]
    · rw [if_neg hk]
      cases hget : s.rows.get k with
      | none => rfl
      | some d =>
          have hd : d.deliveryId = k := Table.key_of_get hget
          simp only [Option.map_some, hd, Ne.symm hk, decide_false, Bool.false_eq_true, if_false]
  -- what the claim writes into the row
  let lease (d : WebhookDelivery) : WebhookDelivery :=
    { d with
      state := .processing, leaseUntil := some deadline, attempts := d.attempts + 1,
      leaseToken := some (env.uuid s.minted) }
  refine ⟨⟨s.rows.updateWhere (fun d => d.deliveryId = id) lease fun _ => rfl, s.minted + 1⟩,
    lease row, ?_, rfl, hid, rfl, fun k => hget k lease fun _ => rfl⟩
  unfold Inbox.claimOne
  simp only [hget, if_true, hread]
  rfl

/-- A claim of one delivery keeps the agreement, with the record in the books. -/
theorem booked_claimOne (hmint : Function.Injective env.uuid) (deadline : Int)
    (claimed : List WebhookDelivery) {id : String} {row : WebhookDelivery}
    (hs : s.Booked env books) (hrow : s.rows.get id = some row) :
    ∃ s' row', Inbox.claimOne env deadline (s, claimed) id = (s', claimed ++ [row']) ∧
      row'.deliveryId = id ∧ s'.Booked env (fun k => (books k).claim k row') ∧
      ∀ k, (s'.rows.get k).isSome = (s.rows.get k).isSome := by
  obtain ⟨s', row', heq, hminted, hid, hrow', hget⟩ := claimOne_eq deadline claimed hs hrow
  have htoken : row'.leaseToken = some (env.uuid s.minted) := by rw [hrow']
  -- The token is newer than every token in the books.
  have hfresh : ∀ k, env.uuid s.minted ∉ (books k).tokens := by
    intro k hmem
    obtain ⟨n, hn, htok⟩ := hs.drawn hmem
    have := hmint htok
    omega
  refine ⟨s', row', heq, hid, ⟨?_, ?_, ?_⟩, ?_⟩
  · intro k d hd
    rw [hget] at hd
    by_cases hk : id = k
    · subst hk
      rw [if_pos rfl, Option.some.injEq] at hd
      subst hd
      have hbooked := hs.rows hrow
      have hattempts := hbooked.attempts
      unfold Ledger.claim
      rw [if_pos hid]
      refine ⟨by rw [hrow']; exact hbooked.readable, ?_, ?_⟩
      · rw [hrow']
        show row.attempts + 1 + (books id).parks = (books id).claims + 1
        omega
      · intro _
        refine ⟨by rw [htoken]; rfl, rfl, by rw [hrow']; rfl, ?_⟩
        rw [hrow']
        exact Nat.succ_pos _
    · rw [if_neg hk] at hd
      simp only [Ledger.claim, hid, if_neg hk]
      exact hs.rows hd
  · intro k
    simp only [Ledger.claim]
    split
    · rw [htoken]
      exact List.nodup_cons.mpr ⟨hfresh k, hs.distinct k⟩
    · exact hs.distinct k
  · intro k token hmem
    rw [hminted]
    simp only [Ledger.claim] at hmem
    split at hmem
    · rw [htoken] at hmem
      rcases List.mem_cons.mp hmem with h | h
      · exact ⟨s.minted, by omega, h⟩
      · obtain ⟨n, hn, htok⟩ := hs.drawn h
        exact ⟨n, by omega, htok⟩
    · obtain ⟨n, hn, htok⟩ := hs.drawn hmem
      exact ⟨n, by omega, htok⟩
  · intro k
    rw [hget]
    by_cases hk : id = k
    · subst hk
      rw [if_pos rfl, hrow]
      rfl
    · rw [if_neg hk]

/-- A claim keeps the agreement, and every delivery it selected is handed out. -/
theorem booked_claims (hmint : Function.Injective env.uuid) (deadline : Int) (ids : List String)
    (claimed : List WebhookDelivery) (hs : s.Booked env books)
    (hids : ∀ id ∈ ids, (s.rows.get id).isSome = true) :
    ∃ s' records, ids.foldl (Inbox.claimOne env deadline) (s, claimed) =
        (s', claimed ++ records) ∧
      s'.Booked env (fun k => records.foldl (Ledger.claim k) (books k)) ∧
      (∀ k, (s'.rows.get k).isSome = (s.rows.get k).isSome) ∧
      ∀ id ∈ ids, ∃ record ∈ records, record.deliveryId = id := by
  -- The claimed records grow by one for each id, so the books are generalized.
  induction ids generalizing s claimed books with
  | nil =>
      exact ⟨s, [], by rw [List.foldl_nil, List.append_nil], hs, fun _ => rfl,
        fun id hid => absurd hid List.not_mem_nil⟩
  | cons id ids ih =>
      obtain ⟨row, hrow⟩ := Option.isSome_iff_exists.mp (hids id List.mem_cons_self)
      obtain ⟨s1, row', heq, hid, hs1, hsame⟩ :=
        booked_claimOne hmint deadline claimed hs hrow
      obtain ⟨s2, records, hfold, hs2, hsame2, hall⟩ := ih (claimed ++ [row']) hs1
        fun k hk => (hsame k).trans (hids k (List.mem_cons_of_mem id hk))
      refine ⟨s2, row' :: records, ?_, hs2, fun k => (hsame2 k).trans (hsame k), ?_⟩
      · rw [List.foldl_cons, heq, hfold, List.append_assoc, List.singleton_append]
      · intro k hk
        rcases List.mem_cons.mp hk with rfl | hk
        · exact ⟨row', List.mem_cons_self, hid⟩
        · obtain ⟨record, hmem, hrec⟩ := hall k hk
          exact ⟨record, List.mem_cons_of_mem row' hmem, hrec⟩

theorem mem_claimIds {now : Int} {limit : Nat} {id : String} (h : id ∈ s.claimIds now limit) :
    (s.rows.get id).isSome = true := by
  obtain ⟨d, hd, rfl⟩ := List.mem_map.mp h
  have hmem := List.mem_insertionSort _ |>.mp (List.mem_of_mem_take hd)
  rw [(Table.mem_select.mp hmem).1]
  rfl

/-! ## Calls -/

/-- A statement on one row keeps the agreement if the new row agrees with the
    books after a hit. -/
theorem booked_updateOne {s' : Inbox} {reply : InboxReply} {now : Int} {call : InboxCall}
    {id : String} {guard : WebhookDelivery → Bool} {f : WebhookDelivery → WebhookDelivery}
    {hf : ∀ d, (f d).deliveryId = d.deliveryId} (hs : s.Booked env books)
    (hexec : s.updateOne id guard f hf = (reply, s'))
    (hmiss : ∀ k l, Ledger.after k l ⟨now, call, .changed false⟩ = l)
    (hother : ∀ k l, id ≠ k → Ledger.after k l ⟨now, call, .changed true⟩ = l)
    (htokens : ∀ l, (Ledger.after id l ⟨now, call, .changed true⟩).tokens = l.tokens)
    (hhit : ∀ row l, guard row = true → row.Booked env l →
      (f row).Booked env (l.after id ⟨now, call, .changed true⟩)) :
    s'.Booked env fun k => (books k).after k ⟨now, call, reply⟩ := by
  rcases updateOne_cases s id guard f hf with ⟨row, hrow, hguard, hreply, hminted, hget⟩ | hsame
  · rw [hexec] at hreply hminted hget
    rw [show reply = .changed true from hreply]
    refine booked_replace hs hget hminted ?_ (fun k hk => hother k (books k) hk)
      (hhit row (books id) hguard (hs.rows hrow))
    intro k
    by_cases hk : id = k
    · subst hk
      exact htokens (books id)
    · rw [hother k (books k) hk]
  · rw [hexec, Prod.mk.injEq] at hsame
    obtain ⟨rfl, rfl⟩ := hsame
    simp only [hmiss]
    exact hs

/-- What the holder of a lease knows about its row. -/
theorem WebhookDelivery.processing_of_owned {token : String} {now : Int} {row : WebhookDelivery}
    (h : row.owned token now = true) :
    row.state = .processing ∧ row.leaseToken = some token ∧
      ∃ deadline, row.leaseUntil = some deadline ∧ now < deadline := by
  unfold WebhookDelivery.owned at h
  rw [Bool.and_eq_true, Bool.and_eq_true, decide_eq_true_eq, decide_eq_true_eq] at h
  obtain ⟨deadline, hdeadline, hlt⟩ := (Option.any_eq_true _ _).mp h.2
  exact ⟨h.1.1, h.1.2, deadline, hdeadline, of_decide_eq_true hlt⟩

/-- A row that is not processing only has to count its attempts. -/
theorem WebhookDelivery.Booked.idle {row : WebhookDelivery} {l : Ledger}
    (hread : (env.installation row.payload).isSome = true)
    (hattempts : row.attempts + l.parks = l.claims) (hstate : row.state ≠ .processing) :
    row.Booked env l :=
  ⟨hread, hattempts, fun h => absurd h hstate⟩

/-- A delivery the handler accepted starts with no attempts. -/
theorem booked_enqueue {s' : Inbox} {reply : InboxReply} {now receivedAtUs : Int}
    {deliveryId event : String} {payload : ByteArray} {signerAppId : Option String}
    (hs : s.Booked env books)
    (hexec : (InboxCall.enqueue deliveryId event payload receivedAtUs signerAppId).exec env now s
      = (reply, s')) :
    s'.Booked env fun k => (books k).after k
      ⟨now, .enqueue deliveryId event payload receivedAtUs signerAppId, reply⟩ := by
  unfold InboxCall.exec Inbox.enqueue WebhookDeliveryRecord.accepted at hexec
  cases htext : String.fromUTF8? payload with
  | none =>
      simp only [htext, Prod.mk.injEq] at hexec
      obtain ⟨rfl, rfl⟩ := hexec
      exact hs
  | some text =>
    cases hinst : env.installation text with
    | none =>
        simp only [htext, hinst, Prod.mk.injEq] at hexec
        obtain ⟨rfl, rfl⟩ := hexec
        exact hs
    | some installationId =>
        simp only [htext, hinst] at hexec
        have hread : (env.installation text).isSome = true := by rw [hinst]; rfl
        have hother : ∀ k (l : Ledger), deliveryId ≠ k → l.after k ⟨now,
            .enqueue deliveryId event payload receivedAtUs signerAppId, .changed true⟩ = l := by
          intro k l hk
          simp only [Ledger.after, if_neg hk]
        have htokens : ∀ k (l : Ledger), (l.after k ⟨now,
            .enqueue deliveryId event payload receivedAtUs signerAppId,
            .changed true⟩).tokens = l.tokens := by
          intro k l
          simp only [Ledger.after]
          split
          · rfl
          · rfl
        -- Either the row is new, or the statement restarts a failed one.
        split at hexec
        · next rows hins =>
            rw [Prod.mk.injEq] at hexec
            obtain ⟨rfl, rfl⟩ := hexec
            obtain ⟨_, hget⟩ := Table.insert?_eq_some hins
            refine booked_replace hs hget rfl (fun k => htokens k _)
              (fun k hk => hother k _ hk) ?_
            refine .idle hread ?_ DeliveryState.noConfusion
            simp only [Ledger.after, if_true, Ledger.reset]
        · refine booked_updateOne hs hexec (fun k l => rfl) hother (htokens deliveryId) ?_
          intro row l _ _
          refine .idle hread ?_ DeliveryState.noConfusion
          simp only [Ledger.after, if_true, Ledger.reset]

/-- Every call keeps the agreement. -/
theorem booked_exec (hmint : Function.Injective env.uuid) {s' : Inbox} {reply : InboxReply}
    {now : Int} {call : InboxCall} (hs : s.Booked env books)
    (hexec : call.exec env now s = (reply, s')) :
    s'.Booked env fun k => (books k).after k ⟨now, call, reply⟩ := by
  cases call with
  | enqueue deliveryId event payload receivedAtUs signerAppId => exact booked_enqueue hs hexec
  -- the claimed rows are booked one after the other, with fresh tokens
  | claim limit secs =>
      unfold InboxCall.exec Inbox.claim at hexec
      obtain ⟨s1, records, hfold, hs1, _, _⟩ := booked_claims hmint (leaseUntil now secs)
        (s.claimIds now limit) [] hs fun id hid => mem_claimIds hid
      simp only [hfold, List.nil_append, Prod.mk.injEq] at hexec
      obtain ⟨rfl, rfl⟩ := hexec
      exact hs1
  | renew id token secs =>
      refine booked_updateOne hs hexec (fun k l => rfl) ?_ ?_ ?_
      · intro k l hk
        simp only [Ledger.after, if_neg hk]
      · intro l
        simp only [Ledger.after, if_true]
      -- the lease is only extended
      · intro row l howned hrow
        obtain ⟨hstate, _⟩ := WebhookDelivery.processing_of_owned howned
        obtain ⟨htoken, _, _, hpos⟩ := hrow.leased hstate
        simp only [Ledger.after, if_true]
        exact ⟨hrow.readable, hrow.attempts, fun _ => ⟨htoken, rfl, rfl, hpos⟩⟩
  -- an ended or failed delivery is leased no more, and its attempts stay
  | complete id token =>
      refine booked_updateOne hs hexec (fun k l => rfl) (fun k l _ => rfl) (fun l => rfl) ?_
      intro row l _ hrow
      exact .idle hrow.readable hrow.attempts DeliveryState.noConfusion
  | fail id token error permanent retryDelay =>
      cases permanent with
      | true =>
          refine booked_updateOne hs hexec (fun k l => rfl) (fun k l _ => rfl) (fun l => rfl) ?_
          intro row l _ hrow
          exact .idle hrow.readable hrow.attempts DeliveryState.noConfusion
      | false =>
          refine booked_updateOne hs hexec (fun k l => rfl) (fun k l _ => rfl) (fun l => rfl) ?_
          intro row l _ hrow
          exact .idle hrow.readable hrow.attempts DeliveryState.noConfusion
  | recover =>
      unfold InboxCall.exec Inbox.recover at hexec
      rw [Prod.mk.injEq] at hexec
      obtain ⟨rfl, rfl⟩ := hexec
      -- a row under a lease becomes pending, the others stay
      refine ⟨?_, hs.distinct, hs.drawn⟩
      intro k row' hrow'
      rw [Table.get_updateWhere, Option.map_eq_some_iff] at hrow'
      obtain ⟨row, hrow, rfl⟩ := hrow'
      have hbooked := hs.rows hrow
      split
      · exact .idle hbooked.readable hbooked.attempts DeliveryState.noConfusion
      · exact hbooked
  | prune before limit =>
      unfold InboxCall.exec Inbox.prune at hexec
      rw [Prod.mk.injEq] at hexec
      obtain ⟨rfl, rfl⟩ := hexec
      refine ⟨?_, hs.distinct, hs.drawn⟩
      -- rows are only removed
      intro k row hrow
      rw [Table.get_deleteWhere, Option.filter_eq_some_iff] at hrow
      exact hs.rows hrow.1
  | park id token error secs =>
      refine booked_updateOne hs hexec (fun k l => rfl) ?_ ?_ ?_
      · intro k l hk
        simp only [Ledger.after, if_neg hk]
      · intro l
        simp only [Ledger.after, if_true]
      · intro row l howned hrow
        obtain ⟨hstate, _⟩ := WebhookDelivery.processing_of_owned howned
        -- A leased row was claimed, so there is an attempt to refund.
        obtain ⟨_, _, _, hpos⟩ := hrow.leased hstate
        have hattempts := hrow.attempts
        simp only [Ledger.after, if_true]
        refine .idle hrow.readable ?_ DeliveryState.noConfusion
        show row.attempts - 1 + (l.parks + 1) = l.claims
        omega
  | requeue id =>
      refine booked_updateOne hs hexec (fun k l => rfl) ?_ ?_ ?_
      · intro k l hk
        simp only [Ledger.after, if_neg hk]
      · intro l
        simp only [Ledger.after, if_true, Ledger.reset]
      -- the attempts begin again, in the row as in the books
      · intro row l _ hrow
        simp only [Ledger.after, if_true]
        exact .idle hrow.readable rfl DeliveryState.noConfusion

/-- The rows agree with the books in every history. -/
theorem booked_run (hmint : Function.Injective env.uuid) {h : List InboxEntry}
    (hrun : InboxRun env h s) : s.Booked env (ledger h) := by
  induction hrun with
  | init =>
      refine ⟨?_, fun id => List.nodup_nil, fun hmem => absurd hmem List.not_mem_nil⟩
      intro id row hrow
      exact absurd hrow (by simp only [Inbox.init, Table.get_empty, reduceCtorEq,
        not_false_eq_true])
  | step _ _ hexec ih => exact booked_exec hmint ih hexec

/-! ## Fencing -/

/-- A lease holder's write is an update of one row under the fence. -/
theorem exec_of_fence (env : InboxEnv) (s : Inbox) (now : Int) {call : InboxCall}
    {id token : String}
    (hcall : call.fence = some (id, token)) :
    ∃ f hf, call.exec env now s = s.updateOne id (WebhookDelivery.owned token now) f hf := by
  cases call with
  | renew id' token' secs =>
      obtain ⟨rfl, rfl⟩ := Prod.mk.inj (Option.some.inj hcall)
      exact ⟨_, _, rfl⟩
  | complete id' token' =>
      obtain ⟨rfl, rfl⟩ := Prod.mk.inj (Option.some.inj hcall)
      exact ⟨_, _, rfl⟩
  | fail id' token' error permanent retryDelay =>
      obtain ⟨rfl, rfl⟩ := Prod.mk.inj (Option.some.inj hcall)
      cases permanent with
      | true => exact ⟨_, _, rfl⟩
      | false => exact ⟨_, _, rfl⟩
  | park id' token' error secs =>
      obtain ⟨rfl, rfl⟩ := Prod.mk.inj (Option.some.inj hcall)
      exact ⟨_, _, rfl⟩
  | enqueue | claim | recover | prune | requeue =>
      exact absurd hcall (by simp only [InboxCall.fence, reduceCtorEq, not_false_eq_true])

/-- A write that passes the fence carries the token of the latest claim, and the
    deadline last granted lies ahead; one that does not pass changes nothing. -/
theorem fenced (now : Int) {call : InboxCall} {id token : String} (hs : s.Booked env books)
    (hcall : call.fence = some (id, token)) :
    ((call.exec env now s).1 = .changed true ∧ (books id).tokens.head? = some token ∧
      ∃ deadline, (books id).lease = some deadline ∧ now < deadline) ∨
    call.exec env now s = (.changed false, s) := by
  obtain ⟨f, hf, heq⟩ := exec_of_fence env s now hcall
  rw [heq]
  rcases updateOne_cases s id (WebhookDelivery.owned token now) f hf with
    ⟨row, hrow, howned, hreply, _, _⟩ | hsame
  · left
    obtain ⟨hstate, htoken, deadline, hdeadline, hlt⟩ :=
      WebhookDelivery.processing_of_owned howned
    obtain ⟨hhead, hlease, _, _⟩ := (hs.rows hrow).leased hstate
    exact ⟨hreply, hhead.symm.trans htoken, deadline, hlease.symm.trans hdeadline, hlt⟩
  · exact .inr hsame

/-! ## No loss -/

/-- No call drops a row that is not terminal. -/
theorem unfinished_stays (hmint : Function.Injective env.uuid) (hs : s.Booked env books)
    {now : Int} (call : InboxCall) {id : String} {row : WebhookDelivery}
    (hrow : s.rows.get id = some row) (hopen : row.terminal = false) :
    ((call.exec env now s).2.rows.get id).isSome = true := by
  have hsome : (s.rows.get id).isSome = true := by rw [hrow]; rfl
  -- most calls rewrite a row, and remove none
  have hupdate : ∀ k guard f hf, ((s.updateOne k guard f hf).2.rows.get id).isSome = true := by
    intro k guard f hf
    rw [Inbox.updateOne, Table.get_updateWhere, Option.isSome_map]
    exact hsome
  cases call with
  | enqueue deliveryId event payload receivedAtUs signerAppId =>
      unfold InboxCall.exec Inbox.enqueue WebhookDeliveryRecord.accepted
      cases htext : String.fromUTF8? payload with
      | none =>
          simp only [htext]
          exact hsome
      | some text =>
        cases hinst : env.installation text with
        | none =>
            simp only [htext, hinst]
            exact hsome
        | some installationId =>
            simp only [htext, hinst]
            split
            · next rows hins =>
                obtain ⟨_, hget⟩ := Table.insert?_eq_some hins
                rw [hget]
                split
                · rfl
                · exact hsome
            -- a repeated delivery rewrites its row
            · exact hupdate _ _ _ _
  -- a claim rewrites the rows it leases
  | claim limit secs =>
      obtain ⟨s1, records, hfold, _, hsame, _⟩ := booked_claims hmint (leaseUntil now secs)
        (s.claimIds now limit) [] hs fun id hid => mem_claimIds hid
      simp only [InboxCall.exec, Inbox.claim, hfold]
      exact (hsame id).trans hsome
  | renew k token secs => exact hupdate _ _ _ _
  | complete k token => exact hupdate _ _ _ _
  | fail k token error permanent retryDelay =>
      cases permanent with
      | true => exact hupdate _ _ _ _
      | false => exact hupdate _ _ _ _
  | recover =>
      simp only [InboxCall.exec, Inbox.recover, Table.get_updateWhere, Option.isSome_map]
      exact hsome
  | prune before limit =>
      simp only [InboxCall.exec, Inbox.prune]
      rw [Table.get_deleteWhere, hrow, Option.filter_some, if_pos]
      · rfl
      · -- Only terminal rows are selected, and the row under the id is not one.
        rw [Bool.not_eq_true', List.contains_eq_mem, decide_eq_false_iff_not]
        intro hmem
        obtain ⟨d, hd, hkey⟩ := List.mem_map.mp hmem
        have hsel := List.mem_insertionSort _ |>.mp (List.mem_of_mem_take hd)
        obtain ⟨hget, hcond⟩ := Table.mem_select.mp hsel
        rw [hkey, Table.key_of_get hrow, hrow, Option.some.injEq] at hget
        rw [← hget, hopen, Bool.false_and] at hcond
        exact Bool.false_ne_true hcond
  | park k token error secs => exact hupdate _ _ _ _
  | requeue k => exact hupdate _ _ _ _

/-- The time from which on nothing keeps a row from being claimed. -/
def WebhookDelivery.dueAfter (d : WebhookDelivery) : Int := d.leaseUntil.getD 0

/-- A row that is not terminal is claimable at any time after its deadline. -/
theorem claimable_after (hs : s.Booked env books) {id : String} {row : WebhookDelivery}
    (hrow : s.rows.get id = some row) (hopen : row.terminal = false) {now : Int}
    (hdue : row.dueAfter < now) : row.claimable now = true := by
  unfold WebhookDelivery.claimable WebhookDelivery.expired
  cases hstate : row.state with
  | received =>
      cases hlease : row.leaseUntil with
      | none => rfl
      | some deadline =>
          simp only [WebhookDelivery.dueAfter, hlease, Option.getD_some] at hdue
          have hle : deadline ≤ now := by omega
          simp only [decide_true, Option.all_some, hle, Bool.and_self, Bool.true_or]
  | processing =>
      -- A leased row has a deadline, so its lease runs out.
      obtain ⟨_, _, hsome, _⟩ := (hs.rows hrow).leased hstate
      obtain ⟨deadline, hlease⟩ := Option.isSome_iff_exists.mp hsome
      simp only [WebhookDelivery.dueAfter, hlease, Option.getD_some] at hdue
      simp only [hlease, Option.any_some, hdue, decide_true, Bool.and_self, Bool.or_true]
  | done =>
      exact absurd hopen (by simp only [WebhookDelivery.terminal, hstate, decide_true,
        Bool.true_or, Bool.true_eq_false, not_false_eq_true])
  | failed =>
      exact absurd hopen (by simp only [WebhookDelivery.terminal, hstate, decide_true,
        Bool.or_true, Bool.true_eq_false, not_false_eq_true])

/-- What has fewer elements in front of it than are taken is taken. -/
theorem mem_take_insertionSort {α : Type} (key : α → Int) {l : List α} {a : α} {k : Nat}
    (ha : a ∈ l) (hk : (l.filter fun b => decide (key b ≤ key a)).length ≤ k) :
    a ∈ (l.insertionSort fun b c => key b ≤ key c).take k := by
  have hsort := List.pairwise_insertionSort (fun b c => key b ≤ key c) l
  have hperm := List.perm_insertionSort (fun b c => key b ≤ key c) l
  rcases List.append_of_mem (hperm.mem_iff.mpr ha) with ⟨pre, post, hsplit⟩
  rw [hsplit] at hsort
  have hpre : ∀ b ∈ pre, decide (key b ≤ key a) = true := fun b hb =>
    decide_eq_true ((List.pairwise_append.mp hsort).2.2 b hb a List.mem_cons_self)
  have hself : decide (key a ≤ key a) = true := decide_eq_true le_rfl
  have hcount : pre.length < k := by
    have hlength := (hperm.filter fun b => decide (key b ≤ key a)).length_eq
    rw [hsplit, List.filter_append, List.filter_eq_self.mpr hpre, List.length_append,
      List.filter_cons, if_pos hself, List.length_cons] at hlength
    omega
  rw [hsplit, List.take_append, List.mem_append]
  right
  rw [show k - pre.length = k - pre.length - 1 + 1 by omega, List.take_succ_cons]
  exact List.mem_cons_self

/-- A claim with room for the claimable rows received no later hands a claimable row out. -/
theorem claimed_of_claimable (hmint : Function.Injective env.uuid) (hs : s.Booked env books)
    {id : String} {row : WebhookDelivery} (hrow : s.rows.get id = some row) {now : Int}
    (hclaimable : row.claimable now = true) {limit : Nat} (secs : UInt64)
    (hlimit : ((s.rows.select (WebhookDelivery.claimable now)).filter fun r =>
      decide (r.receivedAt ≤ row.receivedAt)).length ≤ min limit i64Max.toNat) :
    ∃ records, ((InboxCall.claim limit secs).exec env now s).1 = .claimed records ∧
      ∃ record ∈ records, record.deliveryId = id := by
  obtain ⟨s1, records, hfold, _, _, hall⟩ := booked_claims hmint (leaseUntil now secs)
    (s.claimIds now limit) [] hs fun id hid => mem_claimIds hid
  refine ⟨records, by simp only [InboxCall.exec, Inbox.claim, hfold, List.nil_append], hall id ?_⟩
  refine List.mem_map.mpr ⟨row, ?_, Table.key_of_get hrow⟩
  refine mem_take_insertionSort WebhookDelivery.receivedAt ?_ hlimit
  rw [Table.mem_select, Table.key_of_get hrow]
  exact ⟨hrow, hclaimable⟩

end Inbox

/-- In every history of the inbox: a renew, complete, fail or park succeeds only
    with the token of the latest claim and before the deadline last granted, and
    otherwise changes nothing, in particular for the holder of an earlier token;
    no call drops an unfinished delivery, and after its deadline it is claimed by
    any claim with room for it and for the claimable ones that are no younger, so that
    the oldest of them needs room for one; and its attempts are the claims less the
    parks since its last reset. -/
theorem inbox_leases {env : InboxEnv} (hmint : Function.Injective env.uuid)
    {h : List InboxEntry} {s : Inbox} (hrun : InboxRun env h s) :
    (∀ (now : Int) (call : InboxCall) (id token : String), call.fence = some (id, token) →
      ((call.exec env now s).1 = .changed true ∧ (ledger h id).tokens.head? = some token ∧
        (∃ deadline, (ledger h id).lease = some deadline ∧ now < deadline) ∧
        token ∉ (ledger h id).tokens.tail) ∨
      call.exec env now s = (.changed false, s)) ∧
    (∀ id row, s.rows.get id = some row → row.terminal = false →
      (∀ (now : Int) (call : InboxCall), ∃ row', (call.exec env now s).2.rows.get id = some row') ∧
      ∀ (now : Int) (limit : Nat) (secs : UInt64), row.dueAfter < now →
        ((s.rows.select (WebhookDelivery.claimable now)).filter fun r =>
          decide (r.receivedAt ≤ row.receivedAt)).length ≤ min limit i64Max.toNat →
        ∃ records, ((InboxCall.claim limit secs).exec env now s).1 = .claimed records ∧
          ∃ record ∈ records, record.deliveryId = id) ∧
    ∀ id row, s.rows.get id = some row →
      row.attempts + (ledger h id).parks = (ledger h id).claims := by
  have hs := booked_run hmint hrun
  refine ⟨?_, ?_, fun id row hrow => (hs.rows hrow).attempts⟩
  · intro now call id token hcall
    rcases fenced now hs hcall with ⟨hreply, hhead, hlease⟩ | hsame
    · refine .inl ⟨hreply, hhead, hlease, ?_⟩
      -- The tokens in the books are distinct, so the latest is not an older one.
      have hdistinct := hs.distinct id
      cases htokens : (ledger h id).tokens with
      | nil => exact List.not_mem_nil
      | cons head rest =>
          rw [htokens, List.head?_cons, Option.some.injEq] at hhead
          rw [htokens, hhead, List.nodup_cons] at hdistinct
          exact hdistinct.1
    · exact .inr hsame
  · intro id row hrow hopen
    refine ⟨fun now call => ?_, fun now limit secs hdue hlimit => ?_⟩
    · exact Option.isSome_iff_exists.mp (unfinished_stays hmint hs call hrow hopen)
    · exact claimed_of_claimable hmint hs hrow (claimable_after hs hrow hopen hdue) secs hlimit

/-- An environment in which every text parses. -/
def InboxEnv.plain : InboxEnv where
  installation _ := some none
  uuid n := String.ofList (List.replicate n 'x')

theorem InboxEnv.plain_uuid : Function.Injective InboxEnv.plain.uuid := by
  intro m n h
  have hlist : List.replicate m 'x' = List.replicate n 'x' := by
    have := congrArg String.toList h
    rwa [InboxEnv.plain, String.toList_ofList, String.toList_ofList] at this
  have hlength := congrArg List.length hlist
  rwa [List.length_replicate, List.length_replicate] at hlength

/-- A delivery is received and claimed, the lease runs out and it is claimed
    again. -/
def takenOver : List InboxCall :=
  [.enqueue "d" "push" ByteArray.empty 0 none, .claim 1 60, .claim 1 60]

/-- Calls a minute and a bit apart, latest first. -/
def historyOf (env : InboxEnv) : List InboxCall → List InboxEntry × Inbox
  | [] => ([], .init)
  | call :: calls =>
    let (h, s) := historyOf env calls
    let now := 61000000 * h.length
    let (reply, s') := call.exec env now s
    (⟨now, call, reply⟩ :: h, s')

theorem run_historyOf (env : InboxEnv) (calls : List InboxCall) :
    InboxRun env (historyOf env calls).1 (historyOf env calls).2 := by
  induction calls with
  | nil => exact .init
  | cons call calls ih =>
      simp only [historyOf]
      refine .step ih ?_ rfl
      intro e he
      cases calls with
      | nil => exact absurd he (by simp only [historyOf, List.head?_nil, Option.mem_def,
          reduceCtorEq, not_false_eq_true])
      | cons call' calls =>
          simp only [historyOf, List.head?_cons, Option.mem_def, Option.some.injEq] at he
          subst he
          simp only [historyOf, List.length_cons]
          omega

theorem takenOver_refused :
    let run := historyOf .plain takenOver.reverse
    (InboxCall.complete "d" "").exec .plain 122000000 run.2 = (.changed false, run.2) ∧
      (ledger run.1 "d").tokens = ["x", ""] := by
  have htokens : (ledger (historyOf .plain takenOver.reverse).1 "d").tokens = ["x", ""] := by
    decide
  refine ⟨?_, htokens⟩
  rcases (inbox_leases InboxEnv.plain_uuid (run_historyOf .plain takenOver.reverse)).1 122000000
    (.complete "d" "") "d" "" rfl with ⟨_, _, _, hnew⟩ | hsame
  · rw [htokens] at hnew
    exact absurd (List.mem_singleton.mpr rfl) hnew
  · exact hsame

end Preloop
