import PreloopControl.SessionEffects

/-!
# The Pause Book

Of the registry of debug sessions only three things of every live session and the
retired credit count for what a request is credited. They make a book of their own,
and every call on the registry is one of three entries in it, or none.

## Main definitions

* `PauseEntry`, `PauseBook`: What counts of a session and of the registry.
* `PauseBook.bank`, `PauseBook.retire`, `PauseBook.put`: The entries.

## Theorems

* `pausedForRequest_eq`: The credit of a request, read from the book.
* `book_open`, `book_operation`, `book_close`, `book_sweep`: The entries that the calls make.
-/

namespace Preloop

/-! ## Entries -/

/-- What counts of a session: its request, what is banked, and the open interval. -/
structure PauseEntry where
  requestId : Int
  banked : Nat
  since : Option Nat
deriving DecidableEq, Repr

/-- The entry of a record. -/
def SessionRecord.pauseEntry (r : SessionRecord) : PauseEntry :=
  ⟨r.requestId, r.session.pausedSeconds, r.pausedSince⟩

namespace PauseEntry

/-- The open interval is banked in whole seconds. -/
def bank (now : Nat) (e : PauseEntry) : PauseEntry :=
  match e.since with
  | none => e
  | some since =>
    { e with since := none, banked := min (e.banked + (now - since) / 10 ^ 9) (2 ^ 64 - 1) }

/-- The running pause of an entry. -/
def pause (e : PauseEntry) : Option (Int × Nat) := e.since.map fun since => (e.requestId, since)

@[simp] theorem bank_requestId (now : Nat) (e : PauseEntry) :
    (e.bank now).requestId = e.requestId := by
  unfold bank
  split <;> rfl

@[simp] theorem bank_since (now : Nat) (e : PauseEntry) : (e.bank now).since = none := by
  unfold bank
  split
  · assumption
  · rfl

end PauseEntry

theorem bankPaused_entry (now : Nat) (r : SessionRecord) :
    (r.bankPaused now).pauseEntry = r.pauseEntry.bank now := by
  unfold SessionRecord.bankPaused PauseEntry.bank SessionRecord.pauseEntry
  cases hsince : r.pausedSince with
  | none => simp only [hsince]
  | some since => simp only

/-! ## The book -/

/-- What counts of the registry. -/
@[ext]
structure PauseBook where
  live : SortedMap Text PauseEntry
  retired : SortedMap Int Nat

/-- The book of a registry. -/
def DebugSessionRegistry.book (g : DebugSessionRegistry) : PauseBook :=
  ⟨g.sessions.mapValues SessionRecord.pauseEntry, g.retiredCredit⟩

namespace PauseBook

/-- The interval of a session is banked. -/
def bank (now : Nat) (b : PauseBook) (sid : Text) : PauseBook :=
  match b.live.lookup sid with
  | none => b
  | some e => { b with live := b.live.insert sid (e.bank now) }

/-- Seconds are added to a request's credit. -/
def creditTo (requestId : Int) (banked : Nat) (retired : SortedMap Int Nat) : SortedMap Int Nat :=
  if banked = 0 then retired
  else
    retired.insert requestId (min ((retired.lookup requestId).getD 0 + banked) maxPauseCredit)

theorem bank_retired (now : Nat) (b : PauseBook) (sid : Text) :
    (b.bank now sid).retired = b.retired := by
  unfold bank
  split <;> rfl

/-- A session is taken out, and what it banked is credited to its request. -/
def retire (b : PauseBook) (sid : Text) : PauseBook :=
  match b.live.lookup sid with
  | none => b
  | some e => ⟨b.live.erase sid, creditTo e.requestId e.banked b.retired⟩

/-- A session begins a pause. -/
def put (now : Nat) (sid : Text) (requestId : Int) (banked : Nat) (b : PauseBook) : PauseBook :=
  { b with live := b.live.insert sid ⟨requestId, banked, some now⟩ }

/-- The seconds that live sessions of a request have banked. -/
def bankedOf (requestId : Int) (b : PauseBook) : Nat :=
  b.live.sum fun _ e => if e.requestId = requestId then e.banked else 0

/-- The credit a request has from sessions that are gone. -/
def retiredOf (requestId : Int) (b : PauseBook) : Nat := (b.retired.lookup requestId).getD 0

end PauseBook

variable {env : DebugEnv} {g : DebugSessionRegistry}

theorem book_live (g : DebugSessionRegistry) (sid : Text) :
    g.book.live.lookup sid = (g.sessions.lookup sid).map SessionRecord.pauseEntry :=
  SortedMap.lookup_mapValues _ _ _

theorem book_eq {g' : DebugSessionRegistry} {b : PauseBook}
    (hlive : ∀ sid, (g'.sessions.lookup sid).map SessionRecord.pauseEntry = b.live.lookup sid)
    (hretired : g'.retiredCredit = b.retired) : g'.book = b :=
  PauseBook.ext (SortedMap.ext_lookup fun sid => (book_live g' sid).trans (hlive sid)) hretired

/-! ## The credit -/

/-- A bound on every summand does not matter under the same bound on the sum. -/
theorem min_sum_min {α : Type} (f : α → Nat) (c : Nat) (es : List α) (y : Nat) :
    min ((es.map fun e => min (f e) c).sum + y) c = min ((es.map f).sum + y) c := by
  induction es generalizing y with
  | nil => rfl
  | cons e es ih =>
      rw [List.map_cons, List.map_cons, List.sum_cons, List.sum_cons]
      have hrest := ih (min (f e) c + y)
      have hrest' := ih (f e + y)
      omega

/-- The credit of a request, read from the book. -/
theorem pausedForRequest_eq (requestId : Int) (now : Nat) (g : DebugSessionRegistry) :
    g.pausedForRequest requestId now =
      min ((g.book.live.sum fun _ e =>
          if e.requestId = requestId then (e.since.map fun since => now - since).getD 0 else 0) +
        (g.book.bankedOf requestId + g.book.retiredOf requestId) * 10 ^ 9)
        (maxPauseCredit * 10 ^ 9) := by
  -- the sum over the sessions of a request, split into what runs and what was banked
  have hsplit : ∀ es : List (Text × SessionRecord),
      ((es.filter fun e => decide (e.2.requestId = requestId)).map fun e =>
          e.2.session.pausedSeconds * 10 ^ 9 +
            (e.2.pausedSince.map fun since => now - since).getD 0).sum =
        (es.map fun e => if e.2.requestId = requestId then
            (e.2.pausedSince.map fun since => now - since).getD 0 else 0).sum +
          (es.map fun e =>
            if e.2.requestId = requestId then e.2.session.pausedSeconds else 0).sum * 10 ^ 9 := by
    intro es
    induction es with
    | nil => simp
    | cons e es ih =>
        rw [List.filter_cons, List.map_cons, List.map_cons, List.sum_cons, List.sum_cons]
        by_cases he : e.2.requestId = requestId
        · rw [if_pos (decide_eq_true he), List.map_cons, List.sum_cons, ih, if_pos he, if_pos he]
          omega
        · rw [if_neg (by simpa using he), ih, if_neg he, if_neg he]
          omega
  -- the book has the same sessions, with less of each
  have hlive : ∀ f : PauseEntry → Nat, (g.book.live.sum fun _ e => f e) =
      (g.sessions.entries.map fun e => f e.2.pauseEntry).sum := by
    intro f
    show ((g.sessions.entries.map fun e => (e.1, e.2.pauseEntry)).map fun e => f e.2).sum = _
    rw [List.map_map]
    rfl
  unfold DebugSessionRegistry.pausedForRequest PauseBook.bankedOf
  rw [hlive, hlive]
  show min (((g.sessions.entries.filter fun e => decide (e.2.requestId = requestId)).map
    fun e => min _ _).sum + _) _ = _
  rw [min_sum_min, hsplit]
  show min (_ + g.book.retiredOf requestId * 10 ^ 9) _ = _
  congr 1
  rw [Nat.add_mul, ← Nat.add_assoc]
  simp only [SessionRecord.pauseEntry]
  rfl

/-! ## The calls -/

/-- Records that count alike. -/
theorem book_insert {g g' : DebugSessionRegistry} {id : Text} {r r' : SessionRecord}
    (hr : g.sessions.lookup id = some r) (hsessions : g'.sessions = g.sessions.insert id r')
    (hentry : r'.pauseEntry = r.pauseEntry) (hretired : g'.retiredCredit = g.retiredCredit) :
    g'.book = g.book := by
  refine book_eq (fun sid => ?_) hretired
  rw [book_live, hsessions, lookup_insert_session]
  by_cases hid : id = sid
  · rw [if_pos hid, ← hid, hr, Option.map_some, Option.map_some, hentry]
  · rw [if_neg hid]

/-- A record that banks. -/
theorem book_insert_bank {g : DebugSessionRegistry} {id : Text} {r r' : SessionRecord}
    {now : Nat} (hr : g.sessions.lookup id = some r)
    (hentry : r'.pauseEntry = r.pauseEntry.bank now) (sid : Text) :
    ((g.sessions.insert id r').lookup sid).map SessionRecord.pauseEntry =
      (g.book.bank now id).live.lookup sid := by
  have hid' : g.book.live.lookup id = some r.pauseEntry := by
    rw [book_live, hr, Option.map_some]
  unfold PauseBook.bank
  simp only [hid', SortedMap.lookup_insert]
  by_cases hid : id = sid
  · rw [if_pos hid, if_pos hid, Option.map_some, hentry]
  · rw [if_neg hid, if_neg hid, book_live]

/-- An open puts the entry of its session. -/
theorem book_open (env : DebugEnv) (now : Nat) (requestId : Int) (req : OpenSessionRequest)
    (g : DebugSessionRegistry) :
    (g.openRecord env now requestId req).2.book =
      g.book.put now (g.openRecord env now requestId req).1.sessionId requestId
        ((g.existing req.runId req.jobId).elim 0 fun found => found.2.session.pausedSeconds) := by
  unfold DebugSessionRegistry.openRecord DebugSessionRegistry.start
  cases hexisting : g.existing req.runId req.jobId with
  | none =>
      refine book_eq (fun sid => ?_) rfl
      dsimp only [PauseBook.put, DebugSessionRegistry.openedSession]
      rw [lookup_insert_session, SortedMap.lookup_insert]
      by_cases hid : "dbg_".toList ++ env.uuid g.minted = sid
      · rw [if_pos hid, if_pos hid]
        rfl
      · rw [if_neg hid, if_neg hid, book_live]
  | some found =>
      rcases found with ⟨id, old⟩
      refine book_eq (fun sid => ?_) rfl
      dsimp only [PauseBook.put, DebugSessionRegistry.openedSession]
      rw [lookup_insert_session, SortedMap.lookup_insert, lookup_erase_session]
      by_cases hid : id = sid
      · rw [if_pos hid, if_pos hid]
        rfl
      · rw [if_neg hid, if_neg hid, if_neg hid, book_live]

theorem pushEvent_entry (event : Text) (step : Option FailedStep) (message : Option Text)
    (r : SessionRecord) : (r.pushEvent event step message).pauseEntry = r.pauseEntry := by
  simp only [SessionRecord.pauseEntry, SessionRecord.pushEvent]

theorem book_acquire (id : Text) (req : SessionLeaseRequest) :
    (g.acquireControllerLease env id req).2.book = g.book := by
  unfold DebugSessionRegistry.acquireControllerLease
  split
  · rfl
  · cases hr : g.sessions.lookup id with
    | none => rfl
    | some r =>
        dsimp only
        cases r.controllerLease with
        | some existing =>
            dsimp only
            split <;> rfl
        | none => exact book_insert hr rfl (pushEvent_entry _ _ _ _) rfl

theorem book_release (id leaseId : Text) :
    (g.releaseControllerLease id leaseId).2.book = g.book := by
  unfold DebugSessionRegistry.releaseControllerLease
  cases hr : g.sessions.lookup id with
  | none => rfl
  | some r =>
      dsimp only
      split
      · rfl
      · exact book_insert hr rfl (pushEvent_entry _ _ _ _) rfl

theorem newOperation_entry {now : Nat} {req : SessionOperationRequest} {r r' : SessionRecord}
    {response : SessionOperationResponse} (h : r.newOperation now req = .ok (r', response)) :
    r'.pauseEntry = r.pauseEntry := by
  unfold SessionRecord.newOperation at h
  cases hlease : r.controllerLease with
  | none =>
      rw [hlease] at h
      cases h
  | some lease =>
      simp only [hlease] at h
      split at h
      · cases h
      · split at h
        · cases h
        · split at h
          · cases h
          · rcases Fallible.bind_eq_ok h with ⟨d, _, hd⟩
            rw [← (Prod.mk.inj (Except.ok.inj hd)).1]
            simp only [SessionRecord.pauseEntry, SessionRecord.pushEvent]

theorem book_operation (now : Nat) (id : Text) (req : SessionOperationRequest) :
    (g.sessionOperation now id req).2.book = g.book := by
  rcases sessionOperation_cases (g := g) now id req with
    ⟨message, heq⟩ | ⟨r, previous, _, _, heq⟩ | ⟨r, r', response, hr, _, hnew, heq⟩
  · rw [heq]
  · rw [heq]
  · rw [heq]
    exact book_insert hr rfl (newOperation_entry hnew) rfl

/-- A look at a verdict banks, if there is one. -/
theorem book_take (now : Nat) {id : Text} {r : SessionRecord}
    (hr : g.sessions.lookup id = some r) :
    (g.takeVerdict id now).2.book =
      if r.pendingVerdict.isSome then g.book.bank now id else g.book := by
  unfold DebugSessionRegistry.takeVerdict
  rw [hr]
  cases hpending : r.pendingVerdict.isSome with
  | true =>
      refine book_eq (book_insert_bank hr ?_) ?_
      · rw [SessionRecord.taken, hpending, if_pos rfl, bankPaused_entry]
        rfl
      · rw [if_pos rfl, PauseBook.bank_retired]
        rfl
  | false =>
      rw [if_neg Bool.false_ne_true]
      refine book_insert hr rfl ?_ rfl
      rw [SessionRecord.taken, hpending, if_neg Bool.false_ne_true]
      rfl

/-- A session is retired. -/
theorem book_retire {id : Text} {r : SessionRecord} {b : PauseBook}
    (hr : b.live.lookup id = some r.pauseEntry)
    (hothers : ∀ sid, id ≠ sid →
      (g.sessions.lookup sid).map SessionRecord.pauseEntry = b.live.lookup sid)
    (hgone : g.sessions.lookup id = none) (hretired : g.retiredCredit = b.retired) :
    (DebugSessionRegistry.retire id r g).book = b.retire id := by
  refine book_eq (fun sid => ?_) ?_
  · rw [retire_sessions]
    unfold PauseBook.retire
    simp only [hr, SortedMap.lookup_erase]
    by_cases hid : id = sid
    · rw [if_pos hid, ← hid, hgone, Option.map_none]
    · rw [if_neg hid, hothers sid hid]
  · unfold PauseBook.retire DebugSessionRegistry.retire DebugSessionRegistry.evictArchives
      DebugSessionRegistry.bankCredit PauseBook.creditTo
    simp only [hr, ← hretired]
    show (if r.session.pausedSeconds = 0 then g else _).retiredCredit =
      if r.session.pausedSeconds = 0 then _ else _
    split <;> rfl

/-- A close banks, and retires a session that is not kept. -/
theorem book_close (state : SessionState) (now : Nat) {id : Text} {r : SessionRecord}
    (hr : g.sessions.lookup id = some r) :
    (g.close id state now).book = g.book.bank now id ∨
      (g.close id state now).book = (g.book.bank now id).retire id := by
  have hentry : (DebugSessionRegistry.closedRecord state now r).pauseEntry =
      r.pauseEntry.bank now := by
    rw [← bankPaused_entry]
    unfold DebugSessionRegistry.closedRecord
    rw [pushEvent_entry]
    simp only [SessionRecord.pauseEntry]
  have hretired : (g.book.bank now id).retired = g.retiredCredit :=
    PauseBook.bank_retired now g.book id
  unfold DebugSessionRegistry.close
  rw [hr]
  dsimp only
  split
  · refine .inr (book_retire ?_ (fun sid hid => ?_) ?_ hretired.symm)
    · rw [← book_insert_bank hr hentry, lookup_insert_session, if_pos rfl, Option.map_some]
    · rw [← book_insert_bank hr hentry, lookup_insert_session, lookup_erase_session, if_neg hid,
        if_neg hid]
    · show (g.sessions.erase id).lookup id = none
      rw [lookup_erase_session, if_pos rfl]
  · exact .inl (book_eq (book_insert_bank hr hentry) hretired.symm)

/-- One abandoned session is banked and retired. -/
theorem book_sweepOne (now : Nat) (g : DebugSessionRegistry) (id : Text) :
    (DebugSessionRegistry.sweepOne now g id).book = (g.book.bank now id).retire id := by
  unfold DebugSessionRegistry.sweepOne
  cases hr : g.sessions.lookup id with
  | none =>
      have hnone : g.book.live.lookup id = none := by rw [book_live, hr, Option.map_none]
      unfold PauseBook.bank PauseBook.retire
      simp only [hnone]
  | some r =>
      have hentry := bankPaused_entry now r
      refine book_retire ?_ (fun sid hid => ?_) ?_ ?_
      · rw [← book_insert_bank hr hentry, lookup_insert_session, if_pos rfl, Option.map_some]
      · rw [← book_insert_bank hr hentry, lookup_insert_session, lookup_erase_session,
          if_neg hid, if_neg hid]
      · show (g.sessions.erase id).lookup id = none
        rw [lookup_erase_session, if_pos rfl]
      · exact (PauseBook.bank_retired now g.book id).symm

theorem book_sweep (now : Nat) (activeRequests : List Int) (g : DebugSessionRegistry) :
    (g.sweepAbandoned now activeRequests).2.book.live =
        ((g.sweepAbandoned now activeRequests).1.foldl
          (fun b id => (b.bank now id).retire id) g.book).live ∧
      ∀ requestId ∈ activeRequests,
        (g.sweepAbandoned now activeRequests).2.book.retiredOf requestId =
          ((g.sweepAbandoned now activeRequests).1.foldl
            (fun b id => (b.bank now id).retire id) g.book).retiredOf requestId := by
  -- what is swept is banked and retired one after the other, in the book as in the registry
  have hfold : ∀ (ids : List Text) (g : DebugSessionRegistry),
      (ids.foldl (DebugSessionRegistry.sweepOne now) g).book =
        ids.foldl (fun b id => (b.bank now id).retire id) g.book := by
    intro ids
    induction ids with
    | nil => exact fun _ => rfl
    | cons id ids ih =>
        intro g
        rw [List.foldl_cons, List.foldl_cons, ih, book_sweepOne]
  have hswept := hfold (g.abandoned now activeRequests) g
  refine ⟨?_, fun requestId hactive => ?_⟩
  · have hlive := congrArg PauseBook.live hswept
    exact hlive
  -- credit that was retired counts for the requests that are still active
  · have hretired := congrArg (PauseBook.retiredOf requestId) hswept
    refine Eq.trans ?_ hretired
    show (SortedMap.lookup (SortedMap.filter _ _) requestId).getD 0 = _
    rw [SortedMap.lookup_filter]
    refine congrArg (Option.getD · 0) ?_
    cases hcredit : ((g.abandoned now activeRequests).foldl (DebugSessionRegistry.sweepOne now)
        g).retiredCredit.lookup requestId with
    | none => simp [DebugSessionRegistry.book, hcredit]
    | some credit => simp [DebugSessionRegistry.book, hcredit, hactive]

end Preloop
