import PreloopControl.PauseBook
import PreloopControl.Properties.DebugSessions

/-!
# Pause Credit

The credit of a job request should be the time the request was paused, up to the
second that is cut off whenever a pause ends, and no more than the ceiling.

A pause is known from the history alone: it begins when a session is opened and ends
when its verdict is delivered, when it is closed or swept, or when it is opened again.
An open that finds the session it replaces still paused drops that interval, and one
that comes from another request takes what was banked along. In histories where no open
does either to a request, its credit is exact.

## Main definitions

* `PauseLog`: The pauses of a history.
* `DebugEntry.Credits`: A call that takes nothing from a request and gives it nothing.
* `PauseAccounts`: The book agrees with the pauses.

## Theorems

* `accounts_exec`: What a call keeps of the accounts.
* `PauseAccounts.credit`: The credit is the running time and the whole seconds that ended.
* `credit_exact`: The credit of a request in a history that takes nothing from it.
* `reopen_drops_interval`: A session that is opened again forgets how long it was paused.
-/

namespace Preloop

/-! ## Pauses -/

/-- The pauses of a history: the running one of every session, with its request and its
    begin, and the requests and lengths of those that have ended. -/
structure PauseLog where
  running : SortedMap Text (Int × Nat)
  ended : List (Int × Nat)

namespace PauseLog

/-- The pause of a session ends. -/
def finish (now : Nat) (log : PauseLog) (sid : Text) : PauseLog :=
  match log.running.lookup sid with
  | none => log
  | some (requestId, since) => ⟨log.running.erase sid, (requestId, now - since) :: log.ended⟩

/-- A pause of a session begins, and the one before it ends. -/
def begin (now : Nat) (sid : Text) (requestId : Int) (log : PauseLog) : PauseLog :=
  { log.finish now sid with
    running := (log.finish now sid).running.insert sid (requestId, now) }

/-- What a call and its reply tell of the pauses. -/
def observe (log : PauseLog) (e : DebugEntry) : PauseLog :=
  match e.call, e.reply with
  | .openSession _ (some requestId) _, .opened session =>
    log.begin e.now session.sessionId requestId
  | .pollVerdict _ sid, .polled response =>
    if response.verdict.isSome then log.finish e.now sid else log
  | .closeSession _ sid _, .closed => log.finish e.now sid
  | .sweepAbandoned _, .swept stale => stale.foldl (finish e.now) log
  | _, _ => log

/-- The pauses of a history, latest call first. -/
def ofHistory : List DebugEntry → PauseLog
  | [] => ⟨∅, []⟩
  | e :: h => (ofHistory h).observe e

/-- How long the running pauses of a request have lasted. -/
def runningTime (requestId : Int) (now : Nat) (log : PauseLog) : Nat :=
  log.running.sum fun _ p => if p.1 = requestId then now - p.2 else 0

/-- The lengths of the pauses of a request that have ended. -/
def lengths (requestId : Int) (log : PauseLog) : List Nat :=
  (log.ended.filter fun p => p.1 = requestId).map Prod.snd

/-- How long a request was paused. -/
def pausedTime (requestId : Int) (now : Nat) (log : PauseLog) : Nat :=
  log.runningTime requestId now + (log.lengths requestId).sum

/-- The whole seconds of the pauses that have ended. -/
def wholeSeconds (requestId : Int) (log : PauseLog) : Nat :=
  ((log.lengths requestId).map (· / 10 ^ 9)).sum

theorem lengths_cons (requestId r : Int) (d : Nat) (running : SortedMap Text (Int × Nat))
    (ended : List (Int × Nat)) :
    (PauseLog.mk running ((r, d) :: ended)).lengths requestId =
      if r = requestId then d :: (PauseLog.mk running ended).lengths requestId
      else (PauseLog.mk running ended).lengths requestId := by
  unfold lengths
  rw [List.filter_cons]
  by_cases hr : r = requestId
  · rw [if_pos (decide_eq_true hr), if_pos hr, List.map_cons]
  · rw [if_neg (by simpa using hr), if_neg hr]

/-- Whole seconds fall short of the lengths by less than a second each. -/
theorem wholeSeconds_bounds (ls : List Nat) :
    (ls.map (· / 10 ^ 9)).sum * 10 ^ 9 ≤ ls.sum ∧
      ls.sum ≤ ((ls.map (· / 10 ^ 9)).sum + ls.length) * 10 ^ 9 := by
  have hone : ∀ d q total n : Nat, q * 10 ^ 9 ≤ total ∧ total ≤ (q + n) * 10 ^ 9 →
      (d / 10 ^ 9 + q) * 10 ^ 9 ≤ d + total ∧ d + total ≤ (d / 10 ^ 9 + q + (n + 1)) * 10 ^ 9 := by
    omega
  induction ls with
  | nil => simp
  | cons d ls ih =>
      rw [List.map_cons, List.sum_cons, List.sum_cons, List.length_cons]
      exact hone d _ _ _ ih

/-- The running time only grows. -/
theorem runningTime_mono {requestId : Int} {log : PauseLog} {now now' : Nat} (hle : now ≤ now') :
    log.runningTime requestId now ≤ log.runningTime requestId now' := by
  unfold runningTime SortedMap.sum
  refine List.sum_le_sum fun e _ => ?_
  dsimp only
  by_cases he : e.2.1 = requestId
  · rw [if_pos he, if_pos he]
    omega
  · rw [if_neg he, if_neg he]

end PauseLog

/-! ## The condition -/

/-- A call that takes nothing from a request and gives it nothing: no run is removed,
    sweeps know that the request is active, and an open that concerns the request replaces
    no session that was paused for a second or more, and none of another request with
    something banked. -/
structure DebugEntry.Credits (requestId : Int) (e : DebugEntry) : Prop where
  keeps : ∀ runId, e.call ≠ .removeForRun runId
  sweeps : ∀ activeRequests, e.call = .sweepAbandoned activeRequests →
    requestId ∈ activeRequests
  opens : ∀ caller opener req session, e.call = .openSession caller (some opener) req →
    e.reply = .opened session → ∀ id r, e.before.existing req.runId req.jobId = some (id, r) →
      (r.requestId = requestId → ∀ since, r.pausedSince = some since → e.now - since < 10 ^ 9) ∧
      (r.requestId ≠ opener → r.requestId = requestId ∨ opener = requestId →
        r.session.pausedSeconds = 0)

/-- A history, latest call first, whose calls take nothing from a request and give it
    nothing. -/
def CreditedHistory (requestId : Int) (h : List DebugEntry) : Prop :=
  ∀ e ∈ h, e.Credits requestId

/-! ## Accounts -/

/-- The book agrees with the pauses: the running ones session by session, and the ended
    ones of a request in whole seconds. -/
structure PauseAccounts (requestId : Int) (log : PauseLog) (b : PauseBook) : Prop where
  running : ∀ sid, log.running.lookup sid = (b.live.lookup sid).bind PauseEntry.pause
  banked : min (b.bankedOf requestId + b.retiredOf requestId) maxPauseCredit =
    min (log.wholeSeconds requestId) maxPauseCredit

section Accounts

variable {requestId : Int} {log : PauseLog} {b : PauseBook} {now : Nat} {sid : Text}

theorem bankedOf_insert (e : PauseEntry) :
    ({ b with live := b.live.insert sid e } : PauseBook).bankedOf requestId =
      (if e.requestId = requestId then e.banked else 0) +
        (b.live.erase sid).sum fun _ e => if e.requestId = requestId then e.banked else 0 :=
  SortedMap.sum_insert b.live sid e _

theorem bankedOf_lookup {e : PauseEntry} (h : b.live.lookup sid = some e) :
    b.bankedOf requestId = (if e.requestId = requestId then e.banked else 0) +
      (b.live.erase sid).sum fun _ e => if e.requestId = requestId then e.banked else 0 :=
  SortedMap.sum_of_lookup h _

theorem finish_running (now : Nat) (log : PauseLog) (sid k : Text) :
    (log.finish now sid).running.lookup k =
      if sid = k then none else log.running.lookup k := by
  unfold PauseLog.finish
  cases hrun : log.running.lookup sid with
  | none =>
      by_cases hk : sid = k
      · rw [if_pos hk, ← hk, hrun]
      · rw [if_neg hk]
  | some p =>
      dsimp only
      rw [SortedMap.lookup_erase]
      by_cases hk : sid = k
      · rw [if_pos hk, if_pos hk]
      · rw [if_neg hk, if_neg hk]

/-- A pause that ends is banked in whole seconds. -/
theorem PauseAccounts.bank (h : PauseAccounts requestId log b) (now : Nat) (sid : Text) :
    PauseAccounts requestId (log.finish now sid) (b.bank now sid) := by
  refine ⟨fun k => ?_, ?_⟩
  · rw [finish_running]
    unfold PauseBook.bank
    cases hlive : b.live.lookup sid with
    | none =>
        by_cases hk : sid = k
        · rw [if_pos hk, ← hk, hlive, Option.bind_none]
        · rw [if_neg hk, h.running]
    | some e =>
        dsimp only
        rw [SortedMap.lookup_insert]
        by_cases hk : sid = k
        · rw [if_pos hk, if_pos hk, Option.bind_some, PauseEntry.pause, PauseEntry.bank_since,
            Option.map_none]
        · rw [if_neg hk, if_neg hk, h.running]
  · have hrunning := h.running sid
    have hbanked := h.banked
    unfold PauseBook.bank PauseLog.finish
    cases hlive : b.live.lookup sid with
    | none =>
        rw [hlive, Option.bind_none] at hrunning
        simp only [hrunning]
        exact hbanked
    | some e =>
        rw [hlive, Option.bind_some] at hrunning
        dsimp only
        rw [bankedOf_insert, PauseEntry.bank_requestId]
        rw [bankedOf_lookup hlive] at hbanked
        show min (_ + b.retiredOf requestId) _ = _
        cases hsince : e.since with
        | none =>
            -- nothing runs, and nothing is banked
            have hbank : e.bank now = e := by simp only [PauseEntry.bank, hsince]
            rw [PauseEntry.pause, hsince, Option.map_none] at hrunning
            rw [hbank, hrunning]
            exact hbanked
        | some since =>
            have hbank : (e.bank now).banked =
                min (e.banked + (now - since) / 10 ^ 9) (2 ^ 64 - 1) := by
              simp only [PauseEntry.bank, hsince]
            rw [PauseEntry.pause, hsince, Option.map_some] at hrunning
            rw [hbank, hrunning]
            dsimp only
            unfold PauseLog.wholeSeconds at hbanked ⊢
            rw [PauseLog.lengths_cons]
            unfold maxPauseCredit at *
            by_cases hrequest : e.requestId = requestId
            · rw [if_pos hrequest] at hbanked
              rw [if_pos hrequest, if_pos hrequest, List.map_cons, List.sum_cons]
              show _ = min (_ + (log.lengths requestId |>.map (· / 10 ^ 9)).sum) _
              omega
            · rw [if_neg hrequest] at hbanked
              rw [if_neg hrequest, if_neg hrequest]
              exact hbanked

/-- A session without a running pause is retired with what it banked. -/
theorem PauseAccounts.retire (h : PauseAccounts requestId log b) (sid : Text)
    (hidle : ∀ e, b.live.lookup sid = some e → e.since = none) :
    PauseAccounts requestId log (b.retire sid) := by
  unfold PauseBook.retire
  cases hlive : b.live.lookup sid with
  | none => exact h
  | some e =>
      -- the entry leaves the live ones, and no pause of it was running
      refine ⟨fun k => ?_, ?_⟩
      · rw [h.running k]
        dsimp only
        rw [SortedMap.lookup_erase]
        by_cases hk : sid = k
        · rw [if_pos hk, ← hk, hlive, Option.bind_some, PauseEntry.pause, hidle e hlive,
            Option.map_none, Option.bind_none]
        · rw [if_neg hk]
      -- what it had banked goes from the live credit to the retired
      · have hbanked := h.banked
        rw [bankedOf_lookup hlive] at hbanked
        refine Eq.trans ?_ hbanked
        show min ((b.live.erase sid).sum _ +
          ((PauseBook.creditTo _ _ _).lookup requestId).getD 0) _ =
          min (_ + (b.retired.lookup requestId).getD 0) _
        unfold PauseBook.creditTo
        by_cases hzero : e.banked = 0
        · rw [if_pos hzero, hzero, ite_self, Nat.zero_add]
        -- the credit is added to that of the entry's own request
        · rw [if_neg hzero, SortedMap.lookup_insert]
          by_cases hrequest : e.requestId = requestId
          · rw [if_pos hrequest, if_pos hrequest, hrequest, Option.getD_some]
            omega
          · rw [if_neg hrequest, if_neg hrequest, Nat.zero_add]

theorem bank_idle {e : PauseEntry} (he : (b.bank now sid).live.lookup sid = some e) :
    e.since = none := by
  unfold PauseBook.bank at he
  cases hlive : b.live.lookup sid with
  | none =>
      simp only [hlive] at he
      cases he
  | some old =>
      simp only [hlive] at he
      rw [SortedMap.lookup_insert, if_pos rfl, Option.some.injEq] at he
      rw [← he, PauseEntry.bank_since]

/-- An open that finds nothing. -/
theorem PauseAccounts.putNew (h : PauseAccounts requestId log b) (opener : Int)
    (hfresh : b.live.lookup sid = none) :
    PauseAccounts requestId (log.begin now sid opener) (b.put now sid opener 0) := by
  have hrun : log.running.lookup sid = none := by rw [h.running, hfresh, Option.bind_none]
  have hfinish : log.finish now sid = log := by
    unfold PauseLog.finish
    rw [hrun]
  unfold PauseLog.begin PauseBook.put
  rw [hfinish]
  refine ⟨fun k => ?_, ?_⟩
  · dsimp only
    rw [SortedMap.lookup_insert, SortedMap.lookup_insert]
    by_cases hk : sid = k
    · rw [if_pos hk, if_pos hk]
      rfl
    · rw [if_neg hk, if_neg hk, h.running]
  · refine Eq.trans ?_ h.banked
    rw [bankedOf_insert, SortedMap.erase_of_lookup hfresh]
    dsimp only
    rw [ite_self, Nat.zero_add]
    rfl

/-- An open that finds a session whose pause was shorter than a second, or of no concern
    to the request. -/
theorem PauseAccounts.putOver {e : PauseEntry} (h : PauseAccounts requestId log b) (opener : Int)
    (hlive : b.live.lookup sid = some e)
    (hdropped : e.requestId = requestId → ∀ since, e.since = some since → now - since < 10 ^ 9)
    (htaken : e.requestId ≠ opener → e.requestId = requestId ∨ opener = requestId →
      e.banked = 0) :
    PauseAccounts requestId (log.begin now sid opener) (b.put now sid opener e.banked) := by
  have hrunning := h.running sid
  rw [hlive, Option.bind_some] at hrunning
  -- the pause that ends has no whole second that counts for the request
  have hwhole : (log.finish now sid).wholeSeconds requestId = log.wholeSeconds requestId := by
    unfold PauseLog.finish
    cases hsince : e.since with
    | none =>
        rw [PauseEntry.pause, hsince, Option.map_none] at hrunning
        rw [hrunning]
    | some since =>
        rw [PauseEntry.pause, hsince, Option.map_some] at hrunning
        rw [hrunning]
        unfold PauseLog.wholeSeconds
        dsimp only
        rw [PauseLog.lengths_cons]
        by_cases hrequest : e.requestId = requestId
        · have hshort := hdropped hrequest since hsince
          rw [if_pos hrequest, List.map_cons, List.sum_cons, Nat.div_eq_of_lt hshort,
            Nat.zero_add]
          rfl
        · rw [if_neg hrequest]
          rfl
  unfold PauseLog.begin PauseBook.put
  refine ⟨fun k => ?_, ?_⟩
  · dsimp only
    rw [SortedMap.lookup_insert, SortedMap.lookup_insert, finish_running]
    by_cases hk : sid = k
    · rw [if_pos hk, if_pos hk]
      rfl
    · rw [if_neg hk, if_neg hk, if_neg hk, h.running]
  · refine Eq.trans ?_ (h.banked.trans (congrArg (min · maxPauseCredit) hwhole.symm))
    rw [bankedOf_insert, bankedOf_lookup hlive]
    dsimp only
    have hsame : (if opener = requestId then e.banked else 0) =
        if e.requestId = requestId then e.banked else 0 := by
      by_cases howner : e.requestId = opener
      · rw [howner]
      · by_cases hconcerns : e.requestId = requestId ∨ opener = requestId
        · rw [htaken howner hconcerns, ite_self, ite_self]
        · rw [if_neg fun hr => hconcerns (.inr hr), if_neg fun hr => hconcerns (.inl hr)]
    rw [hsame]
    rfl

/-- A sweep ends and retires every session it takes. -/
theorem PauseAccounts.sweep (now : Nat) (ids : List Text) :
    ∀ {log : PauseLog} {b : PauseBook}, PauseAccounts requestId log b →
      PauseAccounts requestId (ids.foldl (PauseLog.finish now) log)
        (ids.foldl (fun b id => (b.bank now id).retire id) b) := by
  induction ids with
  | nil => exact id
  | cons id ids ih =>
      intro log b h
      rw [List.foldl_cons, List.foldl_cons]
      refine ih ((h.bank now id).retire id fun e he => ?_)
      exact bank_idle he

end Accounts

/-! ## Calls -/

section Calls

variable {env : DebugEnv} {h : List DebugEntry} {g : DebugSessionRegistry} {requestId : Int}
  {log : PauseLog} {now : Nat}

theorem accounts_openSession (hmint : Function.Injective env.uuid) (hrun : DebugRun env h g)
    (ha : PauseAccounts requestId log g.book) (caller : Text) (active : Option Int)
    (req : OpenSessionRequest)
    (hcredits : ((DebugCall.openSession caller active req).entry env now g).Credits requestId) :
    PauseAccounts requestId
      (log.observe ((DebugCall.openSession caller active req).entry env now g))
      ((DebugCall.openSession caller active req).exec env now g).2.book := by
  have hopens := hcredits.opens
  unfold DebugCall.entry at hopens ⊢
  unfold PauseLog.observe
  simp only [DebugCall.exec, DebugSessionRegistry.openSession] at hopens ⊢
  by_cases hcaller : caller ≠ req.agentJobId
  · rw [if_pos hcaller]
    cases active <;> exact ha
  · rw [if_neg hcaller] at hopens ⊢
    cases active with
    | none => exact ha
    | some opener =>
        dsimp only at hopens ⊢
        rw [book_open]
        cases hexisting : g.existing req.runId req.jobId with
        | none =>
            have hid : (g.openRecord env now opener req).1.sessionId = newSessionId env g := by
              unfold DebugSessionRegistry.openRecord DebugSessionRegistry.start
              rw [hexisting]
              rfl
            rw [hid]
            refine ha.putNew opener ?_
            -- the id is minted here, so no live session has it
            rw [book_live, Option.map_eq_none_iff]
            cases hlive : g.sessions.lookup (newSessionId env g) with
            | none => rfl
            | some r =>
                rcases (minted_run hrun _).1 r hlive with ⟨n, hn, heq⟩
                exact absurd (hmint (List.append_cancel_left heq)) (Nat.ne_of_gt hn)
        | some found =>
            rcases found with ⟨id, old⟩
            have hid : (g.openRecord env now opener req).1.sessionId = id := by
              unfold DebugSessionRegistry.openRecord DebugSessionRegistry.start
              rw [hexisting]
              rfl
            rw [hid]
            have hlive : g.book.live.lookup id = some old.pauseEntry := by
              rw [book_live, lookup_of_existing hexisting, Option.map_some]
            rcases hopens caller opener req _ rfl rfl id old hexisting with ⟨hdropped, htaken⟩
            exact ha.putOver opener hlive hdropped htaken

theorem accounts_pollVerdict (ha : PauseAccounts requestId log g.book) (caller id : Text) :
    PauseAccounts requestId (log.observe ((DebugCall.pollVerdict caller id).entry env now g))
      ((DebugCall.pollVerdict caller id).exec env now g).2.book := by
  unfold DebugCall.entry PauseLog.observe
  simp only [DebugCall.exec, DebugSessionRegistry.pollVerdict]
  cases howned : g.ownedSession id caller with
  | false => exact ha
  | true =>
      rcases owned_iff.mp howned with ⟨r, hr, _⟩
      have htake := book_take now hr
      simp only [Bool.not_true, Bool.false_eq_true, if_false]
      simp only [DebugSessionRegistry.takeVerdict, hr] at htake ⊢
      rw [htake]
      cases r.pendingVerdict.isSome with
      | true => exact ha.bank now id
      | false => exact ha

theorem accounts_closeSession (ha : PauseAccounts requestId log g.book) (caller id : Text)
    (state : SessionState) :
    PauseAccounts requestId
      (log.observe ((DebugCall.closeSession caller id state).entry env now g))
      ((DebugCall.closeSession caller id state).exec env now g).2.book := by
  unfold DebugCall.entry PauseLog.observe
  simp only [DebugCall.exec, DebugSessionRegistry.closeSession]
  cases howned : g.ownedSession id caller with
  | false => exact ha
  | true =>
      rcases owned_iff.mp howned with ⟨r, hr, _⟩
      simp only [Bool.not_true, Bool.false_eq_true, if_false]
      have hbanked := ha.bank now id
      rcases book_close state now hr with hbook | hbook
      · rw [hbook]
        exact hbanked
      · rw [hbook]
        exact hbanked.retire id fun e he => bank_idle he

theorem accounts_sweep (ha : PauseAccounts requestId log g.book) {activeRequests : List Int}
    (hactive : requestId ∈ activeRequests) :
    PauseAccounts requestId
      (log.observe ((DebugCall.sweepAbandoned activeRequests).entry env now g))
      ((DebugCall.sweepAbandoned activeRequests).exec env now g).2.book := by
  have hswept := ha.sweep now (g.sweepAbandoned now activeRequests).1
  rcases book_sweep now activeRequests g with ⟨hlive, hretired⟩
  refine ⟨fun sid => ?_, ?_⟩
  · have hrunning := hswept.running sid
    rw [← hlive] at hrunning
    exact hrunning
  · have hbanked := hswept.banked
    rw [PauseBook.bankedOf, ← hlive, ← hretired requestId hactive] at hbanked
    exact hbanked

/-- What a call keeps of the accounts. -/
theorem accounts_exec (hmint : Function.Injective env.uuid) (hrun : DebugRun env h g)
    (ha : PauseAccounts requestId log g.book) {call : DebugCall}
    (hcredits : (call.entry env now g).Credits requestId) :
    PauseAccounts requestId (log.observe (call.entry env now g)) (call.exec env now g).2.book := by
  -- a call on a session is looked up by its reference first, which changes nothing
  cases call with
  | openSession caller active req =>
    exact accounts_openSession hmint hrun ha caller active req hcredits
  | acquireLease reference req =>
      have hbook : ((DebugCall.acquireLease reference req).exec env now g).2.book = g.book := by
        rcases onResolved_registry (g := g) reference fun id =>
          ((g.acquireControllerLease env id req).1.map .leased,
            (g.acquireControllerLease env id req).2) with hsame | ⟨id, _, hid⟩
        · exact congrArg _ hsame
        · exact (congrArg _ hid).trans (book_acquire id req)
      rw [hbook]
      exact ha
  | releaseLease reference leaseId =>
      have hbook : ((DebugCall.releaseLease reference leaseId).exec env now g).2.book = g.book := by
        rcases onResolved_registry (g := g) reference fun id =>
          ((g.releaseControllerLease id leaseId).1.map fun _ => .released,
            (g.releaseControllerLease id leaseId).2) with hsame | ⟨id, _, hid⟩
        · exact congrArg _ hsame
        · exact (congrArg _ hid).trans (book_release id leaseId)
      rw [hbook]
      exact ha
  | sessionOperation reference req =>
      have hbook : ((DebugCall.sessionOperation reference req).exec env now g).2.book = g.book := by
        rcases onResolved_registry (g := g) reference fun id =>
          ((g.sessionOperation now id req).1.map .operated,
            (g.sessionOperation now id req).2) with hsame | ⟨id, _, hid⟩
        · exact congrArg _ hsame
        · exact (congrArg _ hid).trans (book_operation now id req)
      rw [hbook]
      exact ha
  | pollVerdict caller id => exact accounts_pollVerdict ha caller id
  | closeSession caller id state => exact accounts_closeSession ha caller id state
  | sweepAbandoned activeRequests =>
      exact accounts_sweep ha (hcredits.sweeps activeRequests rfl)
  -- no run is removed in such a history
  | removeForRun runId => exact absurd rfl (hcredits.keeps runId)

/-- The accounts of a history. -/
theorem accounts_run (hmint : Function.Injective env.uuid) (hrun : DebugRun env h g)
    (hcredited : CreditedHistory requestId h) :
    PauseAccounts requestId (PauseLog.ofHistory h) g.book := by
  induction hrun with
  | init => exact ⟨fun _ => rfl, rfl⟩
  | @step h g now call hrun ih =>
      have hrest := ih fun e he => hcredited e (List.mem_cons_of_mem _ he)
      exact accounts_exec hmint hrun hrest (hcredited _ List.mem_cons_self)

/-! ## Credit -/

/-- The running time and the whole seconds of the pauses that have ended. -/
def PauseLog.counted (requestId : Int) (now : Nat) (log : PauseLog) : Nat :=
  log.runningTime requestId now + log.wholeSeconds requestId * 10 ^ 9

/-- How many pauses of a request have ended. -/
def PauseLog.count (requestId : Int) (log : PauseLog) : Nat := (log.lengths requestId).length

/-- The credit is what counts of the pauses, under the ceiling. -/
theorem PauseAccounts.credit (ha : PauseAccounts requestId log g.book) (now : Nat) :
    g.pausedForRequest requestId now =
      min (log.counted requestId now) (maxPauseCredit * 10 ^ 9) := by
  have hmap : log.running = g.book.live.filterMap fun _ e => e.pause := by
    refine SortedMap.ext_lookup fun sid => ?_
    rw [ha.running, SortedMap.lookup_filterMap]
  have hrunning : log.runningTime requestId now = g.book.live.sum fun _ e =>
      if e.requestId = requestId then (e.since.map fun since => now - since).getD 0 else 0 := by
    unfold PauseLog.runningTime
    rw [hmap, SortedMap.sum_filterMap]
    refine congrArg _ (funext fun _ => funext fun e => ?_)
    unfold PauseEntry.pause
    cases e.since with
    | none => exact (ite_self 0).symm
    | some since => rfl
  have hbanked := ha.banked
  rw [pausedForRequest_eq, ← hrunning]
  unfold PauseLog.counted
  unfold maxPauseCredit at *
  omega

theorem counted_mono (requestId : Int) (log : PauseLog) {now' : Nat} (hle : now ≤ now') :
    log.counted requestId now ≤ log.counted requestId now' :=
  Nat.add_le_add_right (PauseLog.runningTime_mono hle) _

/-- A pause that ends loses less than a second. -/
theorem counted_finish (requestId : Int) {t : Nat} (hle : t ≤ now) (log : PauseLog) (sid : Text) :
    log.counted requestId t + log.count requestId * 10 ^ 9 ≤
      (log.finish now sid).counted requestId t + (log.finish now sid).count requestId * 10 ^ 9 ∧
    log.count requestId ≤ (log.finish now sid).count requestId := by
  unfold PauseLog.finish
  cases hrun : log.running.lookup sid with
  | none => exact ⟨Nat.le_refl _, Nat.le_refl _⟩
  | some p =>
      rcases p with ⟨r, since⟩
      unfold PauseLog.counted PauseLog.count PauseLog.wholeSeconds PauseLog.runningTime
      rw [SortedMap.sum_of_lookup hrun]
      dsimp only
      rw [PauseLog.lengths_cons]
      have hone : ∀ rest whole n : Nat, (t - since) + rest + whole * 10 ^ 9 + n * 10 ^ 9 ≤
          rest + ((now - since) / 10 ^ 9 + whole) * 10 ^ 9 + (n + 1) * 10 ^ 9 := by omega
      by_cases hr : r = requestId
      · rw [if_pos hr, if_pos hr, List.map_cons, List.sum_cons, List.length_cons]
        exact ⟨hone _ _ _, Nat.le_succ _⟩
      · rw [if_neg hr, if_neg hr, Nat.zero_add]
        exact ⟨Nat.le_refl _, Nat.le_refl _⟩

theorem counted_observe (requestId : Int) {t : Nat} {e : DebugEntry} (hle : t ≤ e.now)
    (log : PauseLog) :
    log.counted requestId t + log.count requestId * 10 ^ 9 ≤
      (log.observe e).counted requestId t + (log.observe e).count requestId * 10 ^ 9 ∧
    log.count requestId ≤ (log.observe e).count requestId := by
  -- finishing pauses one after the other, by induction on the sessions
  have hfold : ∀ (ids : List Text) (log : PauseLog),
      log.counted requestId t + log.count requestId * 10 ^ 9 ≤
        (ids.foldl (PauseLog.finish e.now) log).counted requestId t +
          (ids.foldl (PauseLog.finish e.now) log).count requestId * 10 ^ 9 ∧
      log.count requestId ≤ (ids.foldl (PauseLog.finish e.now) log).count requestId := by
    intro ids
    induction ids with
    | nil => exact fun _ => ⟨Nat.le_refl _, Nat.le_refl _⟩
    | cons id ids ih =>
        intro log
        rw [List.foldl_cons]
        have hone := counted_finish requestId hle log id
        have hrest := ih (log.finish e.now id)
        exact ⟨hone.1.trans hrest.1, hone.2.trans hrest.2⟩
  -- a pause that begins ends the one before it, and runs for no time yet
  have hbegin : ∀ (sid : Text) (opener : Int),
      log.counted requestId t + log.count requestId * 10 ^ 9 ≤
        (log.begin e.now sid opener).counted requestId t +
          (log.begin e.now sid opener).count requestId * 10 ^ 9 ∧
      log.count requestId ≤ (log.begin e.now sid opener).count requestId := by
    intro sid opener
    have hone := counted_finish requestId hle log sid
    refine ⟨hone.1.trans ?_, hone.2⟩
    have hnone : (log.finish e.now sid).running.lookup sid = none := by
      rw [finish_running, if_pos rfl]
    refine Nat.add_le_add_right (Nat.add_le_add_right ?_ _) _
    unfold PauseLog.begin PauseLog.runningTime
    rw [SortedMap.sum_insert, SortedMap.erase_of_lookup hnone]
    exact Nat.le_add_left _ _
  unfold PauseLog.observe
  split
  · exact hbegin _ _
  · split
    · exact counted_finish requestId hle log _
    · exact ⟨Nat.le_refl _, Nat.le_refl _⟩
  · exact counted_finish requestId hle log _
  · exact hfold _ log
  · exact ⟨Nat.le_refl _, Nat.le_refl _⟩

/-- The call of a split of a history was made after what came before it. -/
theorem run_of_split (hrun : DebugRun env h g) :
    ∀ later e earlier, h = later ++ e :: earlier → DebugRun env earlier e.before ∧
      DebugRun env (e :: earlier) e.after := by
  induction hrun with
  | init => exact fun later e earlier hsplit => by simp at hsplit
  | @step h g now call hrun ih =>
      intro later e earlier hsplit
      cases later with
      | nil =>
          rcases List.cons.inj hsplit with ⟨rfl, rfl⟩
          exact ⟨hrun, hrun.step now call⟩
      | cons _ later => exact ih later e earlier (List.cons.inj hsplit).2

/-- In a history that takes nothing from a request and gives it nothing, its credit is the
    time it was paused, short of at most a second for every pause that has ended, and
    bounded by the ceiling. The credit grows with time, and no call decreases it, but for
    the second that is cut off when a pause ends. -/
theorem credit_exact (hmint : Function.Injective env.uuid) (hrun : DebugRun env h g)
    (hcredited : CreditedHistory requestId h) :
    (∀ now, g.pausedForRequest requestId now ≤
        min ((PauseLog.ofHistory h).pausedTime requestId now) (maxPauseCredit * 10 ^ 9) ∧
      min ((PauseLog.ofHistory h).pausedTime requestId now) (maxPauseCredit * 10 ^ 9) ≤
        g.pausedForRequest requestId now + (PauseLog.ofHistory h).count requestId * 10 ^ 9) ∧
    (∀ now now', now ≤ now' →
      g.pausedForRequest requestId now ≤ g.pausedForRequest requestId now') ∧
    ∀ later e earlier, h = later ++ e :: earlier → ∀ now now', now ≤ e.now → e.now ≤ now' →
      e.before.pausedForRequest requestId now +
          (PauseLog.ofHistory earlier).count requestId * 10 ^ 9 ≤
        e.after.pausedForRequest requestId now' +
          (PauseLog.ofHistory (e :: earlier)).count requestId * 10 ^ 9 := by
  have haccounts := accounts_run hmint hrun hcredited
  refine ⟨fun now => ?_, fun now now' hle => ?_, fun later e earlier hsplit now now' hle hle' => ?_⟩
  -- the whole seconds are short of the time by less than a second for each pause
  · rw [haccounts.credit]
    unfold PauseLog.counted PauseLog.pausedTime PauseLog.wholeSeconds PauseLog.count
    have hbounds := PauseLog.wholeSeconds_bounds ((PauseLog.ofHistory h).lengths requestId)
    revert hbounds
    generalize (((PauseLog.ofHistory h).lengths requestId).map (· / 10 ^ 9)).sum = whole
    generalize ((PauseLog.ofHistory h).lengths requestId).sum = total
    omega
  -- the time only grows
  · rw [haccounts.credit, haccounts.credit]
    exact min_le_min_right _ (counted_mono _ _ hle)
  -- the run is cut at the call, and the accounts hold on both sides of it
  · rcases run_of_split hrun later e earlier hsplit with ⟨hbefore, hafter⟩
    have hmem : ∀ e' ∈ e :: earlier, e'.Credits requestId := by
      intro e' he'
      exact hcredited e' (hsplit ▸ List.mem_append_right later he')
    have hb := accounts_run hmint hbefore fun e' he' => hmem e' (List.mem_cons_of_mem e he')
    have ha := accounts_run hmint hafter hmem
    rw [hb.credit, ha.credit]
    have hstep := counted_observe requestId hle (PauseLog.ofHistory earlier)
    have htime := counted_mono requestId (PauseLog.ofHistory (e :: earlier)) (hle.trans hle')
    have hlog : PauseLog.ofHistory (e :: earlier) = (PauseLog.ofHistory earlier).observe e := rfl
    rw [hlog] at htime ⊢
    omega

end Calls

/-! ## Two histories -/

/-- A test for calls that take nothing from a request and give it nothing. -/
def DebugEntry.credits (requestId : Int) (e : DebugEntry) : Bool :=
  match e.call with
  | .removeForRun _ => false
  | .sweepAbandoned activeRequests => activeRequests.contains requestId
  | .openSession _ (some opener) req =>
    (e.before.existing req.runId req.jobId).all fun found =>
      found.2.requestId = opener && found.2.pausedSince.all fun since => e.now - since < 10 ^ 9
  | _ => true

theorem credits_of_test {requestId : Int} {e : DebugEntry} (htest : e.credits requestId = true) :
    e.Credits requestId := by
  unfold DebugEntry.credits at htest
  refine ⟨fun runId hcall => ?_, fun activeRequests hcall => ?_,
    fun caller opener req session hcall _ id r hr => ?_⟩
  · rw [hcall] at htest
    cases htest
  · rw [hcall] at htest
    exact List.contains_iff_mem.mp htest
  · simp only [hcall, hr, Option.all_some, Bool.and_eq_true, decide_eq_true_eq] at htest
    refine ⟨fun _ since hsince => ?_, fun hother => absurd htest.1 hother⟩
    rw [hsince, Option.all_some, decide_eq_true_eq] at htest
    exact htest.2

/-- Two pauses of a request, one of them retried: the credit is what they lasted. -/
theorem credit_exact_of_twoJobs :
    (debugHistory .unary twoJobs.reverse).2.pausedForRequest 1 (6 * 10 ^ 9) ≤
      min ((PauseLog.ofHistory (debugHistory .unary twoJobs.reverse).1).pausedTime 1 (6 * 10 ^ 9))
        (maxPauseCredit * 10 ^ 9) ∧
    min ((PauseLog.ofHistory (debugHistory .unary twoJobs.reverse).1).pausedTime 1 (6 * 10 ^ 9))
        (maxPauseCredit * 10 ^ 9) ≤
      (debugHistory .unary twoJobs.reverse).2.pausedForRequest 1 (6 * 10 ^ 9) +
        (PauseLog.ofHistory (debugHistory .unary twoJobs.reverse).1).count 1 * 10 ^ 9 := by
  have hall : ((debugHistory .unary twoJobs.reverse).1.all (DebugEntry.credits 1)) = true := by
    decide
  exact (credit_exact DebugEnv.unary_uuid (run_debugHistory .unary twoJobs.reverse)
    fun e he => credits_of_test (List.all_eq_true.mp hall e he)).1 (6 * 10 ^ 9)

/-- A worker that polls for three seconds without a verdict and opens its session again. -/
def reopened : List DebugCall :=
  [legOpens "a".toList "build".toList, .pollVerdict "a".toList "dbg_".toList,
    .pollVerdict "a".toList "dbg_".toList, legOpens "a".toList "build".toList]

/-- A session that is opened again forgets how long it was paused. -/
theorem reopen_drops_interval : ¬ ∀ h g, DebugRun .unary h g → ∀ now,
    min ((PauseLog.ofHistory h).pausedTime 1 now) (maxPauseCredit * 10 ^ 9) ≤
      g.pausedForRequest 1 now + (PauseLog.ofHistory h).count 1 * 10 ^ 9 := by
  intro hall
  have hcredit := hall _ _ (run_debugHistory .unary reopened.reverse) (3 * 10 ^ 9)
  revert hcredit
  decide

end Preloop
