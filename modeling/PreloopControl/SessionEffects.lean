import PreloopControl.DebugSessions
import PreloopControl.Lib.Fallible

/-!
# Effects on a Debug Session

Seen from one session id, a request opens, applies an operation, delivers a
verdict or closes; everything else leaves version, owner, pending verdict and
completed requests of the session alone, or takes the session out. `moves_exec`
says so for every request, and the properties of a history are proved from it and
never from the handlers.

An open, an operation and a sweep may touch several sessions at once. Looked at from one id, each
of them still is one of the few moves, so that a history is an induction with one case for each
move.

## Main definitions

* `DebugRun`: The histories of the registry.
* `SessionEffect`, `DebugEntry.effect`: What a request did to one session.
* `SessionEffect.Moves`: The record of a session before and after.

## Theorems

* `openRecord_cases`, `sessionOperation_cases`: What an open and an operation do.
* `moves_exec`: What a request does to the record of a session.
* `minted_le_exec`: Ids are never unminted.
-/

namespace Preloop

/-! ## Histories -/

/-- A request with the registry it met, the reply and the registry it left. -/
structure DebugEntry where
  now : Nat
  call : DebugCall
  before : DebugSessionRegistry
  reply : DebugReply
  after : DebugSessionRegistry

/-- The entry of a request. -/
def DebugCall.entry (env : DebugEnv) (now : Nat) (call : DebugCall) (g : DebugSessionRegistry) :
    DebugEntry where
  now := now
  call := call
  before := g
  reply := (call.exec env now g).1
  after := (call.exec env now g).2

/-- The histories of the registry, latest request first. -/
inductive DebugRun (env : DebugEnv) : List DebugEntry → DebugSessionRegistry → Prop
  | init : DebugRun env [] .init
  | step {h : List DebugEntry} {g : DebugSessionRegistry} (now : Nat) (call : DebugCall) :
    DebugRun env h g → DebugRun env (call.entry env now g :: h) (call.exec env now g).2

/-- What a request did to one session. -/
inductive SessionEffect
  | untouched
  | opened (agentJob : Text) (version : Nat)
  | applied (owner requestId : Text) (verdict : Verdict) (version : Nat)
  | delivered (caller : Text) (verdict : Verdict)
  | closed (version : Nat)
deriving DecidableEq, Repr

namespace SessionEffect

/-- The version it wrote. -/
def version : SessionEffect → Option Nat
  | opened _ version | applied _ _ _ version | closed version => some version
  | untouched | delivered _ _ => none

/-- The request it applied. -/
def request : SessionEffect → Option Text
  | applied _ requestId _ _ => some requestId
  | untouched | opened _ _ | delivered _ _ | closed _ => none

/-- It leaves a pending verdict where it is. -/
def passive : SessionEffect → Bool
  | untouched | closed _ => true
  | opened _ _ | applied _ _ _ _ | delivered _ _ => false

end SessionEffect

/-- The effect on the session `sid`. An operation is applied when it moves the version of the
    session; one that repeats an earlier reply does not. -/
def DebugEntry.effect (sid : Text) (e : DebugEntry) : SessionEffect :=
  match e.call, e.reply with
  | .openSession caller _ _, .opened session =>
    if session.sessionId = sid then .opened caller session.version else .untouched
  | .sessionOperation _ req, .operated _ =>
    match e.before.sessions.lookup sid, e.after.sessions.lookup sid with
    | some record, some moved =>
      if moved.session.version = record.session.version then .untouched
      else
        .applied record.agentJobId req.requestId req.operation.verdict moved.session.version
    | _, _ => .untouched
  | .pollVerdict caller sessionId, .polled response =>
    match response.verdict with
    | some verdict => if sessionId = sid then .delivered caller verdict else .untouched
    | none => .untouched
  | .closeSession _ sessionId state, .closed =>
    match e.before.sessions.lookup sid with
    | some record =>
      if sessionId = sid then
        .closed (DebugSessionRegistry.closedRecord state e.now record).session.version
      else .untouched
    | none => .untouched
  | _, _ => .untouched

/-- What happened to the session `sid`, latest first. -/
def effects (sid : Text) (h : List DebugEntry) : List SessionEffect :=
  h.map (DebugEntry.effect sid)

/-! ## One request -/

/-- Version, owner, pending verdict and completed requests are the same. -/
structure SessionRecord.Agrees (r r' : SessionRecord) : Prop where
  version : r'.session.version = r.session.version
  owner : r'.agentJobId = r.agentJobId
  pending : r'.pendingVerdict = r.pendingVerdict
  completed : r'.completedOps = r.completedOps

/-- The record of a session before and after a request with an effect on it; `new`
    says that the request minted its id. -/
def SessionEffect.Moves (new : Prop) (b a : Option SessionRecord) : SessionEffect → Prop
  | .untouched => a = none ∨ ∃ r r', b = some r ∧ a = some r' ∧ r.Agrees r'
  | .opened agentJob v => ∃ r', a = some r' ∧ r'.agentJobId = agentJob ∧
      r'.pendingVerdict = none ∧ r'.session.version = v ∧
      ((new ∧ v = 1) ∨
        ∃ r, b = some r ∧ v = nextU64 r.session.version ∧ r'.completedOps = r.completedOps)
  | .applied owner requestId verdict v => ∃ r r', b = some r ∧ a = some r' ∧
      r.agentJobId = owner ∧ r'.agentJobId = owner ∧ r.completedOps.lookup requestId = none ∧
      v = nextU64 r.session.version ∧ r'.session.version = v ∧ r'.pendingVerdict = some verdict
  | .delivered caller verdict => ∃ r r', b = some r ∧ a = some r' ∧
      r.agentJobId = caller ∧ r.pendingVerdict = some verdict ∧ r'.pendingVerdict = none ∧
      r'.session.version = r.session.version ∧ r'.completedOps = r.completedOps
  | .closed v => ∃ r, b = some r ∧ v = nextU64 r.session.version ∧
      (a = none ∨ ∃ r', a = some r' ∧ r'.session.version = v ∧ r'.agentJobId = r.agentJobId ∧
        r'.pendingVerdict = r.pendingVerdict ∧ r'.completedOps = r.completedOps)

section Step

variable {env : DebugEnv} {g : DebugSessionRegistry}

/-- The next session id. -/
def newSessionId (env : DebugEnv) (g : DebugSessionRegistry) : Text :=
  "dbg_".toList ++ env.uuid g.minted

/-- The request minted the id. -/
def NewSession (env : DebugEnv) (now : Nat) (call : DebugCall) (g : DebugSessionRegistry)
    (sid : Text) : Prop :=
  sid = newSessionId env g ∧ g.minted < (call.exec env now g).2.minted

theorem DebugCall.entry_of {now : Nat} {call : DebugCall} {reply : DebugReply}
    {g' : DebugSessionRegistry} (h : call.exec env now g = (reply, g')) :
    call.entry env now g = ⟨now, call, g, reply, g'⟩ := by
  unfold DebugCall.entry
  rw [h]

theorem SessionRecord.Agrees.refl (r : SessionRecord) : r.Agrees r := ⟨rfl, rfl, rfl, rfl⟩

theorem SessionRecord.Agrees.pushEvent {r r' : SessionRecord} (event : Text)
    (step : Option FailedStep) (message : Option Text) (h : r.Agrees r') :
    r.Agrees (r'.pushEvent event step message) := by
  unfold SessionRecord.pushEvent
  exact ⟨h.version, h.owner, h.pending, h.completed⟩

/-- A session that stays as it is. -/
theorem moves_same (new : Prop) (b : Option SessionRecord) :
    SessionEffect.untouched.Moves new b b := by
  cases b with
  | none => exact .inl rfl
  | some r => exact .inr ⟨r, r, rfl, rfl, .refl r⟩

theorem bankPaused_agrees (now : Nat) (r : SessionRecord) : r.Agrees (r.bankPaused now) := by
  unfold SessionRecord.bankPaused
  cases r.pausedSince with
  | none => exact .refl r
  | some since => exact ⟨rfl, rfl, rfl, rfl⟩

@[simp] theorem retire_sessions (id : Text) (r : SessionRecord) (g : DebugSessionRegistry) :
    (DebugSessionRegistry.retire id r g).sessions = g.sessions := by
  unfold DebugSessionRegistry.retire DebugSessionRegistry.evictArchives
    DebugSessionRegistry.bankCredit
  split
  · rfl
  · rfl

/-- An update of one session. -/
theorem lookup_insert_session (m : SortedMap Text SessionRecord) (id : Text) (r : SessionRecord)
    (sid : Text) : (m.insert id r).lookup sid = if id = sid then some r else m.lookup sid := by
  rw [SortedMap.lookup_insert]
  by_cases h : id = sid
  · rw [if_pos h, if_pos h]
  · rw [if_neg h, if_neg h]

theorem lookup_erase_session (m : SortedMap Text SessionRecord) (id sid : Text) :
    (m.erase id).lookup sid = if id = sid then none else m.lookup sid := by
  rw [SortedMap.lookup_erase]
  by_cases h : id = sid
  · rw [if_pos h, if_pos h]
  · rw [if_neg h, if_neg h]

/-- An update that leaves what counts alone. -/
theorem moves_insert {new : Prop} {id : Text} {r r' : SessionRecord}
    (hr : g.sessions.lookup id = some r) (hagrees : r.Agrees r') (sid : Text) :
    SessionEffect.untouched.Moves new (g.sessions.lookup sid)
      ((g.sessions.insert id r').lookup sid) := by
  rw [lookup_insert_session]
  by_cases hid : id = sid
  · subst hid
    rw [if_pos rfl]
    exact .inr ⟨r, r', hr, rfl, hagrees⟩
  · rw [if_neg hid]
    exact moves_same new _

/-! ## Opens -/

/-- The session an open replaces is there. -/
theorem lookup_of_existing {runId jobId id : Text} {r : SessionRecord}
    (h : g.existing runId jobId = some (id, r)) : g.sessions.lookup id = some r :=
  SortedMap.lookup_of_mem (List.mem_of_find?_eq_some h)

/-- An open writes one session: a new one, or the one found for the run and job. -/
theorem openRecord_cases (env : DebugEnv) (now : Nat) (requestId : Int)
    (req : OpenSessionRequest) (g : DebugSessionRegistry) :
    ∃ id r', (g.openRecord env now requestId req).1.sessionId = id ∧
      (g.openRecord env now requestId req).1.version = r'.session.version ∧
      r'.agentJobId = req.agentJobId ∧ r'.pendingVerdict = none ∧
      (∀ sid, (g.openRecord env now requestId req).2.sessions.lookup sid =
        if id = sid then some r' else g.sessions.lookup sid) ∧
      ((g.existing req.runId req.jobId = none ∧ id = newSessionId env g ∧
          r'.session.version = 1 ∧
          (g.openRecord env now requestId req).2.minted = g.minted + 1) ∨
        ∃ r, g.existing req.runId req.jobId = some (id, r) ∧
          r'.session.version = nextU64 r.session.version ∧ r'.completedOps = r.completedOps ∧
          (g.openRecord env now requestId req).2.minted = g.minted) := by
  unfold DebugSessionRegistry.openRecord DebugSessionRegistry.start
  cases hexisting : g.existing req.runId req.jobId with
  -- there is no session for the run and job, so a new one is made
  | none =>
      exact ⟨_, DebugSessionRegistry.openedRecord now requestId req
          ⟨newSessionId env g, 1, 0, "original".toList, none, [], [], ∅⟩,
        rfl, rfl, rfl, rfl, fun sid => lookup_insert_session _ _ _ _,
        .inl ⟨rfl, rfl, rfl, rfl⟩⟩
  | some found =>
      rcases found with ⟨id, old⟩
      refine ⟨id, DebugSessionRegistry.openedRecord now requestId req
          ⟨id, nextU64 old.session.version, old.session.pausedSeconds,
            old.session.sourceRevision, old.controllerLease, old.sessionEvents,
            old.sessionAudit, old.completedOps⟩,
        rfl, rfl, rfl, rfl, fun sid => ?_, .inr ⟨old, rfl, rfl, rfl, rfl⟩⟩
      -- the old session is taken out and put back under its own id
      show ((g.sessions.erase id).insert id _).lookup sid = _
      rw [lookup_insert_session, lookup_erase_session]
      by_cases hid : id = sid
      · rw [if_pos hid, if_pos hid]
      · rw [if_neg hid, if_neg hid, if_neg hid]

theorem moves_openSession (now : Nat) (caller : Text) (active : Option Int)
    (req : OpenSessionRequest) (sid : Text) :
    (((DebugCall.openSession caller active req).entry env now g).effect sid).Moves
      (NewSession env now (.openSession caller active req) g sid) (g.sessions.lookup sid)
      (((DebugCall.openSession caller active req).exec env now g).2.sessions.lookup sid) := by
  -- a job opens sessions for itself only
  by_cases hcaller : caller ≠ req.agentJobId
  · have hexec : (DebugCall.openSession caller active req).exec env now g =
        (.refused (.forbidden "a job may only open a debug session for itself".toList), g) := by
      simp only [DebugCall.exec, DebugSessionRegistry.openSession, if_pos hcaller]
    rw [DebugCall.entry_of hexec, hexec]
    exact moves_same _ _
  cases active with
  | none =>
      have hexec : (DebugCall.openSession caller none req).exec env now g = _ := if_neg hcaller
      rw [DebugCall.entry_of hexec, hexec]
      exact moves_same _ _
  | some requestId =>
      have hexec : (DebugCall.openSession caller (some requestId) req).exec env now g =
          (.opened (g.openRecord env now requestId req).1,
            (g.openRecord env now requestId req).2) := if_neg hcaller
      obtain ⟨id, r', hid, hversion, howner, hpending, hlookup, hfrom⟩ :=
        openRecord_cases env now requestId req g
      rw [DebugCall.entry_of hexec, hexec, hlookup]
      unfold DebugEntry.effect
      simp only [hid]
      by_cases hsid : id = sid
      · rw [if_pos hsid, if_pos hsid]
        -- the session is the one found, or it has the id that was just minted
        refine ⟨r', rfl, howner.trans (not_not.mp hcaller).symm, hpending, hversion.symm, ?_⟩
        rcases hfrom with ⟨_, hnew, hone, hminted⟩ | ⟨r, hr, hnext, hops, _⟩
        · refine .inl ⟨⟨hsid.symm.trans hnew, ?_⟩, hversion.trans hone⟩
          rw [hexec, hminted]
          exact Nat.lt_succ_self _
        · exact .inr ⟨r, hsid ▸ lookup_of_existing hr, hversion.trans hnext, hops⟩
      · rw [if_neg hsid, if_neg hsid]
        exact moves_same _ _

/-! ## Agents -/

/-- Where no session answers to the reference, nothing happens. -/
theorem onResolved_none {reference : Text} (h : g.resolve reference = none)
    (f : Text → Except Text DebugReply × DebugSessionRegistry) :
    g.onResolved reference f =
      (.refused (.notFound ("no session matching: ".toList ++ reference)), g) := by
  unfold DebugSessionRegistry.onResolved
  rw [h]

theorem onResolved_error {reference id message : Text} {g' : DebugSessionRegistry}
    {f : Text → Except Text DebugReply × DebugSessionRegistry}
    (h : g.resolve reference = some id) (hf : f id = (.error message, g')) :
    g.onResolved reference f = (.refused (.badRequest message), g') := by
  unfold DebugSessionRegistry.onResolved
  simp only [h, hf]

theorem onResolved_ok {reference id : Text} {reply : DebugReply} {g' : DebugSessionRegistry}
    {f : Text → Except Text DebugReply × DebugSessionRegistry}
    (h : g.resolve reference = some id) (hf : f id = (.ok reply, g')) :
    g.onResolved reference f = (reply, g') := by
  unfold DebugSessionRegistry.onResolved
  simp only [h, hf]

/-- A request of an agent ends where it was refused, or where it acts on the
    session. -/
theorem onResolved_registry (reference : Text)
    (f : Text → Except Text DebugReply × DebugSessionRegistry) :
    (g.onResolved reference f).2 = g ∨
      ∃ id, g.resolve reference = some id ∧ (g.onResolved reference f).2 = (f id).2 := by
  cases hid : g.resolve reference with
  | none => exact .inl (by rw [onResolved_none hid])
  | some id =>
      refine .inr ⟨id, rfl, ?_⟩
      rcases hf : f id with ⟨reply, g'⟩
      cases reply with
      | error message => rw [onResolved_error hid hf]
      | ok reply => rw [onResolved_ok hid hf]

theorem moves_acquireLease (new : Prop) (id : Text) (req : SessionLeaseRequest) (sid : Text) :
    SessionEffect.untouched.Moves new (g.sessions.lookup sid)
      ((g.acquireControllerLease env id req).2.sessions.lookup sid) := by
  unfold DebugSessionRegistry.acquireControllerLease
  split
  · exact moves_same _ _
  · split
    · exact moves_same _ _
    · next record hrecord =>
        split
        · split
          · exact moves_same _ _
          · exact moves_same _ _
        · dsimp only
          refine moves_insert hrecord (.pushEvent _ _ _ ?_) sid
          exact ⟨rfl, rfl, rfl, rfl⟩

theorem moves_releaseLease (new : Prop) (id leaseId sid : Text) :
    SessionEffect.untouched.Moves new (g.sessions.lookup sid)
      ((g.releaseControllerLease id leaseId).2.sessions.lookup sid) := by
  unfold DebugSessionRegistry.releaseControllerLease
  split
  · exact moves_same _ _
  · next record hrecord =>
      split
      · exact moves_same _ _
      · dsimp only
        refine moves_insert hrecord (.pushEvent _ _ _ ?_) sid
        exact ⟨rfl, rfl, rfl, rfl⟩

theorem verdict_of_decision {step : FailedStep} {op : SessionOperation} {d : Decision}
    (h : op.decision step = .ok d) : d.verdict = op.verdict := by
  unfold SessionOperation.decision at h
  cases op with
  | retry revert sourceRevision =>
      cases h
      rfl
  | retryFrom stepIndex revert sourceRevision =>
      simp only at h
      split at h
      · cases h
      · split at h
        · cases h
        · cases h
          rfl
  | resume =>
      cases h
      rfl
  | abort =>
      cases h
      rfl

theorem nextU64_ne (n : Nat) : nextU64 n ≠ n := by
  unfold nextU64
  omega

/-- An operation that was accepted named the version of the session. -/
theorem newOperation_ok {now : Nat} {req : SessionOperationRequest} {r r' : SessionRecord}
    {response : SessionOperationResponse} (h : r.newOperation now req = .ok (r', response)) :
    req.expectedVersion = r.session.version ∧ r'.agentJobId = r.agentJobId ∧
      r'.pendingVerdict = some req.operation.verdict ∧
      r'.session.version = nextU64 r.session.version ∧
      response.newVersion = nextU64 r.session.version := by
  unfold SessionRecord.newOperation at h
  cases hlease : r.controllerLease with
  | none =>
      simp only [hlease] at h
      cases h
  | some lease =>
      simp only [hlease] at h
      split at h
      · cases h
      · split at h
        · cases h
        · split at h
          · cases h
          · next hversion =>
              rcases Fallible.bind_eq_ok h with ⟨d, hd, happly⟩
              cases happly
              refine ⟨not_not.mp hversion, rfl, ?_, rfl, rfl⟩
              rw [← verdict_of_decision hd]
              rfl

/-- What a request finds of the session it names. -/
theorem sessionOperation_cases (now : Nat) (id : Text) (req : SessionOperationRequest) :
    (∃ message, g.sessionOperation now id req = (.error message, g)) ∨
    (∃ r previous, g.sessions.lookup id = some r ∧
      r.completedOps.lookup req.requestId = some previous ∧
      g.sessionOperation now id req = (.ok previous, g)) ∨
    ∃ r r' response, g.sessions.lookup id = some r ∧
      r.completedOps.lookup req.requestId = none ∧
      r.newOperation now req = .ok (r', response) ∧
      g.sessionOperation now id req =
        (.ok response, { g with sessions := g.sessions.insert id r' }) := by
  unfold DebugSessionRegistry.sessionOperation
  split
  · exact .inl ⟨_, rfl⟩
  · cases hr : g.sessions.lookup id with
    | none => exact .inl ⟨_, rfl⟩
    | some r =>
        simp only
        cases hops : r.completedOps.lookup req.requestId with
        | some previous => exact .inr (.inl ⟨r, previous, rfl, hops, rfl⟩)
        | none =>
            simp only
            rcases hnew : r.newOperation now req with message | ⟨r', response⟩
            · exact .inl ⟨_, rfl⟩
            · exact .inr (.inr ⟨r, r', response, rfl, hops, hnew, rfl⟩)

theorem moves_sessionOperation (now : Nat) (reference : Text) (req : SessionOperationRequest)
    (sid : Text) :
    (((DebugCall.sessionOperation reference req).entry env now g).effect sid).Moves
      (NewSession env now (.sessionOperation reference req) g sid) (g.sessions.lookup sid)
      (((DebugCall.sessionOperation reference req).exec env now g).2.sessions.lookup sid) := by
  cases hid : g.resolve reference with
  | none =>
      have hexec : (DebugCall.sessionOperation reference req).exec env now g = _ :=
        onResolved_none hid _
      rw [DebugCall.entry_of hexec, hexec]
      exact moves_same _ _
  | some id =>
      rcases sessionOperation_cases (g := g) now id req with
        ⟨message, heq⟩ | ⟨r, previous, hr, hops, heq⟩ | ⟨r, r', response, hr, hops, hnew, heq⟩
      · have hexec : (DebugCall.sessionOperation reference req).exec env now g = _ :=
          onResolved_error hid (by simp only [heq]; rfl)
        rw [DebugCall.entry_of hexec, hexec]
        exact moves_same _ _
      · have hexec : (DebugCall.sessionOperation reference req).exec env now g = _ :=
          onResolved_ok hid (by simp only [heq]; rfl)
        rw [DebugCall.entry_of hexec, hexec]
        unfold DebugEntry.effect
        -- The reply repeats an earlier one, so nothing was applied.
        cases hsid : g.sessions.lookup sid with
        | none => exact .inl rfl
        | some record =>
            simp only [if_true]
            exact moves_same _ _
      · rcases newOperation_ok hnew with ⟨_, howner, hpending, hversion, hresponse⟩
        have hexec : (DebugCall.sessionOperation reference req).exec env now g = _ :=
          onResolved_ok hid (by simp only [heq]; rfl)
        rw [DebugCall.entry_of hexec, hexec]
        unfold DebugEntry.effect
        simp only [lookup_insert_session]
        by_cases hsid : id = sid
        · subst hsid
          have hmoved : r'.session.version ≠ r.session.version := by
            rw [hversion]
            exact nextU64_ne _
          simp only [hr, if_true, if_neg hmoved]
          exact ⟨r, r', rfl, rfl, rfl, howner, hops, hversion, rfl, hpending⟩
        · simp only [if_neg hsid]
          cases hother : g.sessions.lookup sid with
          | none => exact moves_same _ _
          | some record =>
              simp only [if_true]
              exact moves_same _ _

/-! ## Workers -/

theorem owned_iff {id caller : Text} :
    g.ownedSession id caller = true ↔
      ∃ r, g.sessions.lookup id = some r ∧ r.agentJobId = caller := by
  unfold DebugSessionRegistry.ownedSession DebugSessionRegistry.owner
  rw [decide_eq_true_eq, Option.map_eq_some_iff]

theorem taken_fields (now : Nat) (r : SessionRecord) :
    (r.taken now).session.version = r.session.version ∧
      (r.taken now).agentJobId = r.agentJobId ∧ (r.taken now).pendingVerdict = none ∧
      (r.taken now).completedOps = r.completedOps := by
  unfold SessionRecord.taken
  have hbank := bankPaused_agrees now { r with
    workerSeenAt := now, pendingVerdict := none, pendingRetryFromStep := none }
  split
  · exact ⟨hbank.version, hbank.owner, hbank.pending, hbank.completed⟩
  · exact ⟨rfl, rfl, rfl, rfl⟩

theorem moves_pollVerdict (now : Nat) (caller id sid : Text) :
    (((DebugCall.pollVerdict caller id).entry env now g).effect sid).Moves
      (NewSession env now (.pollVerdict caller id) g sid) (g.sessions.lookup sid)
      (((DebugCall.pollVerdict caller id).exec env now g).2.sessions.lookup sid) := by
  cases howned : g.ownedSession id caller with
  | false =>
      have hexec : (DebugCall.pollVerdict caller id).exec env now g =
          (.refused (.notFound (noSuchSession id)), g) := by
        simp only [DebugCall.exec, DebugSessionRegistry.pollVerdict, howned,
          Bool.not_false, if_true]
      rw [DebugCall.entry_of hexec, hexec]
      exact moves_same _ _
  | true =>
      rcases owned_iff.mp howned with ⟨r, hr, howner⟩
      have hexec : (DebugCall.pollVerdict caller id).exec env now g =
          (.polled ⟨r.pendingVerdict, r.session.version, r.pendingRevert, r.pendingRevision,
              r.pendingRetryFromStep⟩,
            { g with sessions := g.sessions.insert id (r.taken now) }) := by
        simp only [DebugCall.exec, DebugSessionRegistry.pollVerdict, howned, Bool.not_true,
          Bool.false_eq_true, if_false, DebugSessionRegistry.takeVerdict, hr]
      rcases taken_fields now r with ⟨hversion, hagent, htaken, hops⟩
      rw [DebugCall.entry_of hexec, hexec]
      unfold DebugEntry.effect
      cases hpending : r.pendingVerdict with
      | none => exact moves_insert hr ⟨hversion, hagent, htaken.trans hpending.symm, hops⟩ sid
      | some verdict =>
          simp only
          rw [lookup_insert_session]
          by_cases hsid : id = sid
          · subst hsid
            rw [if_pos rfl, if_pos rfl]
            exact ⟨r, _, hr, rfl, howner, hpending, htaken, hversion, hops⟩
          · rw [if_neg hsid, if_neg hsid]
            exact moves_same _ _

theorem closedRecord_fields (state : SessionState) (now : Nat) (r : SessionRecord) :
    let r' := DebugSessionRegistry.closedRecord state now r
    r'.session.version = nextU64 r.session.version ∧ r'.agentJobId = r.agentJobId ∧
      r'.pendingVerdict = r.pendingVerdict ∧ r'.completedOps = r.completedOps := by
  have hbank := bankPaused_agrees now r
  exact ⟨congrArg nextU64 hbank.version, hbank.owner, hbank.pending, hbank.completed⟩

/-- A close takes the session out or leaves the closed record. -/
theorem close_lookup {id : Text} {r : SessionRecord} (state : SessionState) (now : Nat)
    (hr : g.sessions.lookup id = some r) (sid : Text) :
    (g.close id state now).sessions.lookup sid =
      (if id = sid then none else g.sessions.lookup sid) ∨
    (g.close id state now).sessions.lookup sid =
      if id = sid then some (DebugSessionRegistry.closedRecord state now r)
      else g.sessions.lookup sid := by
  unfold DebugSessionRegistry.close
  simp only [hr]
  split
  · left
    rw [retire_sessions, lookup_erase_session]
  · right
    rw [lookup_insert_session]

theorem moves_closeSession (now : Nat) (caller id : Text) (state : SessionState) (sid : Text) :
    (((DebugCall.closeSession caller id state).entry env now g).effect sid).Moves
      (NewSession env now (.closeSession caller id state) g sid) (g.sessions.lookup sid)
      (((DebugCall.closeSession caller id state).exec env now g).2.sessions.lookup sid) := by
  cases howned : g.ownedSession id caller with
  | false =>
      have hexec : (DebugCall.closeSession caller id state).exec env now g =
          (.refused (.notFound (noSuchSession id)), g) := by
        simp only [DebugCall.exec, DebugSessionRegistry.closeSession, howned, Bool.not_false,
          if_true]
      rw [DebugCall.entry_of hexec, hexec]
      exact moves_same _ _
  | true =>
      rcases owned_iff.mp howned with ⟨r, hr, howner⟩
      have hexec : (DebugCall.closeSession caller id state).exec env now g =
          (.closed, g.close id state now) := by
        simp only [DebugCall.exec, DebugSessionRegistry.closeSession, howned, Bool.not_true,
          Bool.false_eq_true, if_false]
      rw [DebugCall.entry_of hexec, hexec]
      unfold DebugEntry.effect
      rcases closedRecord_fields state now r with ⟨hversion, hagent, hpending, hops⟩
      -- the session is closed or forgotten; the others stay
      by_cases hsid : id = sid
      · subst hsid
        simp only [hr, if_true]
        refine ⟨r, rfl, hversion, ?_⟩
        rcases close_lookup state now hr id with h | h
        · exact .inl (by rw [h, if_pos rfl])
        · exact .inr ⟨_, by rw [h, if_pos rfl], rfl, hagent, hpending, hops⟩
      · have hsame : (g.close id state now).sessions.lookup sid = g.sessions.lookup sid := by
          rcases close_lookup state now hr sid with h | h
          · rw [h, if_neg hsid]
          · rw [h, if_neg hsid]
        rw [hsame]
        cases hother : g.sessions.lookup sid with
        | none => exact moves_same _ _
        | some record =>
            simp only [if_neg hsid]
            exact moves_same _ _

/-! ## Upkeep -/

/-- Taking sessions out, one after the other. -/
theorem lookup_foldl_out {f : DebugSessionRegistry → Text → DebugSessionRegistry}
    (hf : ∀ g id sid, (f g id).sessions.lookup sid = none ∨
      (f g id).sessions.lookup sid = g.sessions.lookup sid) (ids : List Text) (sid : Text) :
    ∀ g : DebugSessionRegistry, (ids.foldl f g).sessions.lookup sid = none ∨
      (ids.foldl f g).sessions.lookup sid = g.sessions.lookup sid := by
  induction ids with
  | nil => exact fun g => .inr rfl
  | cons id ids ih =>
      intro g
      rcases ih (f g id) with h | h
      · exact .inl h
      · rw [List.foldl_cons, h]
        exact hf g id sid

theorem lookup_sweepOne (now : Nat) (g : DebugSessionRegistry) (id sid : Text) :
    (DebugSessionRegistry.sweepOne now g id).sessions.lookup sid = none ∨
      (DebugSessionRegistry.sweepOne now g id).sessions.lookup sid = g.sessions.lookup sid := by
  unfold DebugSessionRegistry.sweepOne
  split
  · exact .inr rfl
  · rw [retire_sessions, lookup_erase_session]
    by_cases hid : id = sid
    · exact .inl (if_pos hid)
    · exact .inr (if_neg hid)

theorem lookup_forget (g : DebugSessionRegistry) (id sid : Text) :
    (g.forget id).sessions.lookup sid = none ∨
      (g.forget id).sessions.lookup sid = g.sessions.lookup sid := by
  show (g.sessions.erase id).lookup sid = none ∨ (g.sessions.erase id).lookup sid = _
  rw [lookup_erase_session]
  by_cases hid : id = sid
  · exact .inl (if_pos hid)
  · exact .inr (if_neg hid)

theorem moves_out {new : Prop} {b a : Option SessionRecord} (h : a = none ∨ a = b) :
    SessionEffect.untouched.Moves new b a := by
  rcases h with h | h
  · exact .inl h
  · rw [h]
    exact moves_same new b

/-- What a request does to the record of a session. -/
theorem moves_exec (env : DebugEnv) (now : Nat) (call : DebugCall) (g : DebugSessionRegistry)
    (sid : Text) :
    ((call.entry env now g).effect sid).Moves (NewSession env now call g sid)
      (g.sessions.lookup sid) ((call.exec env now g).2.sessions.lookup sid) := by
  cases call with
  | openSession caller active req => exact moves_openSession now caller active req sid
  | acquireLease reference req =>
      show SessionEffect.untouched.Moves _ _ _
      rcases onResolved_registry (g := g) reference fun id =>
        ((g.acquireControllerLease env id req).1.map .leased,
          (g.acquireControllerLease env id req).2) with h | ⟨id, _, h⟩
      · simp only [DebugCall.exec, h]
        exact moves_same _ _
      · simp only [DebugCall.exec, h]
        exact moves_acquireLease _ id req sid
  | releaseLease reference leaseId =>
      show SessionEffect.untouched.Moves _ _ _
      rcases onResolved_registry (g := g) reference fun id =>
        ((g.releaseControllerLease id leaseId).1.map fun _ => .released,
          (g.releaseControllerLease id leaseId).2) with h | ⟨id, _, h⟩
      · simp only [DebugCall.exec, h]
        exact moves_same _ _
      · simp only [DebugCall.exec, h]
        exact moves_releaseLease _ id leaseId sid
  | sessionOperation reference req => exact moves_sessionOperation now reference req sid
  | pollVerdict caller id => exact moves_pollVerdict now caller id sid
  | closeSession caller id state => exact moves_closeSession now caller id state sid
  | sweepAbandoned activeRequests =>
      exact moves_out
        (lookup_foldl_out (lookup_sweepOne now) (g.abandoned now activeRequests) sid g)
  | removeForRun runId => exact moves_out (lookup_foldl_out lookup_forget _ sid g)

/-- An effect on a session meets its record, unless it makes the session. -/
theorem before_of_moves {new : Prop} {b a : Option SessionRecord} {x : SessionEffect}
    (hm : x.Moves new b a) (h : a ≠ none ∨ x ≠ .untouched) : new ∨ ∃ r, b = some r := by
  cases x with
  | untouched =>
      rcases hm with hnone | ⟨r, _, hr, _⟩
      · exact absurd hnone (h.resolve_right fun hne => hne rfl)
      · exact .inr ⟨r, hr⟩
  | opened agentJob v =>
      rcases hm with ⟨_, _, _, _, _, ⟨hnew, _⟩ | ⟨r, hr, _⟩⟩
      · exact .inl hnew
      · exact .inr ⟨r, hr⟩
  | applied owner requestId verdict v =>
      rcases hm with ⟨r, _, hr, _⟩
      exact .inr ⟨r, hr⟩
  | delivered caller verdict =>
      rcases hm with ⟨r, _, hr, _⟩
      exact .inr ⟨r, hr⟩
  | closed v =>
      rcases hm with ⟨r, hr, _⟩
      exact .inr ⟨r, hr⟩

/-- A version that is written is the first one or the next one. -/
theorem version_of_moves {new : Prop} {b a : Option SessionRecord} {x : SessionEffect} {v : Nat}
    (hm : x.Moves new b a) (hv : x.version = some v) :
    ((new ∧ v = 1) ∨ ∃ r, b = some r ∧ v = nextU64 r.session.version) ∧
      ∀ r', a = some r' → r'.session.version = v := by
  cases x with
  | untouched => cases hv
  | delivered caller verdict => cases hv
  | opened agentJob version =>
      cases hv
      rcases hm with ⟨r', rfl, _, _, hversion, hfrom⟩
      refine ⟨?_, fun r hr => Option.some.inj hr ▸ hversion⟩
      rcases hfrom with hnew | ⟨r, hr, hnext, _⟩
      · exact .inl hnew
      · exact .inr ⟨r, hr, hnext⟩
  | applied owner requestId verdict version =>
      cases hv
      rcases hm with ⟨r, r', hr, rfl, _, _, _, hnext, hversion, _⟩
      exact ⟨.inr ⟨r, hr, hnext⟩, fun r hr => Option.some.inj hr ▸ hversion⟩
  | closed version =>
      cases hv
      rcases hm with ⟨r, hr, hnext, hafter⟩
      refine ⟨.inr ⟨r, hr, hnext⟩, fun r' hr' => ?_⟩
      rcases hafter with hnone | ⟨r'', hr'', hversion, _⟩
      · rw [hnone] at hr'
        cases hr'
      · rw [hr'', Option.some.injEq] at hr'
        exact hr' ▸ hversion

/-- Where no version is written, the session had the one it has. -/
theorem version_stays {new : Prop} {b a : Option SessionRecord} {x : SessionEffect}
    {r' : SessionRecord} (hm : x.Moves new b a) (hv : x.version = none) (hr' : a = some r') :
    ∃ r, b = some r ∧ r'.session.version = r.session.version := by
  cases x with
  | untouched =>
      rcases hm with hnone | ⟨r, r'', hr, hr'', hagrees⟩
      · rw [hnone] at hr'
        cases hr'
      · rw [hr'', Option.some.injEq] at hr'
        exact ⟨r, hr, hr' ▸ hagrees.version⟩
  | delivered caller verdict =>
      rcases hm with ⟨r, r'', hr, hr'', _, _, _, hversion, _⟩
      rw [hr'', Option.some.injEq] at hr'
      exact ⟨r, hr, hr' ▸ hversion⟩
  | opened agentJob version => cases hv
  | applied owner requestId verdict version => cases hv
  | closed version => cases hv

/-- Only an operation is applied, and it named the version of the session. -/
theorem call_of_applied {now : Nat} {call : DebugCall} {sid owner requestId : Text}
    {verdict : Verdict} {version : Nat}
    (h : (call.entry env now g).effect sid = .applied owner requestId verdict version) :
    ∃ reference req r, call = .sessionOperation reference req ∧ req.requestId = requestId ∧
      g.resolve reference = some sid ∧ g.sessions.lookup sid = some r ∧
      req.expectedVersion = r.session.version := by
  unfold DebugEntry.effect at h
  -- the entry opened a session or touched none
  split at h
  · split at h
    · cases h
    · cases h
  · next reference req response hcall hreply =>
      replace hcall : call = .sessionOperation reference req := hcall
      subst hcall
      split at h
      · next record moved hrecord hmoved =>
          split at h
          · cases h
          · next hversion =>
              cases h
              replace hrecord : g.sessions.lookup sid = some record := hrecord
              cases hid : g.resolve reference with
              -- by how the reference resolves and how the operation ends
              | none =>
                  have hexec : (DebugCall.sessionOperation reference req).exec env now g = _ :=
                    onResolved_none hid _
                  rw [DebugCall.entry_of hexec] at hreply
                  cases hreply
              | some id =>
                rcases sessionOperation_cases (g := g) now id req with
                  ⟨message, heq⟩ | ⟨r, previous, hr, hops, heq⟩ |
                    ⟨r, r', response', hr, _, hnew, heq⟩
                · have hexec : (DebugCall.sessionOperation reference req).exec env now g = _ :=
                    onResolved_error hid (by simp only [heq]; rfl)
                  rw [DebugCall.entry_of hexec] at hreply
                  cases hreply
                -- a repeated request is answered from what it got before, so the version stays
                · have hexec : (DebugCall.sessionOperation reference req).exec env now g = _ :=
                    onResolved_ok hid (by simp only [heq]; rfl)
                  rw [DebugCall.entry_of hexec] at hmoved
                  rw [hrecord, Option.some.injEq] at hmoved
                  exact absurd (congrArg (·.session.version) hmoved.symm) hversion
                -- a new operation raises the version of the session it resolved to, and of no other
                · have hexec : (DebugCall.sessionOperation reference req).exec env now g = _ :=
                    onResolved_ok hid (by simp only [heq]; rfl)
                  rw [DebugCall.entry_of hexec] at hmoved
                  simp only [lookup_insert_session] at hmoved
                  by_cases hsid : id = sid
                  · subst hsid
                    rw [hr, Option.some.injEq] at hrecord
                    exact ⟨reference, req, r, rfl, rfl, hid, hr, (newOperation_ok hnew).1⟩
                  · rw [if_neg hsid, hrecord, Option.some.injEq] at hmoved
                    exact absurd (congrArg (·.session.version) hmoved.symm) hversion
      · cases h
  · split at h
    · split at h
      · cases h
      · cases h
    · cases h
  · split at h
    · split at h
      · cases h
      · cases h
    · cases h
  · cases h

/-! ## Minted ids -/

/-- The id was minted. -/
def Minted (env : DebugEnv) (g : DebugSessionRegistry) (sid : Text) : Prop :=
  ∃ n < g.minted, sid = "dbg_".toList ++ env.uuid n

@[simp] theorem retire_minted (id : Text) (r : SessionRecord) (g : DebugSessionRegistry) :
    (DebugSessionRegistry.retire id r g).minted = g.minted := by
  unfold DebugSessionRegistry.retire DebugSessionRegistry.evictArchives
    DebugSessionRegistry.bankCredit
  split
  · rfl
  · rfl

theorem foldl_minted {f : DebugSessionRegistry → Text → DebugSessionRegistry}
    (hf : ∀ g id, (f g id).minted = g.minted) (ids : List Text) :
    ∀ g : DebugSessionRegistry, (ids.foldl f g).minted = g.minted := by
  induction ids with
  | nil => exact fun g => rfl
  | cons id ids ih => exact fun g => (ih (f g id)).trans (hf g id)

/-- Ids are never unminted. -/
theorem minted_le_exec (env : DebugEnv) (now : Nat) (call : DebugCall)
    (g : DebugSessionRegistry) : g.minted ≤ (call.exec env now g).2.minted := by
  -- only opening a session and a new lease mint an id
  cases call with
  | openSession caller active req =>
      show g.minted ≤ (g.openSession env now caller active req).2.minted
      unfold DebugSessionRegistry.openSession
      split
      · exact Nat.le_refl _
      · split
        · exact Nat.le_refl _
        · next requestId =>
            obtain ⟨_, _, _, _, _, _, _, ⟨_, _, _, hminted⟩ | ⟨_, _, _, _, hminted⟩⟩ :=
              openRecord_cases env now requestId req g
            · exact hminted ▸ Nat.le_succ _
            · exact hminted ▸ Nat.le_refl _
  | acquireLease reference req =>
      rcases onResolved_registry (g := g) reference fun id =>
        ((g.acquireControllerLease env id req).1.map .leased,
          (g.acquireControllerLease env id req).2) with h | ⟨id, _, h⟩
      · simp only [DebugCall.exec, h, Nat.le_refl]
      · simp only [DebugCall.exec, h]
        unfold DebugSessionRegistry.acquireControllerLease
        split
        · exact Nat.le_refl _
        · split
          · exact Nat.le_refl _
          · split
            · split
              · exact Nat.le_refl _
              · exact Nat.le_refl _
            · exact Nat.le_succ _
  | releaseLease reference leaseId =>
      rcases onResolved_registry (g := g) reference fun id =>
        ((g.releaseControllerLease id leaseId).1.map fun _ => .released,
          (g.releaseControllerLease id leaseId).2) with h | ⟨id, _, h⟩
      · simp only [DebugCall.exec, h, Nat.le_refl]
      · simp only [DebugCall.exec, h]
        unfold DebugSessionRegistry.releaseControllerLease
        split
        · exact Nat.le_refl _
        · split
          · exact Nat.le_refl _
          · exact Nat.le_refl _
  | sessionOperation reference req =>
      rcases onResolved_registry (g := g) reference fun id =>
        ((g.sessionOperation now id req).1.map .operated,
          (g.sessionOperation now id req).2) with h | ⟨id, _, h⟩
      · simp only [DebugCall.exec, h, Nat.le_refl]
      · simp only [DebugCall.exec, h]
        rcases sessionOperation_cases (g := g) now id req with
          ⟨message, heq⟩ | ⟨r, previous, _, _, heq⟩ | ⟨r, r', response, _, _, _, heq⟩
        · rw [heq]
        · rw [heq]
        · rw [heq]
  | pollVerdict caller id =>
      show g.minted ≤ (g.pollVerdict now caller id).2.minted
      unfold DebugSessionRegistry.pollVerdict DebugSessionRegistry.takeVerdict
      split
      · exact Nat.le_refl _
      · cases g.sessions.lookup id with
        | none => exact Nat.le_refl _
        | some r => exact Nat.le_refl _
  | closeSession caller id state =>
      show g.minted ≤ (g.closeSession now caller id state).2.minted
      unfold DebugSessionRegistry.closeSession DebugSessionRegistry.close
      split
      · exact Nat.le_refl _
      · cases g.sessions.lookup id with
        | none => exact Nat.le_refl _
        | some r =>
            simp only
            split
            · rw [retire_minted]
            · exact Nat.le_refl _
  | sweepAbandoned activeRequests =>
      -- retiring and forgetting sessions mint nothing
      refine (foldl_minted (fun g id => ?_) (g.abandoned now activeRequests) g).ge
      unfold DebugSessionRegistry.sweepOne
      split
      · rfl
      · exact retire_minted _ _ _
  | removeForRun runId =>
      have hforget : ∀ (g : DebugSessionRegistry) id, (g.forget id).minted = g.minted :=
        fun g id => rfl
      exact (foldl_minted hforget _ g).ge

theorem Minted.exec {now : Nat} {call : DebugCall} {sid : Text} (h : Minted env g sid) :
    Minted env (call.exec env now g).2 sid := by
  rcases h with ⟨n, hn, heq⟩
  exact ⟨n, Nat.lt_of_lt_of_le hn (minted_le_exec env now call g), heq⟩

theorem NewSession.minted {now : Nat} {call : DebugCall} {sid : Text}
    (h : NewSession env now call g sid) : Minted env (call.exec env now g).2 sid :=
  ⟨g.minted, h.2, h.1⟩

theorem NewSession.not_minted {now : Nat} {call : DebugCall} {sid : Text}
    (hmint : Function.Injective env.uuid) (h : NewSession env now call g sid) :
    ¬ Minted env g sid := by
  rintro ⟨n, hn, heq⟩
  have := hmint (List.append_cancel_left (h.1.symm.trans heq))
  omega

end Step

end Preloop
