import PreloopControl.SessionEffects

/-!
# Ownership of Debug Sessions

An open finds the session to replace by run and job id, which the legs of a
matrix share. So one leg can replace the session of another; a history in which
no open does keeps every session with its owner.

The completed requests of a session are bounded. A request id that was dropped
there can be applied again, if it comes with the current version.

## Main definitions

* `DebugEntry.Plain`: No open replaces the session of another agent job, no
  dropped request id is used again, and no version is at its bound.
* `SessionsOwned`: Ownership, versions, requests and verdicts in a history.

## Theorems

* `versions_run`, `requests_run`, `pending_run`: The invariants of a history.
* `sessions_owned`: Plain histories keep sessions with their owners.
-/

namespace Preloop

/-! ## Plain histories -/

/-- The request left the session without the completion of `requestId`, which it
    had before or was to have. -/
def DebugEntry.Forgot (sid requestId : Text) (e : DebugEntry) : Prop :=
  ∃ r', e.after.sessions.lookup sid = some r' ∧ r'.completedOps.lookup requestId = none ∧
    ((e.effect sid).request = some requestId ∨
      ∃ r, e.before.sessions.lookup sid = some r ∧ r.completedOps.lookup requestId ≠ none)

/-- The request, made after the history `h`, replaces nobody else's session if it is an open
    that is not refused, does not use a request id again that its session has forgotten, and
    meets no version at the bound of a `u64`. -/
structure DebugEntry.Plain (h : List DebugEntry) (e : DebugEntry) : Prop where
  opens : ∀ caller active req session, e.call = .openSession caller active req →
    e.reply = .opened session →
      ∀ id r, e.before.existing req.runId req.jobId = some (id, r) → r.agentJobId = caller
  reuses : ∀ reference req, e.call = .sessionOperation reference req →
    ∀ sid r, e.before.resolve reference = some sid → e.before.sessions.lookup sid = some r →
      req.expectedVersion = r.session.version →
      ∀ e' ∈ h, ¬ e'.Forgot sid req.requestId
  bounded : ∀ sid r, e.before.sessions.lookup sid = some r → r.session.version + 1 < 2 ^ 64

/-- Every request of the history is plain. -/
def PlainHistory : List DebugEntry → Prop
  | [] => True
  | e :: h => e.Plain h ∧ PlainHistory h

/-- No open touches the session of another agent job; the versions a session
    goes through increase; a request is applied once; and a verdict is delivered
    once, to the job that owned the session when it was decided and owns it now. -/
structure SessionsOwned (h : List DebugEntry) : Prop where
  opens : ∀ e ∈ h, ∀ caller active req, e.call = .openSession caller active req →
    ∀ sid r, e.before.sessions.lookup sid = some r → r.agentJobId ≠ caller →
      e.after.sessions.lookup sid = some r
  versions : ∀ sid, ((effects sid h).filterMap SessionEffect.version).Pairwise (· > ·)
  requests : ∀ sid, ((effects sid h).filterMap SessionEffect.request).Nodup
  verdicts : ∀ sid later caller verdict earlier,
    effects sid h = later ++ .delivered caller verdict :: earlier →
      ∃ between requestId version first,
        earlier = between ++ .applied caller requestId verdict version :: first ∧
        ∀ x ∈ between, x.passive = true
  owners : ∀ e ∈ h, ∀ sid caller verdict, e.effect sid = .delivered caller verdict →
    e.before.owner sid = some caller

/-! ## Invariants of a history -/

section Run

variable {env : DebugEnv} {h : List DebugEntry} {g : DebugSessionRegistry}

/-- Live sessions and those in the history have minted ids. -/
theorem minted_run (hrun : DebugRun env h g) (sid : Text) :
    (∀ r, g.sessions.lookup sid = some r → Minted env g sid) ∧
      ∀ e ∈ h, e.effect sid ≠ .untouched → Minted env g sid := by
  induction hrun with
  | init =>
      refine ⟨fun r hr => ?_, fun e he => absurd he List.not_mem_nil⟩
      cases hr
  | @step h g now call hrun ih =>
      have hmoves := moves_exec env now call g sid
      have hminted : ((call.exec env now g).2.sessions.lookup sid ≠ none ∨
          (call.entry env now g).effect sid ≠ .untouched) →
          Minted env (call.exec env now g).2 sid := by
        intro hsid
        rcases before_of_moves hmoves hsid with hnew | ⟨r, hr⟩
        · exact hnew.minted
        · exact (ih.1 r hr).exec
      refine ⟨fun r hr => hminted (.inl (by rw [hr]; exact Option.some_ne_none r)), ?_⟩
      intro e he heffect
      rcases List.mem_cons.mp he with rfl | he
      · exact hminted (.inr heffect)
      · exact (ih.2 e he heffect).exec

/-- Nothing happened yet to a session that is being made. -/
theorem effects_of_new (hmint : Function.Injective env.uuid) (hrun : DebugRun env h g)
    {now : Nat} {call : DebugCall} {sid : Text} (hnew : NewSession env now call g sid) :
    ∀ x ∈ effects sid h, x = .untouched := by
  intro x hx
  rcases List.mem_map.mp hx with ⟨e, he, rfl⟩
  by_contra heffect
  exact hnew.not_minted hmint ((minted_run hrun sid).2 e he heffect)

theorem filterMap_of_untouched {α : Type} {f : SessionEffect → Option α} {l : List SessionEffect}
    (hf : f .untouched = none) (h : ∀ x ∈ l, x = .untouched) : l.filterMap f = [] := by
  rw [List.filterMap_eq_nil_iff]
  intro x hx
  rw [h x hx, hf]

/-- A list that decreases from its head decreases from anything greater. -/
theorem pairwise_of_head {l : List Nat} {m v : Nat} (hl : l.Pairwise (· > ·))
    (hm : l.head? = some m) (hv : m < v) : (v :: l).Pairwise (· > ·) := by
  cases l with
  | nil => exact List.pairwise_singleton _ _
  | cons a l =>
      cases hm
      refine List.pairwise_cons.mpr ⟨fun x hx => ?_, hl⟩
      rcases List.mem_cons.mp hx with rfl | hx
      · exact hv
      · exact Nat.lt_trans ((List.pairwise_cons.mp hl).1 x hx) hv

/-- The versions of a session increase, and it has the last one. -/
theorem versions_run (hmint : Function.Injective env.uuid) (hrun : DebugRun env h g)
    (hplain : PlainHistory h) (sid : Text) :
    ((effects sid h).filterMap SessionEffect.version).Pairwise (· > ·) ∧
      ∀ r, g.sessions.lookup sid = some r →
        ((effects sid h).filterMap SessionEffect.version).head? = some r.session.version := by
  induction hrun with
  | init =>
      refine ⟨List.Pairwise.nil, fun r hr => ?_⟩
      cases hr
  | @step h g now call hrun ih =>
      rcases hplain with ⟨hentry, hrest⟩
      rcases ih hrest with ⟨hsorted, hhead⟩
      have hmoves := moves_exec env now call g sid
      rw [effects, List.map_cons, ← effects]
      cases hv : ((call.entry env now g).effect sid).version with
      | none =>
          rw [List.filterMap_cons_none hv]
          refine ⟨hsorted, fun r' hr' => ?_⟩
          rcases version_stays hmoves hv hr' with ⟨r, hr, hversion⟩
          rw [hversion]
          exact hhead r hr
      | some v =>
          rw [List.filterMap_cons_some hv]
          rcases version_of_moves hmoves hv with ⟨hfrom, hafter⟩
          refine ⟨?_, fun r' hr' => by rw [List.head?_cons, hafter r' hr']⟩
          rcases hfrom with ⟨hnew, _⟩ | ⟨r, hr, hnext⟩
          -- a new session has no effects yet, an old one goes up from its version by one
          · rw [filterMap_of_untouched rfl (effects_of_new hmint hrun hnew)]
            exact List.pairwise_singleton _ _
          · have hbound : r.session.version + 1 < 2 ^ 64 := hentry.bounded sid r hr
            rw [hnext, nextU64, Nat.mod_eq_of_lt hbound]
            exact pairwise_of_head hsorted (hhead r hr) (Nat.lt_succ_self _)

/-- A request was applied once; a session that lacks its completion has dropped it
    in the history. -/
theorem requests_run (hmint : Function.Injective env.uuid) (hrun : DebugRun env h g)
    (hplain : PlainHistory h) (sid : Text) :
    ((effects sid h).filterMap SessionEffect.request).Nodup ∧
      ∀ r, g.sessions.lookup sid = some r →
        ∀ requestId ∈ (effects sid h).filterMap SessionEffect.request,
          r.completedOps.lookup requestId ≠ none ∨ ∃ e ∈ h, e.Forgot sid requestId := by
  induction hrun with
  | init =>
      refine ⟨List.nodup_nil, fun r hr => ?_⟩
      cases hr
  | @step h g now call hrun ih =>
      rcases hplain with ⟨hentry, hrest⟩
      rcases ih hrest with ⟨hnodup, hkept⟩
      have hmoves := moves_exec env now call g sid
      rw [effects, List.map_cons, ← effects]
      constructor
      · cases hx : (call.entry env now g).effect sid with
        | applied owner requestId verdict version =>
            have hrequest : (SessionEffect.applied owner requestId verdict version).request =
              some requestId := rfl
            rw [List.filterMap_cons_some hrequest]
            -- applied a second time, the request had lost its completion, and the caller reused it
            refine List.nodup_cons.mpr ⟨fun hmem => ?_, hnodup⟩
            rcases call_of_applied hx with ⟨reference, req, r, hcall, rfl, hid, hr, hversion⟩
            rw [hx] at hmoves
            rcases hmoves with ⟨r0, _, hr0, _, _, _, hnone, _⟩
            rw [hr, Option.some.injEq] at hr0
            rcases hkept r hr _ hmem with hsome | ⟨e, he, hforgot⟩
            · exact hsome (hr0 ▸ hnone)
            · exact hentry.reuses reference req hcall sid r hid hr hversion e he hforgot
        | untouched | opened agentJob v | delivered caller verdict | closed v =>
            rw [List.filterMap_cons_none rfl]
            exact hnodup
      · intro r' hr' requestId hmem
        by_cases hsome : r'.completedOps.lookup requestId = none
        -- a completion that is missing now was dropped by this call or by one before it
        · right
          by_cases hnow : ((call.entry env now g).effect sid).request = some requestId
          · exact ⟨_, List.mem_cons_self, r', hr', hsome, .inl hnow⟩
          · have hbefore : requestId ∈ (effects sid h).filterMap SessionEffect.request := by
              rw [List.filterMap_cons] at hmem
              split at hmem
              · exact hmem
              · next other hother =>
                  rcases List.mem_cons.mp hmem with rfl | hmem
                  · exact absurd hother hnow
                  · exact hmem
            rcases before_of_moves hmoves (.inl (by rw [hr']; exact Option.some_ne_none r')) with
              hnew | ⟨r, hr⟩
            · rw [filterMap_of_untouched rfl (effects_of_new hmint hrun hnew)] at hbefore
              exact absurd hbefore List.not_mem_nil
            · rcases hkept r hr requestId hbefore with hhad | ⟨e, he, hforgot⟩
              · exact ⟨_, List.mem_cons_self, r', hr', hsome, .inr ⟨r, hr, hhad⟩⟩
              · exact ⟨e, List.mem_cons_of_mem _ he, hforgot⟩
        · exact .inl hsome

/-- A verdict was decided under this owner, and was not taken or replaced since. -/
def Awaited (owner : Text) (verdict : Verdict) (l : List SessionEffect) : Prop :=
  ∃ between requestId version first,
    l = between ++ .applied owner requestId verdict version :: first ∧
    ∀ x ∈ between, x.passive = true

theorem Awaited.cons {owner : Text} {verdict : Verdict} {l : List SessionEffect}
    {x : SessionEffect} (hx : x.passive = true) (h : Awaited owner verdict l) :
    Awaited owner verdict (x :: l) := by
  rcases h with ⟨between, requestId, version, first, rfl, hbetween⟩
  refine ⟨x :: between, requestId, version, first, rfl, fun y hy => ?_⟩
  rcases List.mem_cons.mp hy with rfl | hy
  · exact hx
  · exact hbetween y hy

/-- A pending verdict is that of the last operation. -/
theorem pending_run (hrun : DebugRun env h g) (sid : Text) :
    ∀ r verdict, g.sessions.lookup sid = some r → r.pendingVerdict = some verdict →
      Awaited r.agentJobId verdict (effects sid h) := by
  induction hrun with
  | init =>
      intro r verdict hr
      cases hr
  | @step h g now call hrun ih =>
      intro r' verdict hr' hpending
      have hmoves := moves_exec env now call g sid
      rw [effects, List.map_cons, ← effects]
      cases hx : (call.entry env now g).effect sid with
      | untouched =>
          rw [hx] at hmoves
          rcases hmoves with hnone | ⟨r, r'', hr, hr'', hagrees⟩
          · rw [hnone] at hr'
            cases hr'
          · rw [hr', Option.some.injEq] at hr''
            subst hr''
            rw [hagrees.owner]
            exact (ih r verdict hr (hagrees.pending.symm.trans hpending)).cons rfl
      | closed v =>
          rw [hx] at hmoves
          rcases hmoves with ⟨r, hr, _, hnone | ⟨r'', hr'', _, howner, hsame, _⟩⟩
          · rw [hnone] at hr'
            cases hr'
          · rw [hr', Option.some.injEq] at hr''
            subst hr''
            rw [howner]
            exact (ih r verdict hr (hsame.symm.trans hpending)).cons rfl
      | opened agentJob v =>
          -- An open starts without a verdict.
          rw [hx] at hmoves
          rcases hmoves with ⟨r'', hr'', _, hnone, _⟩
          rw [hr', Option.some.injEq] at hr''
          rw [hr'', hnone] at hpending
          cases hpending
      | delivered caller verdict' =>
          rw [hx] at hmoves
          rcases hmoves with ⟨_, r'', _, hr'', _, _, hnone, _⟩
          rw [hr', Option.some.injEq] at hr''
          rw [hr'', hnone] at hpending
          cases hpending
      | applied owner requestId verdict' version =>
          rw [hx] at hmoves
          rcases hmoves with ⟨_, r'', _, hr'', _, howner, _, _, _, hnow⟩
          rw [hr', Option.some.injEq] at hr''
          subst hr''
          rw [hpending, Option.some.injEq] at hnow
          subst hnow
          exact ⟨[], requestId, version, effects sid h, by rw [howner]; rfl,
            fun x hx => absurd hx List.not_mem_nil⟩

/-- What is delivered was awaited. -/
theorem delivered_run (hrun : DebugRun env h g) {sid : Text} :
    ∀ later {caller : Text} {verdict : Verdict} {earlier : List SessionEffect},
      effects sid h = later ++ .delivered caller verdict :: earlier →
        Awaited caller verdict earlier := by
  induction hrun with
  | init =>
      intro later caller verdict earlier heq
      exact absurd heq.symm (List.append_ne_nil_of_right_ne_nil later (List.cons_ne_nil _ _))
  | @step h g now call hrun ih =>
      intro later caller verdict earlier heq
      rw [effects, List.map_cons, ← effects] at heq
      cases later with
      | nil =>
          rcases List.cons.inj heq with ⟨hx, rfl⟩
          have hmoves := moves_exec env now call g sid
          rw [hx] at hmoves
          rcases hmoves with ⟨r, _, hr, _, rfl, hpending, _⟩
          exact pending_run hrun sid r verdict hr hpending
      | cons x later => exact ih later (List.cons.inj heq).2

/-- An open that replaces nobody else's session leaves theirs as they are. -/
theorem open_keeps (hmint : Function.Injective env.uuid) (hrun : DebugRun env h g) {now : Nat}
    {caller : Text} {active : Option Int} {req : OpenSessionRequest}
    (hown : ∀ session, (g.openSession env now caller active req).1 = .opened session →
      ∀ id r, g.existing req.runId req.jobId = some (id, r) → r.agentJobId = caller)
    {sid : Text} {r : SessionRecord} (hr : g.sessions.lookup sid = some r)
    (hother : r.agentJobId ≠ caller) :
    ((DebugCall.openSession caller active req).exec env now g).2.sessions.lookup sid = some r := by
  show (g.openSession env now caller active req).2.sessions.lookup sid = some r
  unfold DebugSessionRegistry.openSession at hown ⊢
  -- a caller that is not the agent job of the request is refused
  by_cases hcaller : caller ≠ req.agentJobId
  · rw [if_pos hcaller]
    exact hr
  · rw [if_neg hcaller] at hown ⊢
    cases active with
    | none => exact hr
    | some requestId =>
        obtain ⟨id, r', _, _, _, _, hlookup, hfrom⟩ :=
          openRecord_cases env now requestId req g
        show (g.openRecord env now requestId req).2.sessions.lookup sid = some r
        rw [hlookup, if_neg]
        · exact hr
        -- a new id is not the one of a session that is there, and an old one was the caller's own
        · rintro rfl
          rcases hfrom with ⟨_, hnew, _⟩ | ⟨old, hold, _⟩
          · rcases (minted_run hrun id).1 r hr with ⟨n, hn, heq⟩
            have := hmint (List.append_cancel_left (hnew.symm.trans heq))
            omega
          · have hsame := lookup_of_existing hold
            rw [hr, Option.some.injEq] at hsame
            exact hother (hsame ▸ hown _ rfl id old hold)

end Run

/-- In every plain history of the registry, opens leave the sessions of other
    agent jobs alone, versions increase, requests are applied once, and verdicts
    are delivered once, to their owner. -/
theorem sessions_owned {env : DebugEnv} (hmint : Function.Injective env.uuid)
    {h : List DebugEntry} {g : DebugSessionRegistry} (hrun : DebugRun env h g)
    (hplain : PlainHistory h) : SessionsOwned h where
  -- the induction is on the history; what an entry does is told by the state before it
  opens := by
    induction hrun with
    | init => exact fun e he => absurd he List.not_mem_nil
    | @step h g now call hrun ih =>
        intro e he caller active req hcall sid r hr hother
        rcases List.mem_cons.mp he with rfl | he
        · replace hcall : call = .openSession caller active req := hcall
          subst hcall
          refine open_keeps hmint hrun (fun session hreply => ?_) hr hother
          exact hplain.1.opens caller active req session rfl hreply
        · exact ih hplain.2 e he caller active req hcall sid r hr hother
  versions sid := (versions_run hmint hrun hplain sid).1
  requests sid := (requests_run hmint hrun hplain sid).1
  verdicts := fun sid later caller verdict earlier heq => delivered_run hrun later heq
  owners := by
    induction hrun with
    | init => exact fun e he => absurd he List.not_mem_nil
    | @step h g now call hrun ih =>
        intro e he sid caller verdict heffect
        rcases List.mem_cons.mp he with rfl | he
        · have hmoves := moves_exec env now call g sid
          rw [heffect] at hmoves
          rcases hmoves with ⟨r, _, hr, _, hagent, _⟩
          show (g.sessions.lookup sid).map SessionRecord.agentJobId = some caller
          rw [hr, Option.map_some, hagent]
        · exact ih hplain.2 e he sid caller verdict heffect

/-! ## Two legs of a matrix -/

/-- Nothing the session had or was to have of the request is lost. -/
def DebugEntry.keeps (sid requestId : Text) (e : DebugEntry) : Bool :=
  (e.effect sid).request ≠ some requestId &&
    (e.before.sessions.lookup sid).all fun r => (r.completedOps.lookup requestId).isNone

theorem not_forgot_of_keeps {sid requestId : Text} {e : DebugEntry}
    (h : e.keeps sid requestId = true) : ¬ e.Forgot sid requestId := by
  rcases Bool.and_eq_true_iff.mp h with ⟨hrequest, hnone⟩
  rintro ⟨_, _, _, hnow | ⟨r, hr, hhad⟩⟩
  · exact of_decide_eq_true hrequest hnow
  · rw [hr, Option.all_some, Option.isNone_iff_eq_none] at hnone
    exact hhad hnone

/-- A test for plain requests. -/
def DebugEntry.plain (h : List DebugEntry) (e : DebugEntry) : Bool :=
  (match e.call with
    | .openSession caller _ req =>
      (e.before.existing req.runId req.jobId).all fun found => found.2.agentJobId = caller
    | .sessionOperation reference req =>
      (e.before.resolve reference).all fun sid => h.all (DebugEntry.keeps sid req.requestId)
    | _ => true) &&
    e.before.sessions.entries.all fun x => x.2.session.version + 1 < 2 ^ 64

theorem plain_of_test {h : List DebugEntry} {e : DebugEntry} (htest : e.plain h = true) :
    e.Plain h := by
  rcases Bool.and_eq_true_iff.mp htest with ⟨hcall, hbounded⟩
  refine ⟨fun caller active req _ heq _ id r hr => ?_,
    fun reference req heq sid r hid _ _ e' he' => ?_, fun sid r hr => ?_⟩
  · simp only [heq, hr, Option.all_some, decide_eq_true_eq] at hcall
    exact hcall
  · simp only [heq, hid, Option.all_some, List.all_eq_true] at hcall
    exact not_forgot_of_keeps (hcall e' he')
  · exact of_decide_eq_true (List.all_eq_true.mp hbounded _ (SortedMap.mem_of_lookup hr))

/-- A history of requests a second apart, latest first. -/
def debugHistory (env : DebugEnv) : List DebugCall → List DebugEntry × DebugSessionRegistry
  | [] => ([], .init)
  | call :: calls =>
    let past := debugHistory env calls
    let now := 10 ^ 9 * past.1.length
    (call.entry env now past.2 :: past.1, (call.exec env now past.2).2)

theorem run_debugHistory (env : DebugEnv) (calls : List DebugCall) :
    DebugRun env (debugHistory env calls).1 (debugHistory env calls).2 := by
  induction calls with
  | nil => exact .init
  | cons call calls ih => exact .step _ call ih

/-- Ids of growing length. -/
def DebugEnv.unary : DebugEnv where
  uuid n := List.replicate n 'x'

theorem DebugEnv.unary_uuid : Function.Injective DebugEnv.unary.uuid := by
  intro m n h
  have hlength := congrArg List.length h
  rwa [DebugEnv.unary, List.length_replicate, List.length_replicate] at hlength

/-- An open of an agent job for a job of the run. -/
def legOpens (agentJobId jobId : Text) : DebugCall :=
  .openSession agentJobId (some 1) {
    runId := "r".toList
    jobId := jobId
    agentJobId := agentJobId
    jobName := jobId
    step := ⟨2, 4, "build".toList, "Build".toList⟩
    machine := none
    workspace := some "/work".toList
    snapshotCommit := none
    attempts := [] }

/-- Two jobs pause, and an agent has the first one retry. -/
def twoJobs : List DebugCall :=
  [legOpens "a".toList "build".toList, legOpens "b".toList "test".toList,
    .acquireLease "dbg_".toList ⟨"agent".toList⟩,
    .sessionOperation "dbg_".toList
      ⟨"1".toList, 1, "lease_xx".toList, .retry .untracked none⟩,
    .pollVerdict "a".toList "dbg_".toList, legOpens "a".toList "build".toList]

theorem sessions_owned_of_twoJobs : SessionsOwned (debugHistory .unary twoJobs.reverse).1 := by
  refine sessions_owned DebugEnv.unary_uuid (run_debugHistory .unary twoJobs.reverse) ?_
  refine ⟨?_, ?_, ?_, ?_, ?_, ?_, trivial⟩
  all_goals exact plain_of_test (by decide)

/-- Two legs of a matrix fail one after the other. -/
def twoLegs : List DebugCall :=
  [legOpens "a".toList "build".toList, legOpens "b".toList "build".toList]

theorem leg_takes_over : ¬ ∀ h g, DebugRun .unary h g → SessionsOwned h := by
  intro hall
  have howned := hall _ _ (run_debugHistory .unary twoLegs.reverse)
  have hbefore : (debugHistory .unary [legOpens "a".toList "build".toList]).2.owner
      "dbg_".toList = some "a".toList := by decide
  have hafter : (debugHistory .unary twoLegs.reverse).2.owner "dbg_".toList =
      some "b".toList := by decide
  rcases Option.map_eq_some_iff.mp hbefore with ⟨r, hr, howner⟩
  have hkept := howned.opens _ List.mem_cons_self "b".toList (some 1) _ rfl "dbg_".toList r hr
    (by rw [howner]; decide)
  have hsame : (debugHistory .unary twoLegs.reverse).2.sessions.lookup "dbg_".toList = some r :=
    hkept
  rw [DebugSessionRegistry.owner, hsame, Option.map_some, howner] at hafter
  exact absurd hafter (by decide)

end Preloop
