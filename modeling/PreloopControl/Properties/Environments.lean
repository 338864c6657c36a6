import PreloopControl.System

/-!
# Environment Gates over Time

The gate of one job is evaluated again on every sweep, while its rules may be
edited and reviewers approve or reject in between. The stamps make the
evaluations hang together: the deadline and the approval request are written
once and stay as long as the gate is armed.

A rejection is a stamp too, but not every evaluation looks at it. The check
reads the reviewer's name, which a rejection may lack, and it comes after the
release of a gate whose rules were removed.

## Main definitions

* `GateEvent`: An evaluation of the gate or a review decision.
* `GateRun`: The histories of a gate, under a clock that does not run backwards.
* `keepsRejection`: A rejection names its reviewer, and a rejected gate is not
  released.

## Theorems

* `evaluate_cases`: What one evaluation can do.
* `environment_gate_sound`: What it takes to proceed, in every history.
* `rejected_gate_proceeds`: An anonymous rejection is overlooked, and a named one
  is dropped with the rules.
-/

namespace Preloop

/-- An evaluation of the gate under the rules of that moment, or a decision. -/
inductive GateEvent
  | evaluate (lookup : EnvironmentLookup) (gitRef envName : String)
  | record (decision : EnvironmentDecision)

/-- What the event answered: the verdict, or whether the decision was recorded. -/
inductive GateReply
  | verdict (outcome : EnvironmentGateOutcome)
  | recorded (accepted : Bool)
deriving DecidableEq, Repr

/-- An event with its time and its answer. -/
structure GateEntry where
  now : Int
  event : GateEvent
  reply : GateReply

/-- The event on a gate. -/
def GateEvent.step (ev : Evaluators) (now : Int) (gate : Option EnvironmentGateState) :
    GateEvent → GateReply × Option EnvironmentGateState
  | .evaluate lookup gitRef envName =>
    let result := evaluateEnvironmentGate ev lookup gitRef envName gate now
    (.verdict result.1, result.2)
  | .record decision =>
    match gate.bind fun g => g.record decision now with
    | some recorded => (.recorded true, some recorded)
    | none => (.recorded false, gate)

/-- The histories of a gate, latest event first, in which every event meets a
    condition on the gate it finds. -/
inductive GateRun (ev : Evaluators) (ok : GateEvent → Option EnvironmentGateState → Prop) :
    List GateEntry → Option EnvironmentGateState → Prop
  | init : GateRun ev ok [] none
  | step {h : List GateEntry} {gate gate' : Option EnvironmentGateState} {now : Int}
      {event : GateEvent} {reply : GateReply} : GateRun ev ok h gate →
      (∀ e ∈ h.head?, e.now ≤ now) → ok event gate → event.step ev now gate = (reply, gate') →
      GateRun ev ok (⟨now, event, reply⟩ :: h) gate'

/-- A rejection was recorded. -/
def RejectedIn (h : List GateEntry) : Prop :=
  ∃ e ∈ h, (∃ actor, e.event = .record (.reject actor)) ∧ e.reply = .recorded true

/-- The environment has no protecting rules, so that an evaluation releases the
    gate. -/
def releasesGate (ev : Evaluators) (lookup : EnvironmentLookup) (envName : String) : Bool :=
  match lookup with
  | .pending => false
  | .resolved rules => !ev.hasExpressions envName && !rules.any rulesGateAnything

/-- A rejection names its reviewer, and a gate that carries one is not released
    by the removal of the rules. -/
def keepsRejection (ev : Evaluators) : GateEvent → Option EnvironmentGateState → Bool
  | .record (.reject actor), _ => actor.isSome
  | .record (.approve _), _ => true
  | .evaluate lookup _ envName, gate =>
    !(gate.any fun g => g.rejectedAt.isSome) || !releasesGate ev lookup envName

/-- The stamps of a gate are still there. -/
structure EnvironmentGateState.StampsKept (g g' : EnvironmentGateState) : Prop where
  waitUntil : ∀ deadline, g.waitUntil = some deadline → g'.waitUntil = some deadline
  requestedAt : ∀ at', g.approvalRequestedAt = some at' → g'.approvalRequestedAt = some at'
  required : ∀ n, g.approvalsRequired = some n → g'.approvalsRequired = some n

/-- What it takes to proceed under a rule set: every stage that applies is armed,
    the deadline has passed and the approvals asked for are there. -/
structure EnvironmentGateState.Passed (rule : EnvironmentRules) (now : Int)
    (g : EnvironmentGateState) : Prop where
  timer : 0 < rule.waitTimerMinutes → g.waitUntil.isSome = true
  deadline : ∀ deadline, g.waitUntil = some deadline → deadline ≤ now
  review : 0 < rule.requiredReviewers → g.approvalRequestedAt.isSome = true
  approvals : g.approvalRequestedAt.isSome = true →
    ∃ n, g.approvalsRequired = some n ∧ n ≤ g.approvals.length

/-- An approval request is stamped together with the number it asks for. -/
def EnvironmentGateState.Stamped (g : EnvironmentGateState) : Prop :=
  g.approvalRequestedAt.isSome = true → g.approvalsRequired.isSome = true

section Evaluate

variable {ev : Evaluators} {lookup : EnvironmentLookup} {gitRef envName : String} {now : Int}

/-! ## One evaluation -/

theorem stampsKept_refl (g : EnvironmentGateState) : g.StampsKept g :=
  ⟨fun _ h => h, fun _ h => h, fun _ h => h⟩

/-- The timer is armed at most once. -/
theorem stampsKept_timer {g : EnvironmentGateState} (h : g.waitUntil.isNone = true) (d : Int) :
    g.StampsKept { g with waitUntil := some d } := by
  refine ⟨fun deadline hd => ?_, fun _ h => h, fun _ h => h⟩
  rw [Option.isNone_iff_eq_none] at h
  exact absurd (h.symm.trans hd) (by simp only [reduceCtorEq, not_false_eq_true])

/-- The approval is requested at most once, and a number already asked for stays. -/
theorem stampsKept_request {g : EnvironmentGateState} (h : g.approvalRequestedAt.isNone = true)
    (now : Int) (n : Nat) :
    g.StampsKept { g with
      approvalRequestedAt := some now, approvalsRequired :=
        some (g.approvalsRequired.getD n) } := by
  refine ⟨fun _ h => h, fun at' hat => ?_, fun m hm => ?_⟩
  · rw [Option.isNone_iff_eq_none] at h
    exact absurd (h.symm.trans hat) (by simp only [reduceCtorEq, not_false_eq_true])
  · simp only [hm, Option.getD_some]

theorem EnvironmentGateState.StampsKept.trans {g g' g'' : EnvironmentGateState}
    (h : g.StampsKept g')
    (h' : g'.StampsKept g'') : g.StampsKept g'' :=
  ⟨fun d hd => h'.waitUntil d (h.waitUntil d hd),
    fun a ha => h'.requestedAt a (h.requestedAt a ha), fun n hn => h'.required n (h.required n hn)⟩

/-- The gate after the timer stage. -/
def armTimer (rule : EnvironmentRules) (g : EnvironmentGateState) (now : Int) :
    EnvironmentGateState :=
  let deadline := saturate (now + saturate (rule.waitTimerMinutes * 60000000000))
  if g.waitUntil.isNone && 0 < rule.waitTimerMinutes then { g with waitUntil := some deadline }
  else g

/-- The gate after the reviewer stage. -/
def armReview (rule : EnvironmentRules) (g : EnvironmentGateState) (now : Int) :
    EnvironmentGateState :=
  if g.approvalRequestedAt.isNone && 0 < rule.requiredReviewers then
    { g with
      approvalRequestedAt := some now
      approvalsRequired := some (g.approvalsRequired.getD rule.requiredReviewers) }
  else g

/-- The decision after both stages. -/
def decideStages (rule : EnvironmentRules) (g : EnvironmentGateState) (now : Int) :
    EnvironmentGateOutcome × EnvironmentGateState :=
  match g.approvalRequestedAt with
  | none => (.proceed, g)
  | some requestedAt =>
    if max (g.approvalsRequired.getD rule.requiredReviewers) 1 ≤ g.approvals.length then
      (.proceed, g)
    else if environmentApprovalWindow < saturate (now - requestedAt) then (.failed, g)
    else (.wait, g)

theorem armTimer_spec (rule : EnvironmentRules) (g : EnvironmentGateState) (now : Int)
    (hstamped : g.Stamped) :
    g.StampsKept (armTimer rule g now) ∧ (armTimer rule g now).Stamped ∧
      (armTimer rule g now).rejectedBy = g.rejectedBy ∧
      (0 < rule.waitTimerMinutes → (armTimer rule g now).waitUntil.isSome = true) := by
  unfold armTimer
  by_cases h : g.waitUntil.isNone && 0 < rule.waitTimerMinutes
  · rw [if_pos h]
    exact ⟨stampsKept_timer (Bool.and_eq_true_iff.mp h).1 _, hstamped, rfl, fun _ => rfl⟩
  · rw [if_neg h]
    refine ⟨stampsKept_refl g, hstamped, rfl, fun hpos => ?_⟩
    -- The timer was armed before, or the rule has none.
    cases hwait : g.waitUntil with
    | none => exact absurd (by rw [hwait]; exact decide_eq_true hpos) h
    | some d => rfl

theorem armReview_spec (rule : EnvironmentRules) (g : EnvironmentGateState) (now : Int)
    (hstamped : g.Stamped) :
    g.StampsKept (armReview rule g now) ∧ (armReview rule g now).Stamped ∧
      (armReview rule g now).rejectedBy = g.rejectedBy ∧
      (armReview rule g now).waitUntil = g.waitUntil ∧
      (0 < rule.requiredReviewers → (armReview rule g now).approvalRequestedAt.isSome = true) := by
  unfold armReview
  by_cases h : g.approvalRequestedAt.isNone && 0 < rule.requiredReviewers
  · rw [if_pos h]
    exact ⟨stampsKept_request (Bool.and_eq_true_iff.mp h).1 _ _, fun _ => rfl, rfl, rfl,
      fun _ => rfl⟩
  · rw [if_neg h]
    refine ⟨stampsKept_refl g, hstamped, rfl, rfl, fun hpos => ?_⟩
    cases hreq : g.approvalRequestedAt with
    | none => exact absurd (by rw [hreq]; exact decide_eq_true hpos) h
    | some at' => rfl

/-- The two timed stages keep the stamps and the rejection, and let a gate pass
    only when both are satisfied. -/
theorem evaluateRuleSet_spec (rule : EnvironmentRules) (g : EnvironmentGateState) (now : Int)
    (hstamped : g.Stamped) :
    g.StampsKept (evaluateRuleSet rule g now).2 ∧ (evaluateRuleSet rule g now).2.Stamped ∧
      (evaluateRuleSet rule g now).2.rejectedBy = g.rejectedBy ∧
      ((evaluateRuleSet rule g now).1 = .proceed →
        (evaluateRuleSet rule g now).2.Passed rule now) := by
  have hstages : evaluateRuleSet rule g now =
      if (armTimer rule g now).waitUntil.any fun deadline => now < deadline then
        (.wait, armTimer rule g now)
      else
        decideStages rule (armReview rule (armTimer rule g now) now) now := rfl
  -- the timer comes first, and nothing is asked of a reviewer before it has run out
  obtain ⟨hkept1, hstamped1, hrejected1, htimer⟩ := armTimer_spec rule g now hstamped
  obtain ⟨hkept2, hstamped2, hrejected2, hwait2, hreview⟩ :=
    armReview_spec rule (armTimer rule g now) now hstamped1
  rw [hstages]
  by_cases hwait : (armTimer rule g now).waitUntil.any fun deadline => now < deadline
  · simp only [hwait, if_true]
    exact ⟨hkept1, hstamped1, hrejected1, fun h => absurd h EnvironmentGateOutcome.noConfusion⟩
  · have hdue : ∀ deadline, (armTimer rule g now).waitUntil = some deadline → deadline ≤ now := by
      intro deadline hd
      rw [hd, Option.any_some, decide_eq_true_eq] at hwait
      omega
    simp only [hwait, Bool.false_eq_true, if_false]
    generalize armReview rule (armTimer rule g now) now = g2 at *
    have hkept := hkept1.trans hkept2
    have hrejected := hrejected2.trans hrejected1
    unfold decideStages
    -- then the review: none was asked for, or enough approved, or the gate still waits
    cases hreq : g2.approvalRequestedAt with
    | none =>
        refine ⟨hkept, hstamped2, hrejected, fun _ => ⟨?_, ?_, hreview, ?_⟩⟩
        · exact fun hpos => hwait2 ▸ htimer hpos
        · exact fun d hd => hdue d (hwait2 ▸ hd)
        · intro h
          rw [hreq] at h
          exact absurd h Bool.false_ne_true
    | some requestedAt =>
        obtain ⟨n, hn⟩ := Option.isSome_iff_exists.mp (hstamped2 (by rw [hreq]; rfl))
        simp only [hn, Option.getD_some]
        split
        · next hle =>
            refine ⟨hkept, hstamped2, hrejected, fun _ => ⟨?_, ?_, hreview, ?_⟩⟩
            · exact fun hpos => hwait2 ▸ htimer hpos
            · exact fun d hd => hdue d (hwait2 ▸ hd)
            · exact fun _ => ⟨n, hn, Nat.le_trans (Nat.le_max_left n 1) hle⟩
        · split
          · exact ⟨hkept, hstamped2, hrejected,
              fun h => absurd h EnvironmentGateOutcome.noConfusion⟩
          · exact ⟨hkept, hstamped2, hrejected,
              fun h => absurd h EnvironmentGateOutcome.noConfusion⟩

/-- The gate an evaluation writes before it looks at the rules. -/
def armed (gate : Option EnvironmentGateState) (envName : String) : EnvironmentGateState :=
  { gate.getD EnvironmentGateState.default with environmentName := some envName }

/-- What one evaluation can do: leave a gate whose name failed, hold or fail with
    the name stamped, release the gate for lack of rules, or run the timed stages
    of a rule set that allows the ref. -/
theorem evaluate_cases (ev : Evaluators) (lookup : EnvironmentLookup) (gitRef envName : String)
    (gate : Option EnvironmentGateState) (now : Int) :
    evaluateEnvironmentGate ev lookup gitRef envName gate now = (.failed, gate) ∨
    (∃ outcome, outcome ≠ .proceed ∧ evaluateEnvironmentGate ev lookup gitRef envName gate now =
      (outcome, some (armed gate envName))) ∨
    (releasesGate ev lookup envName = true ∧
      evaluateEnvironmentGate ev lookup gitRef envName gate now = (.proceed, none)) ∨
    ∃ rule, lookup = .resolved (some rule) ∧ (armed gate envName).rejectedBy = none ∧
      rule.customProtectionRules = [] ∧ refAllowed ev rule gitRef = true ∧
      evaluateEnvironmentGate ev lookup gitRef envName gate now =
        ((evaluateRuleSet rule (armed gate envName) now).1,
          some (evaluateRuleSet rule (armed gate envName) now).2) := by
  unfold evaluateEnvironmentGate
  -- a name that failed once is not looked at again
  by_cases hname : gate.any fun g => g.unresolvableName.isSome
  · left
    simp only [hname, if_true]
  · right
    simp only [hname, Bool.false_eq_true, if_false]
    cases lookup with
    | pending => exact .inl ⟨.wait, EnvironmentGateOutcome.noConfusion, rfl⟩
    | resolved rules =>
        by_cases hexpr : ev.hasExpressions envName = true
        · simp only [hexpr, if_true]
          exact .inl ⟨.wait, EnvironmentGateOutcome.noConfusion, rfl⟩
        · simp only [hexpr, Bool.false_eq_true, if_false]
          -- the rules without effect count as no rules, before a recorded rejection is read
          cases hrules : rules.filter rulesGateAnything with
          | none =>
              refine .inr (.inl ⟨?_, rfl⟩)
              rw [Option.filter_eq_none_iff] at hrules
              simp only [releasesGate, hexpr, Bool.not_false, Bool.true_and, Bool.not_eq_true',
                Option.any_eq_false]
              intro rule hrule
              rw [Bool.eq_false_iff]
              exact hrules rule hrule
          | some rule =>
              obtain ⟨rfl, _⟩ := Option.filter_eq_some_iff.mp hrules
              simp only
              -- a recorded rejection, a custom rule and a refused ref fail the job, in this order
              split
              · exact .inl ⟨.failed, EnvironmentGateOutcome.noConfusion, rfl⟩
              · next hrejected =>
                  split
                  · exact .inl ⟨.failed, EnvironmentGateOutcome.noConfusion, rfl⟩
                  · next hcustom =>
                      split
                      · exact .inl ⟨.failed, EnvironmentGateOutcome.noConfusion, rfl⟩
                      · next href =>
                          refine .inr (.inr ⟨rule, rfl, ?_, ?_, ?_, rfl⟩)
                          · rw [Option.not_isSome_iff_eq_none] at hrejected
                            exact hrejected
                          · rw [Bool.not_eq_true, Bool.not_eq_false', List.isEmpty_iff] at hcustom
                            exact hcustom
                          · rw [Bool.not_eq_true, Bool.not_eq_false'] at href
                            exact href

/-! ## Whole histories -/

/-- What a history has established: requests carry their number, and a recorded
    rejection is on the gate, by name. -/
structure GateKept (h : List GateEntry) (gate : Option EnvironmentGateState) : Prop where
  stamped : ∀ g, gate = some g → g.Stamped
  rejected : RejectedIn h → ∃ g, gate = some g ∧ g.rejectedBy.isSome = true ∧
    g.rejectedAt.isSome = true

theorem armed_stamped {h : List GateEntry} {gate : Option EnvironmentGateState}
    (hkept : GateKept h gate) (envName : String) : (armed gate envName).Stamped := by
  cases gate with
  | none => exact fun h => h
  | some g => exact hkept.stamped g rfl

/-- A history whose latest event is no recorded rejection. -/
theorem rejectedIn_of_cons {h : List GateEntry} {e : GateEntry} (hrejected : RejectedIn (e :: h))
    (hlast : ∀ actor, e.event = .record (.reject actor) → e.reply ≠ .recorded true) :
    RejectedIn h := by
  obtain ⟨e', hmem, ⟨actor, hevent⟩, hreply⟩ := hrejected
  rcases List.mem_cons.mp hmem with rfl | hmem
  · exact absurd hreply (hlast actor hevent)
  · exact ⟨e', hmem, ⟨actor, hevent⟩, hreply⟩

/-- An evaluation keeps what the history established, and a rejected gate does
    not proceed. -/
theorem gateKept_evaluate {h : List GateEntry} {gate : Option EnvironmentGateState}
    (hkept : GateKept h gate)
    (hok : keepsRejection ev (.evaluate lookup gitRef envName) gate = true) :
    GateKept (⟨now, .evaluate lookup gitRef envName,
        .verdict (evaluateEnvironmentGate ev lookup gitRef envName gate now).1⟩ :: h)
      (evaluateEnvironmentGate ev lookup gitRef envName gate now).2 ∧
    (RejectedIn h → (evaluateEnvironmentGate ev lookup gitRef envName gate now).1 ≠ .proceed) := by
  have hearlier : ∀ reply, RejectedIn (⟨now, .evaluate lookup gitRef envName, reply⟩ :: h) →
      RejectedIn h := by
    intro reply hrejected
    exact rejectedIn_of_cons hrejected fun actor hevent => absurd hevent GateEvent.noConfusion
  rcases evaluate_cases ev lookup gitRef envName gate now with
    heq | ⟨outcome, hne, heq⟩ | ⟨hrelease, heq⟩ | ⟨rule, _, hclean, _, _, heq⟩
  -- the name failed, or the gate holds: what was recorded is untouched
  · rw [heq]
    exact ⟨⟨hkept.stamped, fun hr => hkept.rejected (hearlier _ hr)⟩,
      fun _ => EnvironmentGateOutcome.noConfusion⟩
  -- the gate waits or fails with the name stamped, under which the rejection stays
  · rw [heq]
    refine ⟨⟨?_, fun hr => ?_⟩, fun _ => hne⟩
    · intro g hg
      rw [← Option.some.inj hg]
      exact armed_stamped hkept envName
    · obtain ⟨g, rfl, hby, hat⟩ := hkept.rejected (hearlier _ hr)
      exact ⟨_, rfl, hby, hat⟩
  · -- Released: the condition says that no rejection is on the gate.
    have hnone : ¬RejectedIn h := by
      intro hr
      obtain ⟨g, rfl, _, hat⟩ := hkept.rejected hr
      simp only [keepsRejection, Option.any_some, hat, hrelease, Bool.not_true, Bool.or_self,
        Bool.false_eq_true] at hok
    rw [heq]
    refine ⟨⟨fun g hg => absurd hg (by simp only [reduceCtorEq, not_false_eq_true]), fun hr => ?_⟩,
      fun hr => absurd hr hnone⟩
    exact absurd (hearlier _ hr) hnone
  -- the rules run only when no rejection is recorded
  · have hnone : ¬RejectedIn h := by
      intro hr
      obtain ⟨g, rfl, hby, _⟩ := hkept.rejected hr
      rw [show (armed (some g) envName).rejectedBy = g.rejectedBy from rfl] at hclean
      rw [hclean] at hby
      exact absurd hby Bool.false_ne_true
    rw [heq]
    refine ⟨⟨?_, fun hr => absurd (hearlier _ hr) hnone⟩, fun hr => absurd hr hnone⟩
    intro g hg
    rw [← Option.some.inj hg]
    exact (evaluateRuleSet_spec rule _ now (armed_stamped hkept envName)).2.1

/-- A decision keeps the stamps; a rejection with a name is on the gate. -/
theorem record_spec {g g' : EnvironmentGateState} {decision : EnvironmentDecision}
    (hrecord : g.record decision now = some g') :
    g.StampsKept g' ∧ (g.Stamped → g'.Stamped) ∧
      (decision = .reject g'.rejectedBy ∧ g'.rejectedAt.isSome = true ∨
        (∃ actor, decision = .approve actor) ∧ g'.rejectedBy = g.rejectedBy ∧
          g'.rejectedAt = g.rejectedAt) := by
  unfold EnvironmentGateState.record at hrecord
  obtain ⟨requestedAt, _, hrecord⟩ := Option.bind_eq_some_iff.mp hrecord
  split at hrecord
  · cases hrecord
  · cases decision with
    | approve actor =>
        rw [Option.some.injEq] at hrecord
        subst hrecord
        exact ⟨⟨fun _ h => h, fun _ h => h, fun _ h => h⟩, fun h => h,
          .inr ⟨⟨actor, rfl⟩, rfl, rfl⟩⟩
    | reject actor =>
        rw [Option.some.injEq] at hrecord
        subst hrecord
        exact ⟨⟨fun _ h => h, fun _ h => h, fun _ h => h⟩, fun h => h, .inl ⟨rfl, rfl⟩⟩

/-- Every event keeps what the history established. -/
theorem gateKept_step {h : List GateEntry} {gate gate' : Option EnvironmentGateState}
    {event : GateEvent} {reply : GateReply} (hkept : GateKept h gate)
    (hok : keepsRejection ev event gate = true) (hstep : event.step ev now gate = (reply, gate')) :
    GateKept (⟨now, event, reply⟩ :: h) gate' := by
  cases event with
  | evaluate lookup gitRef envName =>
      simp only [GateEvent.step, Prod.mk.injEq] at hstep
      obtain ⟨rfl, rfl⟩ := hstep
      exact (gateKept_evaluate hkept hok).1
  | record decision =>
      unfold GateEvent.step at hstep
      cases hrecord : gate.bind fun g => g.record decision now with
      | none =>
          simp only [hrecord, Prod.mk.injEq] at hstep
          obtain ⟨rfl, rfl⟩ := hstep
          refine ⟨hkept.stamped, fun hr => hkept.rejected (rejectedIn_of_cons hr ?_)⟩
          intro _ _ h
          exact absurd h (by simp only [GateReply.recorded.injEq, Bool.false_eq_true,
            not_false_eq_true])
      | some g' =>
          simp only [hrecord, Prod.mk.injEq] at hstep
          obtain ⟨rfl, rfl⟩ := hstep
          obtain ⟨g, rfl, hg'⟩ := Option.bind_eq_some_iff.mp hrecord
          obtain ⟨_, hstamped, hdecision⟩ := record_spec hg'
          refine ⟨?_, fun hr => ?_⟩
          · intro g1 hg1
            rw [← Option.some.inj hg1]
            exact hstamped (hkept.stamped g rfl)
          -- a rejection puts its name on the gate, an approval leaves what is there
          · rcases hdecision with ⟨rfl, hat⟩ | ⟨⟨actor, rfl⟩, hby, hat⟩
            · exact ⟨g', rfl, hok, hat⟩
            · obtain ⟨g1, hg1, hby1, hat1⟩ := hkept.rejected (rejectedIn_of_cons hr
                fun actor hevent => absurd hevent (by simp only [GateEvent.record.injEq,
                  reduceCtorEq, not_false_eq_true]))
              rw [← Option.some.inj hg1] at hby1 hat1
              exact ⟨g', rfl, hby ▸ hby1, hat ▸ hat1⟩

/-- Every history keeps what it established. -/
theorem gateKept_run {h : List GateEntry} {gate : Option EnvironmentGateState}
    (hrun : GateRun ev (fun event gate => keepsRejection ev event gate = true) h gate) :
    GateKept h gate := by
  induction hrun with
  | init =>
      refine ⟨fun g hg => absurd hg (by simp only [reduceCtorEq, not_false_eq_true]), ?_⟩
      rintro ⟨e, hmem, _⟩
      exact absurd hmem List.not_mem_nil
  | step _ _ hok hstep ih => exact gateKept_step ih hok hstep

/-- The stamps stay as long as the gate is armed, whatever the event. -/
theorem stamps_step {h : List GateEntry} {g g' : EnvironmentGateState} {event : GateEvent}
    (hkept : GateKept h (some g)) (hstep : (event.step ev now (some g)).2 = some g') :
    g.StampsKept g' := by
  cases event with
  | evaluate lookup gitRef envName =>
      simp only [GateEvent.step] at hstep
      rcases evaluate_cases ev lookup gitRef envName (some g) now with
        heq | ⟨outcome, _, heq⟩ | ⟨_, heq⟩ | ⟨rule, _, _, _, _, heq⟩
      -- the stages only ever arm what is not armed yet
      · rw [heq, Option.some.injEq] at hstep
        exact hstep ▸ stampsKept_refl g
      · rw [heq, Option.some.injEq] at hstep
        exact hstep ▸ ⟨fun _ h => h, fun _ h => h, fun _ h => h⟩
      · rw [heq] at hstep
        cases hstep
      · rw [heq, Option.some.injEq] at hstep
        have hspec := (evaluateRuleSet_spec rule (armed (some g) envName) now
          (armed_stamped hkept envName)).1
        exact hstep ▸ ⟨fun d hd => hspec.waitUntil d hd, fun a ha => hspec.requestedAt a ha,
          fun n hn => hspec.required n hn⟩
  | record decision =>
      unfold GateEvent.step at hstep
      simp only [Option.bind_some] at hstep
      cases hrecord : g.record decision now with
      | none =>
          simp only [hrecord, Option.some.injEq] at hstep
          exact hstep ▸ stampsKept_refl g
      | some g1 =>
          simp only [hrecord, Option.some.injEq] at hstep
          exact hstep ▸ (record_spec hrecord).1

end Evaluate

/-- In every history whose rejections name their reviewer and whose rejected gate
    is not released by a removal of the rules: an evaluation under protecting
    rules proceeds only if no rejection is recorded, no custom rule applies, the
    ref is allowed, the armed deadline has passed and the approvals stamped are
    there; no event moves a stamp of an armed gate; and after a rejection no
    evaluation that keeps the condition proceeds. -/
theorem environment_gate_sound {ev : Evaluators} {h : List GateEntry}
    {gate : Option EnvironmentGateState}
    (hrun : GateRun ev (fun event gate => keepsRejection ev event gate = true) h gate) (now : Int) :
    (∀ lookup gitRef envName rule,
      keepsRejection ev (.evaluate lookup gitRef envName) gate = true →
      lookup = .resolved (some rule) → rulesGateAnything rule = true →
      (evaluateEnvironmentGate ev lookup gitRef envName gate now).1 = .proceed →
      ¬RejectedIn h ∧ rule.customProtectionRules = [] ∧ refAllowed ev rule gitRef = true ∧
        ∃ g', (evaluateEnvironmentGate ev lookup gitRef envName gate now).2 = some g' ∧
          g'.Passed rule now) ∧
    (∀ event g g', gate = some g → (GateEvent.step ev now gate event).2 = some g' →
      g.StampsKept g') ∧
    ∀ lookup gitRef envName, keepsRejection ev (.evaluate lookup gitRef envName) gate = true →
      RejectedIn h → (evaluateEnvironmentGate ev lookup gitRef envName gate now).1 ≠ .proceed := by
  have hkept := gateKept_run hrun
  refine ⟨?_, ?_, ?_⟩
  · intro lookup gitRef envName rule hok hlookup hgates hproceed
    refine ⟨fun hr => (gateKept_evaluate hkept hok).2 hr hproceed, ?_⟩
    -- of the four ways an evaluation ends, only the last two proceed
    rcases evaluate_cases ev lookup gitRef envName gate now with
      heq | ⟨outcome, hne, heq⟩ | ⟨hrelease, _⟩ | ⟨rule', hlookup', _, hcustom, href, heq⟩
    · rw [heq] at hproceed
      exact absurd hproceed EnvironmentGateOutcome.noConfusion
    · rw [heq] at hproceed
      exact absurd hproceed hne
    · rw [hlookup, releasesGate, Option.any_some, hgates, Bool.not_true, Bool.and_false] at hrelease
      exact absurd hrelease Bool.false_ne_true
    · rw [hlookup, EnvironmentLookup.resolved.injEq, Option.some.injEq] at hlookup'
      subst hlookup'
      refine ⟨hcustom, href, _, by rw [heq], ?_⟩
      rw [heq] at hproceed
      exact (evaluateRuleSet_spec rule _ now (armed_stamped hkept envName)).2.2.2 hproceed
  · rintro event g g' rfl hstep
    exact stamps_step hkept hstep
  · intro lookup gitRef envName hok
    exact (gateKept_evaluate hkept hok).2

/-- An environment that asks for one approval and allows every ref. -/
def reviewedRules : EnvironmentRules := ⟨[], [], 0, 1, false, false, []⟩

/-- An evaluation under these rules. -/
def reviewedEvent : GateEvent := .evaluate (.resolved (some reviewedRules)) "refs/heads/main" "prod"

/-- Events a second apart, latest first: the history and the gate. -/
def gateHistory (ev : Evaluators) : List GateEvent → List GateEntry × Option EnvironmentGateState
  | [] => ([], none)
  | event :: events =>
    let (h, gate) := gateHistory ev events
    let now := 1000000000 * h.length
    let (reply, gate') := event.step ev now gate
    (⟨now, event, reply⟩ :: h, gate')

/-- The history is a run if its events meet the condition. -/
theorem run_gateHistory (ev : Evaluators) {ok : GateEvent → Option EnvironmentGateState → Prop}
    (events : List GateEvent) (hok : ∀ event gate, event ∈ events → ok event gate) :
    GateRun ev ok (gateHistory ev events).1 (gateHistory ev events).2 := by
  induction events with
  | nil => exact .init
  | cons event events ih =>
      simp only [gateHistory]
      refine .step (ih fun e gate he => hok e gate (List.mem_cons_of_mem event he)) ?_
        (hok event _ List.mem_cons_self) rfl
      intro e he
      cases events with
      | nil => exact absurd he (by simp only [gateHistory, List.head?_nil, Option.mem_def,
          reduceCtorEq, not_false_eq_true])
      | cons event' events =>
          simp only [gateHistory, List.head?_cons, Option.mem_def, Option.some.injEq] at he
          subst he
          simp only [gateHistory, List.length_cons]
          omega

/-- A review is requested and given. -/
def approvedEvents : List GateEvent := [.record (.approve (some "ada")), reviewedEvent]

theorem approved_gate_passed :
    ∃ h gate g', GateRun .plain (fun event gate => keepsRejection .plain event gate = true) h gate ∧
      (evaluateEnvironmentGate .plain (.resolved (some reviewedRules)) "refs/heads/main" "prod"
        gate 2000000000) = (.proceed, some g') ∧ g'.Passed reviewedRules 2000000000 := by
  have hok : ∀ event gate, event ∈ approvedEvents → keepsRejection .plain event gate = true := by
    intro event gate hmem
    rcases List.mem_cons.mp hmem with rfl | hmem
    · rfl
    · rw [List.mem_singleton.mp hmem]
      simp only [reviewedEvent, keepsRejection, releasesGate, Option.any_some,
        show rulesGateAnything reviewedRules = true by decide, Bool.not_true, Bool.and_false,
        Bool.not_false, Bool.or_true]
  have hrun := run_gateHistory .plain approvedEvents hok
  have hproceed : (evaluateEnvironmentGate .plain (.resolved (some reviewedRules))
      "refs/heads/main" "prod" (gateHistory .plain approvedEvents).2 2000000000).1 = .proceed := by
    decide
  have hkeep : keepsRejection .plain reviewedEvent (gateHistory .plain approvedEvents).2 =
      true := by
    decide
  obtain ⟨_, _, _, g', hg', hpassed⟩ := (environment_gate_sound hrun 2000000000).1
    (.resolved (some reviewedRules)) "refs/heads/main" "prod" reviewedRules hkeep rfl
    (by decide) hproceed
  exact ⟨_, _, g', hrun, Prod.ext hproceed hg', hpassed⟩

/-- A deployment is rejected without a name and then approved. -/
def anonymousEvents : List GateEvent :=
  [.record (.approve (some "ada")), .record (.reject none), reviewedEvent]

/-- A deployment is rejected by name, and the rules are removed afterwards. -/
def rejectedEvents : List GateEvent := [.record (.reject (some "ada")), reviewedEvent]

theorem rejected_gate_proceeds :
    (∃ h gate, GateRun .plain (fun _ _ => True) h gate ∧ RejectedIn h ∧
      (evaluateEnvironmentGate .plain (.resolved (some reviewedRules)) "refs/heads/main" "prod"
        gate 3000000000).1 = .proceed) ∧
    ∃ h gate, GateRun .plain (fun _ _ => True) h gate ∧ RejectedIn h ∧
      (evaluateEnvironmentGate .plain (.resolved none) "refs/heads/main" "prod"
        gate 3000000000).1 = .proceed := by
  refine ⟨⟨_, _, run_gateHistory .plain anonymousEvents fun _ _ _ => trivial, ?_, by decide⟩,
    ⟨_, _, run_gateHistory .plain rejectedEvents fun _ _ _ => trivial, ?_, by decide⟩⟩
  · exact ⟨⟨1000000000, .record (.reject none), .recorded true⟩, .tail _ (.head _),
      ⟨none, rfl⟩, rfl⟩
  · exact ⟨⟨1000000000, .record (.reject (some "ada")), .recorded true⟩, .head _,
      ⟨some "ada", rfl⟩, rfl⟩

end Preloop
