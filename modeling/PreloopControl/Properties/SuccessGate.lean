import PreloopControl.Expressions.Reading
import PreloopControl.Properties.SecretReads
import PreloopControl.Workflow.Conditions
import PreloopControl.Workflow.Expand

/-!
# The Implicit Success Gate

A condition without a status function is evaluated as `success() && (condition)`. The
text is put together before it is parsed, and the conditions of a caller and of a
called job are put together before that. Both can go wrong: a status function in one
of two merged conditions opens the gate of the other, and a parenthesis in the
condition can close the gate early.

Every tree is evaluated under a budget that the gate uses as well, so the conditions
for both are exact only with the budget in them.

## Main definitions

* `Truthy`, `Holds`: The truth of a tree and of a text.
* `Opens`, `OpensTogether`: What lets truthy conditions through.
* `GateHolds`, `GateFits`: The gate of one condition, and when it is one.
* `Conjoined`, `GatesAgree`: The conditions of a lifted job, and when they agree.

## Theorems

* `truthy_and`: A conjunction.
* `holds_effective`: The effective condition of an expression.
* `success_gate_exact`: The gate of an accepted condition.
* `lifted_conjunction_exact`: The conditions of a lifted job.
-/

namespace Preloop

namespace Workflow

open Expressions Budget Fallible

variable {N F : Type} {engine : Engine N F} {ctx : Context N}

/-! ## Truth -/

/-- The tree is evaluated to a truthy value. -/
def Truthy (engine : Engine N F) (ctx : Context N) (e : Expr N) : Prop :=
  (evalFresh engine ctx e).map (isTruthy engine) = .ok true

/-- The text is evaluated to a truthy value. -/
def Holds (engine : Engine N F) (ctx : Context N) (t : Text) : Prop :=
  evalBool engine t ctx = .ok true

/-- The tree is evaluated within the budget. -/
def FitsBudget (engine : Engine N F) (ctx : Context N) (e : Expr N) : Prop :=
  evalFresh engine ctx e ≠ .error tooLarge

theorem evalBool_of_parse {t : Text} {e : Expr N}
    (h : parseExpression engine.parseNumber (trimExpressionMarkers t) = .ok e) :
    evalBool engine t ctx = (evalFresh engine ctx e).map (isTruthy engine) := by
  unfold evalBool evalExpression
  rw [h]
  rfl

/-- A conjunction within the ceiling evaluates its operands from the top. -/
theorem eval_and {l r : Expr N} (h : exprDepth (.binary .and l r) ≤ maxExpressionDepth) :
    eval engine ctx 0 (.binary .and l r) = charged (do
      let v ← eval engine ctx 0 l
      if isTruthy engine v then eval engine ctx 0 r else return v) := by
  simp only [exprDepth] at h
  have henter : enterEval 0 = Pure.pure () := enterEval_within (by decide)
  simp only [eval, henter, pure_bind]
  rw [eval_depth ctx l (0 + 1) 0 (by omega) (by omega),
    eval_depth ctx r (0 + 1) 0 (by omega) (by omega)]
  refine congrArg charged (bind_congr fun v => ?_)
  cases isTruthy engine v with
  | true => simp [combineBinary]
  | false => rfl

/-- Behind a truthy operand the other one decides. -/
theorem eval_and_of_truthy {l r : Expr N} (h : exprDepth (.binary .and l r) ≤ maxExpressionDepth)
    {v : Value N} {n : Nat} (hl : eval engine ctx 0 l 0 = .ok (v, n))
    (hv : isTruthy engine v = true) :
    eval engine ctx 0 (.binary .and l r) 0 = charged (eval engine ctx 0 r) n := by
  rw [eval_and h]
  have hoperand : (do
      let v ← eval engine ctx 0 l
      if isTruthy engine v then eval engine ctx 0 r else return v : EvalM (Value N)) 0 =
        eval engine ctx 0 r n := by
    rw [bind_run hl]
    exact congrFun (if_pos hv) n
  show (_ >>= _) = (eval engine ctx 0 r n >>= _)
  rw [hoperand]

/-- A conjunction is truthy exactly if its operands are and the budget suffices for
    both. -/
theorem truthy_and {l r : Expr N} (h : exprDepth (.binary .and l r) ≤ maxExpressionDepth) :
    Truthy engine ctx (.binary .and l r) ↔
      Truthy engine ctx l ∧ Truthy engine ctx r ∧ FitsBudget engine ctx (.binary .and l r) := by
  constructor
  · intro ht
    obtain ⟨v, hv, htrue⟩ := map_eq_ok ht
    obtain ⟨n, hrun⟩ := evalFresh_ok hv
    rw [eval_and h] at hrun
    obtain ⟨m, hrun, _⟩ := charged_ok hrun
    obtain ⟨⟨w, k⟩, hl, hrun⟩ := bind_eq_ok hrun
    have hk := ((metered_eval ctx 0 l).bounded (Nat.zero_le _) hl).2
    -- a second operand that is truthy later, with less budget, is truthy on a fresh one
    have hfresh := evalFresh_of_later (Nat.zero_le _) hl
    by_cases hw : isTruthy engine w = true
    · simp only [hw, if_true] at hrun
      refine ⟨?_, ?_, ?_⟩
      · rw [Truthy, hfresh, Except.map, hw]
      · rw [Truthy, evalFresh_of_later hk hrun, Except.map, htrue]
      · rw [FitsBudget, hv]
        exact fun h => by cases h
    · simp only [hw] at hrun
      cases hrun
      exact absurd htrue hw
  -- the budget of the whole tree covers the walk of both operands
  · rintro ⟨hl, hr, hfits⟩
    obtain ⟨v, hv, hvtrue⟩ := map_eq_ok hl
    obtain ⟨w, hw, hwtrue⟩ := map_eq_ok hr
    obtain ⟨n, hrun⟩ := evalFresh_ok hv
    have hn := ((metered_eval ctx 0 l).bounded (Nat.zero_le _) hrun).2
    have heval := eval_and_of_truthy h hrun hvtrue
    have hcharged : ∀ k, eval engine ctx 0 r n = .ok (w, k) →
        charged (eval engine ctx 0 r) n = (charge w k).map fun p => (w, p.2) := by
      intro k hk
      show (eval engine ctx 0 r n >>= _) = _
      rw [hk]
      show (charge w k >>= _) = _
      cases charge w k with
      | error e => rfl
      | ok p => rfl
    unfold FitsBudget evalFresh at hfits
    unfold Truthy evalFresh
    rw [heval] at hfits ⊢
    obtain hfull | ⟨k, hk⟩ := eval_later hn hw
    · refine absurd ?_ hfits
      show ((eval engine ctx 0 r n >>= _).map _) = _
      rw [hfull]
      rfl
    · rw [hcharged k hk] at hfits ⊢
      obtain hc | hc := charge_cases w k
      · rw [hc] at hfits
        exact absurd rfl hfits
      · rw [hc]
        show Except.ok (isTruthy engine w) = _
        rw [hwtrue]

/-- What is too much on a fresh budget is too much behind another operand. -/
theorem FitsBudget.right {l r : Expr N} (h : exprDepth (.binary .and l r) ≤ maxExpressionDepth)
    (hl : Truthy engine ctx l) (hfits : FitsBudget engine ctx (.binary .and l r)) :
    FitsBudget engine ctx r := by
  intro hfull
  obtain ⟨v, hv, hvtrue⟩ := map_eq_ok hl
  obtain ⟨n, hrun⟩ := evalFresh_ok hv
  have hn := ((metered_eval ctx 0 l).bounded (Nat.zero_le _) hrun).2
  have hlater : eval engine ctx 0 r n = .error tooLarge := by
    obtain hlater | ⟨run, hfresh, hlater⟩ := (metered_eval ctx 0 r).earlier (Nat.zero_le n) hn
    · exact hlater
    · unfold evalFresh at hfull
      rw [hfresh] at hfull
      cases run with
      | error e =>
          cases hfull
          exact hlater
      | ok p => cases hfull
  refine hfits ?_
  unfold evalFresh
  rw [eval_and_of_truthy h hrun hvtrue]
  show ((eval engine ctx 0 r n >>= _).map _) = _
  rw [hlater]
  rfl

/-! ## The gate -/

theorem eval_success : eval engine ctx 0 successCall 0 = .ok (.bool ctx.success, 16) := by
  rfl

theorem evalFresh_success : evalFresh engine ctx successCall = .ok (.bool ctx.success) := by
  unfold evalFresh
  rw [eval_success]
  rfl

theorem truthy_success : Truthy engine ctx successCall ↔ ctx.success = true := by
  unfold Truthy
  rw [evalFresh_success]
  cases ctx.success <;> simp [Except.map, isTruthy]

/-- What the effective condition needs to let a truthy condition through: a status
    function, or success and room for the gate. -/
def Opens (engine : Engine N F) (ctx : Context N) (t : Text) : Prop :=
  containsStatusCheckFunction (trimExpressionMarkers t) = true ∨
    ctx.success = true ∧ LeavesRoom engine.parseNumber (trimExpressionMarkers t) ∧
      ∀ e, parseExpression engine.parseNumber (trimExpressionMarkers t) = .ok e →
        FitsBudget engine ctx (.binary .and successCall e)

theorem holds_of_parse {t : Text} {e : Expr N}
    (h : parseExpression engine.parseNumber (trimExpressionMarkers t) = .ok e) :
    Holds engine ctx t ↔ Truthy engine ctx e := by
  unfold Holds Truthy
  rw [evalBool_of_parse h]

theorem not_holds_of_error {t : Text} {err : ExpressionError}
    (h : parseExpression engine.parseNumber (trimExpressionMarkers t) = .error err) :
    ¬ Holds engine ctx t := by
  unfold Holds evalBool evalExpression
  rw [h]
  exact fun h => by cases h

/-- The effective condition is truthy exactly if the condition is and the gate lets it
    through. -/
theorem holds_effective {t : Text} {e : Expr N}
    (h : parseExpression engine.parseNumber (trimExpressionMarkers t) = .ok e) :
    Holds engine ctx (effectiveCondition (some t)) ↔ Truthy engine ctx e ∧ Opens engine ctx t := by
  rw [effectiveCondition_of_ne (ne_nil_of_parse h)]
  -- a condition that asks for the status is left alone
  by_cases hstatus : containsStatusCheckFunction (trimExpressionMarkers t) = true
  · rw [if_pos hstatus, holds_of_parse (by rw [trimExpressionMarkers_of_parse h, h])]
    exact ⟨fun ht => ⟨ht, .inl hstatus⟩, And.left⟩
  · rw [if_neg hstatus]
    -- the gate puts `success() &&` before the condition
    have hgate := trimExpressionMarkers_gate (trimExpressionMarkers t)
    have hiff := parse_gated_iff h
    obtain hparse | ⟨l, hparse⟩ := parse_gated h
    · have hroom := hiff.mp hparse
      have hdepth := exprDepth_of_parse hparse
      rw [holds_of_parse (hgate ▸ hparse), truthy_and hdepth, truthy_success]
      constructor
      · rintro ⟨hsuccess, ht, hfits⟩
        refine ⟨ht, .inr ⟨hsuccess, hroom, fun e' he' => ?_⟩⟩
        rw [h] at he'
        cases he'
        exact hfits
      · rintro ⟨ht, hopens⟩
        obtain ⟨hsuccess, _, hfits⟩ := hopens.resolve_left hstatus
        exact ⟨hsuccess, ht, hfits e h⟩
    -- the gated text has too many tokens or too much depth, which the gate counts as closed
    · refine ⟨fun hh => absurd hh (not_holds_of_error (hgate ▸ hparse)), ?_⟩
      rintro ⟨_, hopens⟩
      have hroom := hiff.mpr (hopens.resolve_left hstatus).2.1
      rw [hparse] at hroom
      cases hroom

/-- Without success a gated condition is false. -/
theorem gated_fails {e : Expr N}
    (h : exprDepth (.binary .and successCall e) ≤ maxExpressionDepth) (hs : ctx.success = false) :
    evalFresh engine ctx (.binary .and successCall e) = .ok (.bool false) := by
  have hoperand : (do
      let v ← eval engine ctx 0 successCall
      if isTruthy engine v then eval engine ctx 0 e else return v : EvalM (Value N)) 0 =
        .ok (.bool false, 16) := by
    rw [bind_run eval_success, hs]
    rfl
  unfold evalFresh
  rw [eval_and h, charged, bind_run hoperand]
  rfl

/-- With success it is the condition, unless the gate was too much. -/
theorem gated_succeeds {e : Expr N}
    (h : exprDepth (.binary .and successCall e) ≤ maxExpressionDepth) (hs : ctx.success = true) :
    evalFresh engine ctx (.binary .and successCall e) = .error tooLarge ∨
      evalFresh engine ctx (.binary .and successCall e) = evalFresh engine ctx e := by
  -- the successful gate costs sixteen bytes, and the condition is evaluated behind it
  have hsuccess : isTruthy engine (.bool ctx.success) = true := hs
  have hrun : evalFresh engine ctx (.binary .and successCall e) =
      (eval engine ctx 0 e 16 >>= fun p => (charge p.1 p.2).map fun _ => p.1) := by
    unfold evalFresh
    rw [eval_and_of_truthy h eval_success hsuccess]
    show ((eval engine ctx 0 e 16 >>= _).map _) = _
    cases eval engine ctx 0 e 16 with
    | error e => rfl
    | ok p =>
        show ((charge p.1 p.2 >>= _).map _) = (charge p.1 p.2).map _
        cases charge p.1 p.2 with
        | error e => rfl
        | ok q => rfl
  have hcap : 16 ≤ maxEvaluatedValueBytes := by decide
  -- with these spent the condition gives the same or runs out of the budget
  obtain hfull | ⟨r, hfresh, hlater⟩ := (metered_eval ctx 0 e).earlier (Nat.zero_le 16) hcap
  · rw [hrun, hfull]
    exact .inl rfl
  · have hresult : evalFresh engine ctx e = r.map Prod.fst := by
      unfold evalFresh
      rw [hfresh]
      cases r with
      | error e => rfl
      | ok p => rfl
    rw [hrun, hresult, hlater]
    -- the value itself has to be paid for as well
    cases r with
    | error e => exact .inr rfl
    | ok p =>
        obtain hc | hc := charge_cases p.1 (16 + p.2)
        · refine .inl ?_
          show (charge p.1 (16 + p.2)).map _ = _
          rw [hc]
          rfl
        · refine .inr ?_
          show (charge p.1 (16 + p.2)).map _ = _
          rw [hc]
          rfl

/-! ## Ungated conditions -/

/-- What the workflow file and the job plan are checked for. -/
structure Accepted (num : Text → Option N) (allowed : Option (List Text)) (t : Text) : Prop where
  text : validateExpressionsInString num t true allowed = .ok ()
  plan : validateJobCondition num (some t) = .ok ()

/-- The effective condition is false without success and the condition itself with it. -/
def GateHolds (engine : Engine N F) (t : Text) : Prop :=
  ∀ ctx, (ctx.success = false →
      evalBool engine (effectiveCondition (some t)) ctx = .ok false) ∧
    (ctx.success = true →
      evalBool engine (effectiveCondition (some t)) ctx = evalBool engine t ctx)

/-- The condition is an expression of its own, and where it is evaluated within the
    budget, it is so behind the gate. -/
def GateFits (engine : Engine N F) (t : Text) : Prop :=
  ∃ e, parseExpression engine.parseNumber (trimExpressionMarkers t) = .ok e ∧
    ∀ ctx, ctx.success = true → FitsBudget engine ctx e →
      FitsBudget engine ctx (.binary .and successCall e)

/-- A tree that was read is evaluated without the errors of reading. -/
theorem evalBool_spares (hhash : engine.HashesSpare fun e => e.isReading = true) {t : Text}
    {e : Expr N} (h : parseExpression engine.parseNumber (trimExpressionMarkers t) = .ok e) :
    Spares (fun e => e.isReading = true) (evalBool engine t ctx) := by
  have hdepth : 0 + exprDepth e ≤ maxExpressionDepth := by
    rw [Nat.zero_add]
    exact exprDepth_of_parse h
  rw [evalBool_of_parse h]
  exact ((eval_neverFails (fun _ he => he) hhash ctx e 0 hdepth 0).map _).map _

/-- The gate of an accepted condition without a status function holds exactly if the
    condition is an expression of its own that leaves budget for it. -/
theorem success_gate_exact {allowed : Option (List Text)} {t : Text}
    (hhash : engine.HashesSpare fun e => e.isReading = true)
    (haccepted : Accepted engine.parseNumber allowed t)
    (hstatus : containsStatusCheckFunction (trimExpressionMarkers t) = false) :
    GateHolds engine t ↔ GateFits engine t := by
  obtain ⟨e', he'⟩ := parse_of_validate haccepted.plan
  cases hparse : parseExpression engine.parseNumber (trimExpressionMarkers t) with
  | error err =>
      -- evaluating the condition fails to read it, evaluating the effective one does not
      have herr : err.isReading = true := by
        by_contra hnot
        exact reads_parseExpression _ _ err (Bool.eq_false_of_not_eq_true hnot) hparse
      have hraw : evalBool engine t { success := true } = .error err := by
        unfold evalBool evalExpression
        rw [hparse]
        rfl
      constructor
      · intro hgate
        have hsame := (hgate { success := true }).2 rfl
        rw [hraw] at hsame
        exact absurd hsame (evalBool_spares hhash he' err herr)
      · rintro ⟨e, he, _⟩
        rw [hparse] at he
        cases he
  | ok e =>
      have hgate := trimExpressionMarkers_gate (trimExpressionMarkers t)
      have heff : effectiveCondition (some t) =
          gateText ++ (trimExpressionMarkers t ++ [')']) := by
        rw [effectiveCondition_of_ne (ne_nil_of_parse hparse), hstatus]
        rfl
      rw [heff, hgate] at he'
      have hgated : parseExpression engine.parseNumber
          (trimExpressionMarkers (gateText ++ (trimExpressionMarkers t ++ [')']))) =
            .ok (.binary .and successCall e) := by
        rw [hgate]
        refine (parse_gated hparse).resolve_right ?_
        rintro ⟨l, hdeep⟩
        rw [hdeep] at he'
        cases he'
      have hdepth := exprDepth_of_parse hgated
      constructor
      · intro hholds
        refine ⟨e, hparse, fun ctx hsuccess hfits hfull => hfits ?_⟩
        have hsame := (hholds ctx).2 hsuccess
        rw [heff, evalBool_of_parse hgated, evalBool_of_parse hparse, hfull] at hsame
        cases hrun : evalFresh engine ctx e with
        | error err =>
            rw [hrun] at hsame
            cases hsame
            rfl
        | ok v =>
            rw [hrun] at hsame
            cases hsame
      · rintro ⟨e₁, he₁, hfits⟩ ctx
        rw [hparse] at he₁
        cases he₁
        rw [heff, evalBool_of_parse hgated, evalBool_of_parse hparse]
        constructor
        · intro hfails
          rw [gated_fails hdepth hfails]
          rfl
        · intro hsuccess
          obtain hfull | hsame := gated_succeeds hdepth hsuccess
          · have hraw : evalFresh engine ctx e = .error tooLarge := by
              by_contra hraw
              exact hfits ctx hsuccess hraw hfull
            rw [hfull, hraw]
          · rw [hsame]

/-! ## Lifted conditions -/

/-- What the merged condition needs to let two truthy conditions through: one status
    function opens the gate for both. -/
def OpensTogether (engine : Engine N F) (ctx : Context N) (outer inner : Text) : Prop :=
  ∀ l r, parseExpression engine.parseNumber (trimExpressionMarkers outer) = .ok l →
    parseExpression engine.parseNumber (trimExpressionMarkers inner) = .ok r →
      if containsStatusCheckFunction (trimExpressionMarkers outer) ||
          containsStatusCheckFunction (trimExpressionMarkers inner) then
        FitsBudget engine ctx (.binary .and l r)
      else ctx.success = true ∧ FitsBudget engine ctx (.binary .and successCall (.binary .and l r))

theorem mergeJobConditions_eq (outer inner : Text) :
    mergeJobConditions (some outer) (some inner) =
      some (mergedText (trimExpressionMarkers outer) (trimExpressionMarkers inner)) := by
  simp [mergeJobConditions, mergedText, trim_trimExpressionMarkers]

/-- The effective condition of the merged one is truthy exactly if both conditions are
    and its gate lets them through. -/
theorem holds_merged {outer inner : Text} {l r : Expr N}
    (ho : parseExpression engine.parseNumber (trimExpressionMarkers outer) = .ok l)
    (hi : parseExpression engine.parseNumber (trimExpressionMarkers inner) = .ok r)
    (hvalid : validateJobCondition engine.parseNumber
      (mergeJobConditions (some outer) (some inner)) = .ok ()) :
    Holds engine ctx (effectiveCondition (mergeJobConditions (some outer) (some inner))) ↔
      Truthy engine ctx l ∧ Truthy engine ctx r ∧ OpensTogether engine ctx outer inner := by
  rw [mergeJobConditions_eq] at hvalid ⊢
  have htrim := trimExpressionMarkers_merged (trimExpressionMarkers outer)
    (trimExpressionMarkers inner)
  have hstatus := containsStatus_merged (even_quotes_of_parse ho) (even_quotes_of_parse hi)
  -- the gate asks about the two trees, which are those of the two conditions
  have hopens : OpensTogether engine ctx outer inner ↔
      if containsStatusCheckFunction (trimExpressionMarkers outer) ||
          containsStatusCheckFunction (trimExpressionMarkers inner) then
        FitsBudget engine ctx (.binary .and l r)
      else ctx.success = true ∧
        FitsBudget engine ctx (.binary .and successCall (.binary .and l r)) := by
    constructor
    · exact fun h => h l r ho hi
    · intro h l' r' hl' hr'
      rw [ho] at hl'
      rw [hi] at hr'
      cases hl'
      cases hr'
      exact h
  obtain ⟨e, he⟩ := parse_of_validate hvalid
  -- the gate is put in front exactly if neither condition calls a status function
  have heff : effectiveCondition
      (some (mergedText (trimExpressionMarkers outer) (trimExpressionMarkers inner))) =
        if containsStatusCheckFunction (trimExpressionMarkers outer) ||
            containsStatusCheckFunction (trimExpressionMarkers inner) then
          mergedText (trimExpressionMarkers outer) (trimExpressionMarkers inner)
        else gateText ++
          (mergedText (trimExpressionMarkers outer) (trimExpressionMarkers inner) ++ [')']) := by
    rw [effectiveCondition_of_ne (by rw [htrim]; exact List.cons_ne_nil _ _), htrim, hstatus]
  rw [heff] at he ⊢
  rw [hopens]
  split at he
  -- a status function is called, and the merged condition is evaluated as it stands
  · next h =>
      rw [if_pos h, if_pos h]
      obtain hparse | ⟨d, hparse⟩ := parse_merged ho hi
      · rw [holds_of_parse (by rw [htrim, hparse]), truthy_and (exprDepth_of_parse hparse)]
      · rw [htrim, hparse] at he
        cases he
  -- the gate stands in front, one level deeper, and reads the result of the run
  · next h =>
      rw [if_neg h, if_neg h]
      rw [trimExpressionMarkers_gate] at he
      obtain hparse | ⟨d, hparse⟩ := parse_merged_gated ho hi
      · have hdepth := exprDepth_of_parse hparse
        have hinner : exprDepth (.binary .and l r) ≤ maxExpressionDepth := by
          rw [exprDepth] at hdepth
          omega
        rw [holds_of_parse (by rw [trimExpressionMarkers_gate, hparse]), truthy_and hdepth,
          truthy_success, truthy_and hinner]
        constructor
        · rintro ⟨hsuccess, ⟨hl, hr, _⟩, hfits⟩
          exact ⟨hl, hr, hsuccess, hfits⟩
        · rintro ⟨hl, hr, hsuccess, hfits⟩
          have hright := hfits.right hdepth (truthy_success.mpr hsuccess)
          exact ⟨hsuccess, ⟨hl, hr, hright⟩, hfits⟩
      · rw [hparse] at he
        cases he

/-- The condition parses, if there is one. -/
def Readable (num : Text → Option N) (condition : Option Text) : Prop :=
  ∀ t, condition = some t → ∃ e, parseExpression num (trimExpressionMarkers t) = .ok e

/-- The merged condition is truthy exactly if both conditions are. -/
def Conjoined (engine : Engine N F) (ctx : Context N) (outer inner : Option Text) : Prop :=
  Holds engine ctx (effectiveCondition (mergeJobConditions outer inner)) ↔
    Holds engine ctx (effectiveCondition outer) ∧ Holds engine ctx (effectiveCondition inner)

/-- Merging leaves the gates alone: a condition that stands alone is false, or finds
    success, or has no status function; and two truthy conditions are let through
    together exactly if each of them is alone. -/
def GatesAgree (engine : Engine N F) (ctx : Context N) : Option Text → Option Text → Prop
  | none, none => True
  | some t, none | none, some t =>
    Holds engine ctx t → ctx.success = true ∨
      containsStatusCheckFunction (trimExpressionMarkers t) = false
  | some outer, some inner =>
    Holds engine ctx outer → Holds engine ctx inner →
      (OpensTogether engine ctx outer inner ↔ Opens engine ctx outer ∧ Opens engine ctx inner)

theorem holds_success : Holds engine ctx (effectiveCondition none) ↔ ctx.success = true := by
  rw [← truthy_success]
  exact holds_of_parse (parse_success _)

/-- A condition that stands alone. -/
theorem holds_alone {t : Text} {e : Expr N}
    (h : parseExpression engine.parseNumber (trimExpressionMarkers t) = .ok e) :
    (Holds engine ctx (effectiveCondition (some t)) → ctx.success = true) ↔
      (Holds engine ctx t → ctx.success = true ∨
        containsStatusCheckFunction (trimExpressionMarkers t) = false) := by
  rw [holds_effective h, holds_of_parse h]
  constructor
  · intro hgate ht
    by_cases hstatus : containsStatusCheckFunction (trimExpressionMarkers t) = true
    · exact .inl (hgate ⟨ht, .inl hstatus⟩)
    · exact .inr (Bool.not_eq_true _ ▸ hstatus)
  · rintro hgate ⟨ht, hopens⟩
    obtain hsuccess | hstatus := hgate ht
    · exact hsuccess
    · rw [Opens, hstatus] at hopens
      exact (hopens.resolve_left Bool.false_ne_true).1

/-- Lifting a job under its caller conjoins their conditions exactly if merging leaves
    the gates alone. -/
theorem lifted_conjunction_exact {outer inner : Option Text}
    (ho : Readable engine.parseNumber outer) (hi : Readable engine.parseNumber inner)
    (hvalid : validateJobCondition engine.parseNumber (mergeJobConditions outer inner) = .ok ()) :
    Conjoined engine ctx outer inner ↔ GatesAgree engine ctx outer inner := by
  unfold Conjoined
  cases outer with
  | none =>
      cases inner with
      | none => exact iff_of_true (and_self_iff.symm) trivial
      | some t =>
          obtain ⟨e, he⟩ := hi t rfl
          rw [holds_success]
          exact iff_and_self.trans (holds_alone he)
  | some t =>
      obtain ⟨l, hl⟩ := ho t rfl
      cases inner with
      | none =>
          rw [holds_success]
          exact iff_self_and.trans (holds_alone hl)
      | some t' =>
          obtain ⟨r, hr⟩ := hi t' rfl
          rw [holds_merged hl hr hvalid, holds_effective hl, holds_effective hr]
          show _ ↔ (Holds engine ctx t → Holds engine ctx t' → _)
          -- both conditions are read as they stand, and what remains is what the gates say
          rw [holds_of_parse hl, holds_of_parse hr]
          constructor
          · intro hagree ht ht'
            exact ⟨fun h => ⟨(hagree.mp ⟨ht, ht', h⟩).1.2, (hagree.mp ⟨ht, ht', h⟩).2.2⟩,
              fun h => (hagree.mpr ⟨⟨ht, h.1⟩, ht', h.2⟩).2.2⟩
          · intro hgates
            constructor
            · rintro ⟨ht, ht', h⟩
              obtain ⟨houter, hinner⟩ := (hgates ht ht').mp h
              exact ⟨⟨ht, houter⟩, ht', hinner⟩
            · rintro ⟨⟨ht, houter⟩, ht', hinner⟩
              exact ⟨ht, ht', (hgates ht ht').mpr ⟨houter, hinner⟩⟩

/-! ## A failed run -/

theorem validate_of_parse {num : Text → Option N} {t : Text} {e : Expr N}
    (h : parseExpression num (trimExpressionMarkers (effectiveCondition (some t))) = .ok e)
    (hcalls : validateFunctionCalls e = .ok ()) : validateJobCondition num (some t) = .ok () := by
  show (parseExpression num _ >>= _) = _
  rw [h]
  exact hcalls

/-- A run in which a job has failed. -/
def failedRun : Context Int := { success := false, failure := true }

/-- `always()`. -/
def alwaysText : Text := "always()".toList

/-- `true`. -/
def trueText : Text := "true".toList

/-- The tree of `always()`. -/
def alwaysCall : Expr Int := .call "always".toList []

/-- `true) || (true`. -/
def unbalancedText : Text := "true) || (true".toList

/-- The tokens of the conditions of this section, as they are written or behind their gate. -/
theorem lex_conditions :
    lex alwaysText = .ok [.ident "always".toList, .lparen, .rparen, .eof] ∧
    lex trueText = .ok [.bool true, .eof] ∧
    lex (trimExpressionMarkers (effectiveCondition (some (mergedText
      (trimExpressionMarkers alwaysText) (trimExpressionMarkers trueText))))) =
        .ok [.lparen, .ident "always".toList, .lparen, .rparen, .rparen, .and, .lparen, .bool true,
          .rparen, .eof] ∧
    lex (trimExpressionMarkers (effectiveCondition (some trueText))) =
      .ok [.ident "success".toList, .lparen, .rparen, .and, .lparen, .bool true, .rparen, .eof] ∧
    lex (trimExpressionMarkers (effectiveCondition (some unbalancedText))) =
      .ok [.ident "success".toList, .lparen, .rparen, .and, .lparen, .bool true, .rparen, .or,
        .lparen, .bool true, .rparen, .eof] := by
  refine ⟨?_, ?_, ?_, ?_, ?_⟩ <;> decide

theorem parse_always :
    parseExpression integerEngine.parseNumber (trimExpressionMarkers alwaysText) =
      .ok alwaysCall := by
  have htrim : trimExpressionMarkers alwaysText = alwaysText := by decide
  unfold parseExpression
  rw [htrim, lex_conditions.1]
  rfl

theorem parse_true :
    parseExpression integerEngine.parseNumber (trimExpressionMarkers trueText) =
      .ok (.literal (.bool true)) := by
  have htrim : trimExpressionMarkers trueText = trueText := by decide
  unfold parseExpression
  rw [htrim, lex_conditions.2.1]
  rfl

theorem readable_of_parse {num : Text → Option N} {t : Text} {e : Expr N}
    (h : parseExpression num (trimExpressionMarkers t) = .ok e) : Readable num (some t) := by
  rintro t' ⟨⟩
  exact ⟨e, h⟩

theorem validate_always_true : validateJobCondition integerEngine.parseNumber
    (mergeJobConditions (some alwaysText) (some trueText)) = .ok () := by
  have hparse : parseExpression integerEngine.parseNumber
      (trimExpressionMarkers (effectiveCondition (some (mergedText
        (trimExpressionMarkers alwaysText) (trimExpressionMarkers trueText))))) =
          .ok (.binary .and alwaysCall (.literal (.bool true))) := by
    unfold parseExpression
    rw [lex_conditions.2.2.1]
    rfl
  rw [mergeJobConditions_eq]
  exact validate_of_parse hparse rfl

/-- No conditions at all, and one with a status function beside one without. -/
theorem lifted_conjunction_exact_of_always :
    Conjoined integerEngine failedRun none none ∧
      (Conjoined integerEngine failedRun (some alwaysText) (some trueText) ↔
        GatesAgree integerEngine failedRun (some alwaysText) (some trueText)) :=
  ⟨(lifted_conjunction_exact (fun _ h => by cases h) (fun _ h => by cases h) rfl).mpr trivial,
    lifted_conjunction_exact (readable_of_parse parse_always) (readable_of_parse parse_true)
      validate_always_true⟩

/-- One status function opens the gate of the other condition as well. -/
theorem status_function_opens_both :
    Readable integerEngine.parseNumber (some alwaysText) ∧
      Readable integerEngine.parseNumber (some trueText) ∧
      validateJobCondition integerEngine.parseNumber
        (mergeJobConditions (some alwaysText) (some trueText)) = .ok () ∧
      ¬ Conjoined integerEngine failedRun (some alwaysText) (some trueText) := by
  refine ⟨readable_of_parse parse_always, readable_of_parse parse_true, validate_always_true, ?_⟩
  intro hconj
  have htogether : OpensTogether integerEngine failedRun alwaysText trueText := by
    intro l r hl hr
    rw [parse_always] at hl
    rw [parse_true] at hr
    cases hl
    cases hr
    rw [if_pos (by decide)]
    exact fun h => by cases h
  have hmerged : Holds integerEngine failedRun
      (effectiveCondition (mergeJobConditions (some alwaysText) (some trueText))) :=
    (holds_merged parse_always parse_true validate_always_true).mpr ⟨rfl, rfl, htogether⟩
  obtain hstatus | ⟨hsuccess, _⟩ := ((holds_effective parse_true).mp (hconj.mp hmerged).2).2
  · revert hstatus
    decide
  · cases hsuccess

theorem parse_gated_true : parseExpression integerEngine.parseNumber
    (trimExpressionMarkers (effectiveCondition (some trueText))) =
      .ok (.binary .and successCall (.literal (.bool true))) := by
  unfold parseExpression
  rw [lex_conditions.2.2.2.1]
  rfl

theorem accepted_true : Accepted integerEngine.parseNumber none trueText where
  text := by
    have hopen : (!Text.contains openMark trueText) = true := by decide
    have hparse : validateExpression integerEngine.parseNumber
        (effectiveCondition (some trueText)) = .ok () := by
      show (parseExpression _ _ >>= _) = _
      rw [parse_gated_true]
      rfl
    unfold validateExpressionsInString
    rw [Bool.true_and, hopen, if_pos rfl, hparse]
    rfl
  plan := validate_of_parse parse_gated_true rfl

/-- The gate of `true`. -/
theorem success_gate_exact_of_true : GateHolds integerEngine trueText := by
  refine (success_gate_exact (fun _ _ _ => spares_ok []) accepted_true (by decide)).mpr
    ⟨_, parse_true, fun ctx hsuccess _ => ?_⟩
  unfold FitsBudget evalFresh
  rw [eval_and_of_truthy (by decide) eval_success hsuccess]
  exact fun h => by cases h

/-- The tree the gate makes of the unbalanced text. -/
def unbalancedExpr : Expr Int :=
  .binary .or (.binary .and successCall (.literal (.bool true))) (.literal (.bool true))

theorem parse_unbalanced : parseExpression integerEngine.parseNumber
    (trimExpressionMarkers (effectiveCondition (some unbalancedText))) = .ok unbalancedExpr := by
  unfold parseExpression
  rw [lex_conditions.2.2.2.2]
  rfl

theorem validate_unbalanced_contexts : validateContexts integerEngine.parseNumber
    (effectiveCondition (some unbalancedText)) (some ctxJobIf) unbalancedText = .ok () := by
  have hrefs : collectExpressionReferences integerEngine.parseNumber
      (effectiveCondition (some unbalancedText)) =
        .ok { contexts := ["success".toList], functions := [⟨"success".toList, 0⟩] } := by
    unfold collectExpressionReferences
    rw [parse_unbalanced]
    rfl
  have hcontext : (["success".toList].find? fun ctx => !ctxJobIf.any (specMatches ctx)) = none := by
    decide
  have hspec : ctxJobIf.find? (specMatches "success".toList) = some "success(0,MAX)".toList := by
    decide
  have hcut : Text.cut ['('] "success(0,MAX)".toList =
      some ("success".toList, "0,MAX)".toList) := by
    decide
  have hbounds : arityBounds "0,MAX)".toList = some (0, 2 ^ 64 - 1) := by decide
  have hfunction : validateFunction ctxJobIf ⟨"success".toList, 0⟩ = .ok () :=
    validateFunction_of_bounds hspec hcut hbounds (by decide)
  refine validateContexts_of_references hrefs hcontext ?_
  show (validateFunction ctxJobIf ⟨"success".toList, 0⟩ >>= _) = _
  rw [hfunction]
  rfl

theorem accepted_unbalanced :
    Accepted integerEngine.parseNumber (some ctxJobIf) unbalancedText where
  text := by
    have hopen : (!Text.contains openMark unbalancedText) = true := by decide
    have hparse : validateExpression integerEngine.parseNumber
        (effectiveCondition (some unbalancedText)) = .ok () := by
      show (parseExpression _ _ >>= _) = _
      rw [parse_unbalanced]
      rfl
    have hstep : ∀ (f : ExpressionError → ValidationError) (x : Except ValidationError Unit),
        ((Except.ok () : Result Unit).mapError f >>= fun _ => x) = x := fun _ _ => rfl
    unfold validateExpressionsInString
    rw [Bool.true_and, hopen, if_pos rfl, hparse, hstep]
    exact validate_unbalanced_contexts
  plan := validate_of_parse parse_unbalanced rfl

/-- A parenthesis in the condition closes the gate. -/
theorem unbalanced_condition_escapes :
    Accepted integerEngine.parseNumber (some ctxJobIf) unbalancedText ∧
      containsStatusCheckFunction (trimExpressionMarkers unbalancedText) = false ∧
      ¬ GateHolds integerEngine unbalancedText := by
  refine ⟨accepted_unbalanced, by decide, ?_⟩
  intro hgate
  have hfalse := (hgate failedRun).1 rfl
  rw [evalBool_of_parse parse_unbalanced] at hfalse
  have htrue : evalFresh integerEngine failedRun unbalancedExpr = .ok (.bool true) := rfl
  rw [htrue] at hfalse
  cases hfalse

end Workflow

end Preloop
