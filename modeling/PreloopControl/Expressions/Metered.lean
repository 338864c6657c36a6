import PreloopControl.Expressions.Depth
import PreloopControl.Lib.Budget

/-!
# The Evaluator under its Budget

What was used before an expression is evaluated decides at most whether the budget
runs out on the way. Each function that looks at the remaining budget gives up below
some amount and returns one result from there on, and sequencing keeps that. So an
expression has one value and one cost.

## Theorems

* `metered_callFunction`: The functions of `eval_call`.
* `metered_eval`: Evaluating an expression.
* `eval_later`, `evalFresh_of_later`: An expression after something was used.
-/

namespace Preloop

namespace Expressions

open Budget Fallible

variable {N F α : Type} {engine : Engine N F}

/-! ## Functions of what remains -/

theorem staged_pushEvaluation (output segment : Text) :
    Staged tooLarge fun r => pushEvaluationCapped r output segment := by
  unfold pushEvaluationCapped
  by_cases hempty : Text.utf8Len segment = 0
  · simp only [hempty, Nat.not_lt_zero, if_false]
    exact .const _
  · refine ⟨Text.utf8Len output + Text.utf8Len segment, .ok (output ++ segment), fun left => ?_⟩
    by_cases hleft : Text.utf8Len output + Text.utf8Len segment ≤ left
    · rw [if_pos hleft]
      exact if_neg (by omega)
    · rw [if_neg hleft]
      exact if_pos (by omega)

theorem staged_pushFormat (output segment : Text) :
    Staged tooLarge fun r => pushFormatCapped r output segment := by
  unfold pushFormatCapped
  exact .ite (.const _) (staged_pushEvaluation output segment)

theorem staged_stringValue (v : Value N) (spent : Nat) :
    Staged tooLarge fun r => stringValueBounded engine v (r - spent) tooLarge := by
  unfold stringValueBounded
  refine .ite (.const _) ?_
  by_cases hempty : Text.utf8Len (engine.jsonText v) = 0
  · simp only [hempty, Nat.zero_le, if_true]
    exact .const _
  · refine ⟨spent + Text.utf8Len (engine.jsonText v), .ok (engine.jsonText v), fun left => ?_⟩
    by_cases hleft : spent + Text.utf8Len (engine.jsonText v) ≤ left
    · rw [if_pos hleft]
      exact if_pos (by omega)
    · rw [if_neg hleft]
      exact if_neg (by omega)

theorem staged_formatLoop (format : Text) (values : List (Value N)) (n : Nat) :
    ∀ output segment t : Text,
      Staged tooLarge fun r => formatLoop engine format values r n output segment t := by
  induction n with
  | zero =>
      intro output segment t
      exact staged_pushFormat output segment
  | succ n ih =>
      intro output segment t
      cases t with
      | nil => exact staged_pushFormat output segment
      | cons c t =>
          unfold formatLoop
          refine .ite ?_ (.ite ?_ (ih _ _ _))
          · refine .bind (staged_pushFormat output segment) fun output => ?_
            refine .ite ?_ ?_
            · exact .bind (staged_pushFormat output _) fun output => ih _ _ _
            · cases placeholder values t with
              | none => exact .const _
              | some p =>
                  refine .bind (.const _) fun rendered => ?_
                  exact .bind (staged_pushFormat output rendered) fun output => ih _ _ _
          · refine .bind (staged_pushFormat output segment) fun output => ?_
            refine .ite ?_ (.const _)
            exact .bind (staged_pushFormat output _) fun output => ih _ _ _

theorem staged_formatArgs (values : List (Value N)) :
    Staged tooLarge (formatArgs engine values) := by
  unfold formatArgs
  exact .bind (.const _) fun format => staged_formatLoop format values _ _ _ _

theorem staged_joinRest (separator : Text) (vs : List (Value N)) :
    ∀ output : Text, Staged tooLarge fun r => joinRest engine separator r output vs := by
  induction vs with
  | nil =>
      intro output
      exact .const _
  | cons v vs ih =>
      intro output
      unfold joinRest
      refine .bind (staged_pushEvaluation output separator) fun output => ?_
      refine .bind (staged_stringValue v _) fun rendered => ?_
      exact .bind (staged_pushEvaluation output rendered) fun output => ih output

theorem staged_joinSeparator (values : List (Value N)) :
    Staged tooLarge (joinSeparator engine values) := by
  unfold joinSeparator
  cases values[1]? with
  | none => exact .const _
  | some v => exact .ite (staged_stringValue v 0) (.const _)

theorem staged_joinItems (separator : Text) (operand : Option (Value N)) :
    Staged tooLarge fun r => joinItems engine separator r operand := by
  have hone : ∀ v : Value N, Staged tooLarge fun r =>
      (if isPrimitive v then do
        let rendered ← stringValueBounded engine v r tooLarge
        pushEvaluationCapped r [] rendered
      else .ok [] : Result Text) := fun v =>
    .ite (.bind (staged_stringValue v 0) fun rendered => staged_pushEvaluation [] rendered)
      (.const _)
  cases operand with
  | none => exact .const _
  | some v =>
      cases v with
      | array items =>
          cases items with
          | nil => exact .const _
          | cons v vs =>
              refine .bind (staged_stringValue v 0) fun rendered => ?_
              exact .bind (staged_pushEvaluation [] rendered) fun output =>
                staged_joinRest separator vs output
      | null => exact hone .null
      | bool b => exact hone (.bool b)
      | number n => exact hone (.number n)
      | string s => exact hone (.string s)
      | object fields => exact hone (.object fields)

theorem staged_joinArgs (values : List (Value N)) : Staged tooLarge (joinArgs engine values) := by
  unfold joinArgs
  exact .bind (staged_joinSeparator values) fun separator => staged_joinItems separator _

theorem staged_toJsonPretty (value : Value N) : Staged tooLarge (toJsonPretty engine value) := by
  unfold toJsonPretty
  exact staged_ite _ _

/-! ## The evaluator -/

/-- A computation with one result and one cost. -/
abbrev Priced (x : EvalM α) : Prop := Metered tooLarge maxEvaluatedValueBytes x

theorem metered_charge (value : Value N) : Priced (charge value) := by
  refine ⟨valueSize value, .ok ((), valueSize value), fun p hp => ?_, fun used _ => ?_⟩
  · cases hp
    exact Nat.le_refl _
  · unfold charge
    by_cases hsize : used + valueSize value ≤ maxEvaluatedValueBytes
    · rw [if_pos hsize, if_neg (Nat.not_lt.mpr hsize)]
      rfl
    · rw [if_neg hsize, if_pos (Nat.not_le.mp hsize)]

theorem metered_withRemaining {f : Nat → Result α} (hf : Staged tooLarge f) :
    Priced (withRemaining f) := hf.metered maxEvaluatedValueBytes

theorem metered_enterEval (depth : Nat) : Priced (enterEval depth) := .ite (.throw _) (.pure _)

/-- A function of the arguments reads the budget at most to give up. -/
theorem metered_callFunction (name : Text) (values : List (Value N)) (ctx : Context N) :
    Priced (callFunction engine name values ctx) := by
  unfold callFunction
  refine .ite (.pure _) (.ite (.pure _) (.ite (.pure _) (.ite (.pure _) ?_)))
  refine .ite (.pure _) (.ite (.pure _) (.ite (.pure _) ?_))
  refine .ite ((metered_withRemaining (staged_formatArgs values)).map _) ?_
  refine .ite (metered_withRemaining (.const _)) ?_
  refine .ite ((metered_withRemaining (staged_joinArgs values)).map _) ?_
  refine .ite ((metered_withRemaining (.const _)).map _) ?_
  exact .ite ((metered_withRemaining (staged_toJsonPretty _)).map _) (.throw _)

theorem stepwise_metered (ctx : Context N) : Stepwise engine ctx fun {_} x => Priced x where
  pure := .pure
  bind hx hf := hx.bind hf
  charge := metered_charge
  arity _ _ := .liftM _
  call name values := metered_callFunction name values ctx
  predicate := .throw _

/-- An expression has one value and one cost. -/
theorem metered_eval (ctx : Context N) (depth : Nat) (e : Expr N) :
    Priced (eval engine ctx depth e) :=
  (stepwise_metered ctx).eval e depth fun d _ _ => metered_enterEval d

/-! ## Evaluation on a used budget -/

variable {ctx : Context N}

theorem charge_cases (v : Value N) (used : Nat) :
    charge v used = .error tooLarge ∨ charge v used = .ok ((), used + valueSize v) := by
  unfold charge
  split
  · exact .inl rfl
  · exact .inr rfl

theorem charged_ok {x : EvalM (Value N)} {used n : Nat} {v : Value N}
    (h : charged x used = .ok (v, n)) : ∃ m, x used = .ok (v, m) ∧ charge v m = .ok ((), n) := by
  obtain ⟨⟨w, m⟩, hx, h⟩ := bind_eq_ok h
  obtain ⟨⟨⟨⟩, k⟩, hc, h⟩ := bind_eq_ok h
  cases h
  exact ⟨m, hx, hc⟩

theorem evalFresh_ok {e : Expr N} {v : Value N} (h : evalFresh engine ctx e = .ok v) :
    ∃ n, eval engine ctx 0 e 0 = .ok (v, n) := by
  obtain ⟨⟨w, n⟩, hrun, rfl⟩ := map_eq_ok h
  exact ⟨n, hrun⟩

/-- What a tree returns after something was used, it returns on a fresh budget. -/
theorem evalFresh_of_later {e : Expr N} {v : Value N} {used n : Nat}
    (hused : used ≤ maxEvaluatedValueBytes) (h : eval engine ctx 0 e used = .ok (v, n)) :
    evalFresh engine ctx e = .ok v := by
  obtain hfull | ⟨r, hr, hr'⟩ := (metered_eval ctx 0 e).earlier (Nat.zero_le used) hused
  · rw [hfull] at h
    cases h
  · rw [hr'] at h
    obtain ⟨p, rfl, hp⟩ := map_eq_ok h
    cases hp
    unfold evalFresh
    rw [hr]
    rfl

/-- On a fresh budget, or after something was used: the same value, unless that is too
    much. -/
theorem eval_later {e : Expr N} {v : Value N} {used : Nat}
    (hused : used ≤ maxEvaluatedValueBytes) (h : evalFresh engine ctx e = .ok v) :
    eval engine ctx 0 e used = .error tooLarge ∨ ∃ n, eval engine ctx 0 e used = .ok (v, n) := by
  obtain hfull | ⟨r, hr, hr'⟩ := (metered_eval ctx 0 e).earlier (Nat.zero_le used) hused
  · exact .inl hfull
  · unfold evalFresh at h
    rw [hr] at h
    obtain ⟨p, hp, rfl⟩ := map_eq_ok h
    obtain ⟨q, rfl, rfl⟩ := map_eq_ok hp
    exact .inr ⟨_, hr'⟩

end Expressions

end Preloop
