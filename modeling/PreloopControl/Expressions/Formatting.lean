import PreloopControl.Expressions.Calls
import PreloopControl.Expressions.Metered
import PreloopControl.Expressions.Reading

/-!
# The Function `format`

`format` undoes the escapes of its first argument and puts the other arguments in the
place of their numbers. What can go wrong with an escaped text is a limit: on the size
of the output, on the size of all values, or on the number of arguments.

## Main definitions

* `IsLimit`, `Limited`: A limit, and a computation that at most meets one.
* `escapeBrace`, `formatItem`: A character, and the place of an argument.
* `Renders`: A format string that stands for a text.

## Theorems

* `renders_literal`, `renders_item`: The pieces of a format string.
* `evalFresh_format`: The value of the call.
-/

namespace Preloop

namespace Expressions

open Budget Fallible

variable {N F α β : Type} {engine : Engine N F} {ctx : Context N}

/-! ## Limits -/

/-- A limit on sizes or on the number of arguments of `format`. -/
def IsLimit (e : ExpressionError) : Prop :=
  e = tooLarge ∨ e = formatTooLarge ∨ ∃ n, e = .invalidFunctionArity formatName 1 255 n

/-- The computation returns the value, or it meets a limit. -/
def Limited (a : α) (r : Result α) : Prop := r = .ok a ∨ ∃ e, IsLimit e ∧ r = .error e

theorem limited_ok (a : α) : Limited a (.ok a) := .inl rfl

theorem limited_tooLarge (a : α) : Limited a (.error tooLarge) := .inr ⟨_, .inl rfl, rfl⟩

theorem limited_formatTooLarge (a : α) : Limited a (.error formatTooLarge) :=
  .inr ⟨_, .inr (.inl rfl), rfl⟩

theorem Limited.bind {a : α} {b : β} {r : Result α} {f : α → Result β} (h : Limited a r)
    (hf : Limited b (f a)) : Limited b (r >>= f) := by
  obtain rfl | ⟨e, he, rfl⟩ := h
  · exact hf
  · exact .inr ⟨e, he, rfl⟩

theorem Limited.map {a : α} {r : Result α} (h : Limited a r) (f : α → β) :
    Limited (f a) (r.map f) := by
  obtain rfl | ⟨e, he, rfl⟩ := h
  · exact limited_ok _
  · exact .inr ⟨e, he, rfl⟩

theorem Limited.eq_of_ok {a b : α} {r : Result α} (h : Limited a r) (hr : r = .ok b) : b = a := by
  obtain rfl | ⟨e, _, rfl⟩ := h
  · cases hr
    rfl
  · cases hr

theorem limited_pushFormat (remaining : Nat) (output segment : Text) :
    Limited (output ++ segment) (pushFormatCapped remaining output segment) := by
  unfold pushFormatCapped pushEvaluationCapped
  split
  · exact limited_formatTooLarge _
  · split
    · exact limited_tooLarge _
    · exact limited_ok _

theorem limited_stringValue (value : Value N) (limit : Nat) :
    Limited (stringValue engine value) (stringValueBounded engine value limit formatTooLarge) := by
  have hjson : ∀ t : Text,
      Limited t (if Text.utf8Len t ≤ limit then .ok t else .error formatTooLarge) := by
    intro t
    by_cases ht : Text.utf8Len t ≤ limit
    · rw [if_pos ht]
      exact limited_ok t
    · rw [if_neg ht]
      exact limited_formatTooLarge t
  cases value with
  | array items => exact hjson _
  | object fields => exact hjson _
  | _ => exact limited_ok _

/-! ## Format strings -/

/-- A literal character of a format string. -/
def escapeBrace (c : Char) : Text :=
  if c = lbrace then [lbrace, lbrace] else if c = rbrace then [rbrace, rbrace] else [c]

/-- The place of an argument. -/
def formatItem (i : Nat) : Text := lbrace :: (Nat.toDigits 10 i ++ [rbrace])

/-- In front of what the loop has done, the rest of a format string stands for a text. -/
def Renders (engine : Engine N F) (values : List (Value N)) (text x : Text) : Prop :=
  ∀ (format : Text) (remaining n : Nat) (output segment : Text), text.length ≤ n →
    Limited (output ++ segment ++ x)
      (formatLoop engine format values remaining n output segment text)

variable {values : List (Value N)} {text x : Text}

theorem renders_nil : Renders engine values [] [] := by
  intro format remaining n output segment _
  rw [List.append_nil]
  cases n with
  | zero => exact limited_pushFormat remaining output segment
  | succ n => exact limited_pushFormat remaining output segment

/-- A literal character stands for itself. -/
theorem renders_escaped (h : Renders engine values text x) (c : Char) :
    Renders engine values (escapeBrace c ++ text) (c :: x) := by
  intro format remaining n output segment hn
  have hbraces : lbrace ≠ rbrace := by decide
  -- a brace is doubled, so it is read as one character and the literal goes on
  unfold escapeBrace at hn ⊢
  by_cases hl : c = lbrace
  · subst hl
    rw [if_pos rfl] at hn ⊢
    simp only [List.length_append, List.length_cons, List.length_nil] at hn
    obtain ⟨n, rfl⟩ : ∃ j, n = j + 1 := ⟨n - 1, by omega⟩
    refine (limited_pushFormat remaining output segment).bind ?_
    refine (limited_pushFormat remaining _ [lbrace]).bind ?_
    have hrest := h format remaining n (output ++ segment ++ [lbrace]) [] (by omega)
    simpa using hrest
  · by_cases hr : c = rbrace
    · subst hr
      rw [if_neg hl, if_pos rfl] at hn ⊢
      simp only [List.length_append, List.length_cons, List.length_nil] at hn
      obtain ⟨n, rfl⟩ : ∃ j, n = j + 1 := ⟨n - 1, by omega⟩
      refine (limited_pushFormat remaining output segment).bind ?_
      refine (limited_pushFormat remaining _ [rbrace]).bind ?_
      have hrest := h format remaining n (output ++ segment ++ [rbrace]) [] (by omega)
      simpa using hrest
    · rw [if_neg hl, if_neg hr] at hn ⊢
      simp only [List.length_append, List.length_cons, List.length_nil] at hn
      obtain ⟨n, rfl⟩ : ∃ j, n = j + 1 := ⟨n - 1, by omega⟩
      show Limited _ (formatLoop engine format values remaining (n + 1) output segment (c :: text))
      rw [formatLoop, if_neg hl, if_neg hr]
      have hrest := h format remaining n output (segment ++ [c]) (by omega)
      simpa using hrest

/-- A literal stands for itself. -/
theorem renders_literal (h : Renders engine values text x) (literal : Text) :
    Renders engine values (literal.flatMap escapeBrace ++ text) (literal ++ x) := by
  induction literal with
  | nil => exact h
  | cons c literal ih =>
      have hstep := renders_escaped ih c
      rw [List.flatMap_cons, List.append_assoc]
      exact hstep

/-- The digits of a number are read back. -/
theorem digitsValue_toDigits (i : Nat) :
    digitsValue 10 decimalDigit (Nat.toDigits 10 i) = some i := by
  have hfold : ∀ (ds : Text), (∀ c ∈ ds, c.isDigit = true) → ∀ acc : Nat,
      ds.foldlM (fun acc c => (decimalDigit c).map (acc * 10 + ·)) acc =
        some (Nat.ofDigitChars 10 ds acc) := by
    intro ds
    induction ds with
    | nil => intro _ acc; rfl
    | cons c ds ih =>
        intro hds acc
        have hc : decimalDigit c = some (c.toNat - '0'.toNat) := if_pos (hds c List.mem_cons_self)
        rw [List.foldlM_cons, hc, Nat.ofDigitChars_cons, Nat.mul_comm 10 acc]
        exact ih (fun d hd => hds d (List.mem_cons_of_mem _ hd)) _
  unfold digitsValue
  rw [if_neg Nat.toDigits_ne_nil, hfold _ (fun c hc =>
    Nat.isDigit_of_mem_toDigits (by decide) (by decide) hc), Nat.ofDigitChars_ten_toDigits]

theorem placeholder_item {i : Nat} {v : Value N} (hi : i < 256) (hv : values[i + 1]? = some v)
    (text : Text) :
    placeholder values (Nat.toDigits 10 i ++ rbrace :: text) = some (v, text) := by
  have hdigits : ∀ c ∈ Nat.toDigits 10 i, c.isDigit = true := fun c hc =>
    Nat.isDigit_of_mem_toDigits (by decide) (by decide) hc
  have hbrace : rbrace.isDigit = false := by decide
  have htake : (Nat.toDigits 10 i ++ rbrace :: text).takeWhile Char.isDigit =
      Nat.toDigits 10 i := by
    rw [List.takeWhile_append_of_pos hdigits, List.takeWhile_cons, hbrace]
    simp
  have hdrop : (Nat.toDigits 10 i ++ rbrace :: text).dropWhile Char.isDigit = rbrace :: text := by
    rw [List.dropWhile_append_of_pos hdigits, List.dropWhile_cons, hbrace]
    simp
  have hindex : (some i).filter (fun n => decide (n < 256)) = some i := by
    simp [Option.filter, hi]
  unfold placeholder
  rw [hdrop, htake, digitsValue_toDigits]
  dsimp only
  rw [if_pos rfl, hindex, Option.bind_some, hv]
  rfl

/-- A number stands for its argument. -/
theorem renders_item (h : Renders engine values text x) {i : Nat} {v : Value N} (hi : i < 256)
    (hv : values[i + 1]? = some v) :
    Renders engine values (formatItem i ++ text) (stringValue engine v ++ x) := by
  intro format remaining n output segment hn
  have htext : formatItem i ++ text = lbrace :: (Nat.toDigits 10 i ++ rbrace :: text) := by
    simp [formatItem]
  have hhead : (Nat.toDigits 10 i ++ rbrace :: text).head? ≠ some lbrace := by
    cases hd : Nat.toDigits 10 i with
    | nil => exact absurd hd Nat.toDigits_ne_nil
    | cons c ds =>
        have hc : c.isDigit = true :=
          Nat.isDigit_of_mem_toDigits (by decide) (by decide) (hd ▸ List.mem_cons_self)
        rintro heq
        cases heq
        exact absurd hc (by decide)
  rw [htext] at hn ⊢
  simp only [List.length_append, List.length_cons] at hn
  obtain ⟨n, rfl⟩ : ∃ j, n = j + 1 := ⟨n - 1, by omega⟩
  rw [formatLoop, if_pos rfl]
  refine (limited_pushFormat remaining output segment).bind ?_
  rw [if_neg hhead, placeholder_item hi hv]
  refine (limited_stringValue v _).bind ?_
  refine (limited_pushFormat remaining (output ++ segment) (stringValue engine v)).bind ?_
  have hrest := h format remaining n (output ++ segment ++ stringValue engine v) [] (by omega)
  simpa using hrest

theorem limited_formatArgs {format : Text} {vs : List (Value N)}
    (h : Renders engine (.string format :: vs) format x) (remaining : Nat) :
    Limited x (formatArgs engine (.string format :: vs) remaining) :=
  h format remaining format.length [] [] (Nat.le_refl _)

/-! ## The call -/

/-- The computation returns the value within the budget, or it meets a limit. -/
def LimitedRun (a : α) (x : EvalM α) : Prop :=
  ∀ used, used ≤ maxEvaluatedValueBytes →
    (∃ n, n ≤ maxEvaluatedValueBytes ∧ x used = .ok (a, n)) ∨ ∃ e, IsLimit e ∧ x used = .error e

theorem LimitedRun.bind {a : α} {b : β} {x : EvalM α} {f : α → EvalM β} (h : LimitedRun a x)
    (hf : LimitedRun b (f a)) : LimitedRun b (x >>= f) := by
  intro used hused
  obtain ⟨n, hn, hx⟩ | ⟨e, he, hx⟩ := h used hused
  · rw [bind_run hx]
    exact hf n hn
  · refine .inr ⟨e, he, ?_⟩
    show (x used >>= _) = _
    rw [hx]
    rfl

theorem limitedRun_pure (a : α) : LimitedRun a (Pure.pure a : EvalM α) :=
  fun used hused => .inl ⟨used, hused, rfl⟩

theorem limitedRun_charge (value : Value N) : LimitedRun () (charge value) := by
  intro used _
  unfold charge
  by_cases hsize : maxEvaluatedValueBytes < used + valueSize value
  · rw [if_pos hsize]
    exact .inr ⟨tooLarge, .inl rfl, rfl⟩
  · rw [if_neg hsize]
    exact .inl ⟨_, Nat.le_of_not_lt hsize, rfl⟩

theorem Limited.lift {a : α} {r : Result α} (h : Limited a r) : LimitedRun a (r : EvalM α) := by
  intro used hused
  obtain rfl | ⟨e, he, rfl⟩ := h
  · exact .inl ⟨used, hused, rfl⟩
  · exact .inr ⟨e, he, rfl⟩

theorem limitedRun_withRemaining {a : α} {f : Nat → Result α} (h : ∀ n, Limited a (f n)) :
    LimitedRun a (withRemaining f) := by
  intro used hused
  unfold withRemaining
  obtain hf | ⟨e, he, hf⟩ := h (maxEvaluatedValueBytes - used)
  · exact .inl ⟨used, hused, by rw [hf]; rfl⟩
  · exact .inr ⟨e, he, by rw [hf]; rfl⟩

theorem LimitedRun.map {a : α} {x : EvalM α} (h : LimitedRun a x) (f : α → β) :
    LimitedRun (f a) (f <$> x) := by
  rw [map_eq_pure_bind]
  exact h.bind (limitedRun_pure _)

theorem LimitedRun.charged {value : Value N} {x : EvalM (Value N)} (h : LimitedRun value x) :
    LimitedRun value (charged x) :=
  h.bind ((limitedRun_charge value).bind (limitedRun_pure value))

/-- Arguments that have values have them after something was used, up to the limits. -/
theorem limitedRun_evalArgs {es : List (Expr N)} {vs : List (Value N)}
    (h : List.Forall₂ (fun e v => evalFresh engine ctx e = .ok v) es vs) :
    LimitedRun vs (evalArgs engine ctx 0 es) := by
  induction h with
  | nil => exact limitedRun_pure []
  | @cons e v es vs he _ ih =>
      have hfirst : LimitedRun v (eval engine ctx 0 e) := by
        intro used hused
        obtain hfull | ⟨n, hn⟩ := eval_later hused he
        · exact .inr ⟨tooLarge, .inl rfl, hfull⟩
        · exact .inl ⟨n, ((metered_eval ctx 0 e).bounded hused hn).2, hn⟩
      exact hfirst.bind (ih.bind (limitedRun_pure (v :: vs)))

/-- The values of arguments are their values on a fresh budget. -/
theorem evalFresh_of_evalArgs (es : List (Expr N)) :
    ∀ {vs : List (Value N)} {used n : Nat}, used ≤ maxEvaluatedValueBytes →
      evalArgs engine ctx 0 es used = .ok (vs, n) →
      List.Forall₂ (fun e v => evalFresh engine ctx e = .ok v) es vs := by
  induction es with
  | nil =>
      intro vs used n _ h
      cases h
      exact .nil
  | cons e es ih =>
      intro vs used n hused h
      obtain ⟨⟨v, m⟩, he, h⟩ := bind_eq_ok h
      obtain ⟨⟨rest, k⟩, hrest, h⟩ := bind_eq_ok h
      cases h
      have hcap := ((metered_eval ctx 0 e).bounded hused he).2
      exact .cons (evalFresh_of_later hused he) (ih hcap hrest)

/-- The call evaluates its arguments from the top and formats them. -/
theorem eval_format {format : Text} {es : List (Expr N)}
    (hdepth : exprDepth (.call formatName (.literal (.string format) :: es)) ≤ maxExpressionDepth) :
    eval engine ctx 0 (.call formatName (.literal (.string format) :: es)) = charged (do
      (validateFunctionArity formatName (es.length + 1) : Result Unit)
      charge (.string format : Value N)
      let vs ← evalArgs engine ctx 0 es
      .string <$> withRemaining (formatArgs engine (.string format :: vs))) := by
  simp only [exprDepth, argsDepth] at hdepth
  have henter : enterEval 0 = Pure.pure () := enterEval_within (by decide)
  have henter' : enterEval (0 + 1) = Pure.pure () := enterEval_within (by decide)
  have hcase : ¬ formatName.map Char.toLower = "case".toList := by decide
  have hcall : ∀ vs, callFunction engine formatName (.string format :: vs) ctx =
      .string <$> withRemaining (formatArgs engine (.string format :: vs)) := fun _ => rfl
  simp only [eval, henter, pure_bind, if_neg hcase, evalArgs, henter', List.length_cons, bind_assoc,
    hcall]
  rw [evalArgs_depth ctx es (0 + 1) 0 (by omega) (by omega)]

theorem arity_format (n : Nat) : validateFunctionArity formatName (n + 1) =
    if n < 255 then .ok () else .error (.invalidFunctionArity formatName 1 255 (n + 1)) := by
  have hcase : ¬ formatName.map Char.toLower = "case".toList := by decide
  unfold validateFunctionArity
  rw [show functionArity (formatName.map Char.toLower) = some (1, 255) from rfl]
  dsimp only
  rw [decide_eq_false hcase]
  by_cases hn : n < 255
  · rw [if_pos hn, Bool.false_and, if_neg Bool.false_ne_true, if_pos (by simp; omega)]
  · rw [if_neg hn, Bool.false_and, if_neg Bool.false_ne_true, if_neg (by simp; omega)]

theorem LimitedRun.fresh {value : Value N} {e : Expr N}
    (h : LimitedRun value (eval engine ctx 0 e)) : Limited value (evalFresh engine ctx e) := by
  unfold evalFresh
  obtain ⟨n, _, hrun⟩ | ⟨e, he, hrun⟩ := h 0 (Nat.zero_le _)
  · rw [hrun]
    exact limited_ok value
  · rw [hrun]
    exact .inr ⟨e, he, rfl⟩

/-- The call of `format` on a format string that stands for a text. -/
theorem evalFresh_format {format x : Text} {es : List (Expr N)} {vs : List (Value N)}
    (hdepth : exprDepth (.call formatName (.literal (.string format) :: es)) ≤ maxExpressionDepth)
    (h : List.Forall₂ (fun e v => evalFresh engine ctx e = .ok v) es vs)
    (hformat : es.length < 255 → Renders engine (.string format :: vs) format x) :
    Limited (.string x)
      (evalFresh engine ctx (.call formatName (.literal (.string format) :: es))) := by
  apply LimitedRun.fresh
  rw [eval_format hdepth]
  refine LimitedRun.charged ?_
  by_cases hlen : es.length < 255
  · have harity : Limited () (validateFunctionArity formatName (es.length + 1)) := by
      rw [arity_format, if_pos hlen]
      exact limited_ok ()
    refine harity.lift.bind ((limitedRun_charge _).bind ((limitedRun_evalArgs h).bind ?_))
    exact (limitedRun_withRemaining (limited_formatArgs (hformat hlen))).map _
  · -- too many arguments: the value of the call does not matter
    have harity : validateFunctionArity formatName (es.length + 1) =
        .error (.invalidFunctionArity formatName 1 255 (es.length + 1)) := by
      rw [arity_format, if_neg hlen]
    intro used _
    refine .inr ⟨_, .inr (.inr ⟨es.length + 1, rfl⟩), ?_⟩
    rw [harity]
    rfl

/-- If the call has a value, its arguments have. -/
theorem evalFresh_of_format {format : Text} {es : List (Expr N)} {w : Value N}
    (hdepth : exprDepth (.call formatName (.literal (.string format) :: es)) ≤ maxExpressionDepth)
    (h : evalFresh engine ctx (.call formatName (.literal (.string format) :: es)) = .ok w) :
    ∃ vs, List.Forall₂ (fun e v => evalFresh engine ctx e = .ok v) es vs := by
  obtain ⟨n, hrun⟩ := evalFresh_ok h
  rw [eval_format hdepth] at hrun
  obtain ⟨m, hrun, _⟩ := charged_ok hrun
  obtain ⟨⟨_, n1⟩, harity, hrun⟩ := bind_eq_ok hrun
  obtain ⟨⟨_, n2⟩, hcharge, hrun⟩ := bind_eq_ok hrun
  obtain ⟨⟨vs, n3⟩, hargs, _⟩ := bind_eq_ok hrun
  have harity' : Priced (MonadLift.monadLift (validateFunctionArity formatName (es.length + 1)) :
      EvalM Unit) := .liftM _
  have hn1 := (harity'.bounded (Nat.zero_le _) harity).2
  have hn2 := ((metered_charge (.string format : Value N)).bounded hn1 hcharge).2
  exact ⟨vs, evalFresh_of_evalArgs es hn2 hargs⟩

end Expressions

end Preloop
