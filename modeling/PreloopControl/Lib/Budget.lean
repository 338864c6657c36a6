import Mathlib

/-!
# Computations under a Budget

Computations that carry the amount used so far and may fail, with one error that
means the budget is exhausted. Two such computations agree if they return the
same thing whenever neither runs out, whatever each of them had used before.

The relation has two strengths, chosen by a proposition. If it holds, the two
computations are the same function of the amount used. In any case they are
`Close`: equal up to one of them being stopped by its budget. Both are kept by
sequencing (`Agree.bind`), so a proof about an evaluator goes by its recursion
and never mentions amounts.

## Main definitions

* `Budget.Close`: Equal results, or one side out of budget.
* `Budget.Agree`: Two computations that agree.
* `Budget.Steady`: A computation whose result does not depend on what was used.
* `Budget.Capped`: A function of the amount left with one result below its cap.
* `Budget.Staged`: Such a function with a least amount it needs.
* `Budget.Metered`: A computation with one result and one amount it uses.
* `Budget.Alike`: Two results that agree in the same sense.

## Theorems

* `Agree.bind`, `Agree.pure`, `Agree.throw`: The rules of sequencing.
* `Steady.agree`: A steady computation agrees with itself.
* `Staged.bind`, `Metered.bind`: The rules of sequencing for what is needed.
* `Metered.earlier`: A computation that started with less used.
-/

namespace Budget

variable {ε α β : Type} {full : ε} {same : Prop}

/-- A computation that carries the amount used so far. -/
abbrev M (ε : Type) := StateT Nat (Except ε)

/-- The same value or error, unless one side ran out. -/
def Close (full : ε) (r s : Except ε (α × Nat)) : Prop :=
  r = .error full ∨ s = .error full ∨ r.map Prod.fst = s.map Prod.fst

/-- The two computations return the same, up to running out; if `same` holds they
    are one function of the amount used. -/
def Agree (full : ε) (same : Prop) (x y : M ε α) : Prop :=
  (same → x = y) ∧ ∀ u v, Close full (x u) (y v)

/-- What was used before decides at most whether the computation runs out. -/
def Steady (full : ε) (x : M ε α) : Prop := ∀ u v, Close full (x u) (x v)

/-- Sequencing after a result. -/
theorem bind_run {x : M ε α} {f : α → M ε β} {used : Nat} {p : α × Nat} (h : x used = .ok p) :
    (x >>= f) used = f p.1 p.2 := by
  show (x used >>= fun p => f p.1 p.2) = _
  rw [h]
  rfl

theorem Steady.agree {x : M ε α} (h : Steady full x) : Agree full same x x :=
  ⟨fun _ => rfl, h⟩

theorem steady_pure (a : α) : Steady full (pure a : M ε α) := by
  intro u v
  exact .inr (.inr rfl)

theorem steady_throw (e : ε) : Steady full (throw e : M ε α) := by
  intro u v
  exact .inr (.inr rfl)

theorem steady_liftM (r : Except ε α) : Steady full (liftM r : M ε α) := by
  intro u v
  refine .inr (.inr ?_)
  cases r with
  | error e => rfl
  | ok a => rfl

theorem close_bind {r s : Except ε (α × Nat)} {f g : α → M ε β} (h : Close full r s)
    (hf : ∀ a u v, Close full (f a u) (g a v)) :
    Close full (r.bind fun p => f p.1 p.2) (s.bind fun p => g p.1 p.2) := by
  cases r with
  | error e =>
      cases s with
      | error e' =>
          -- both failed: with the same error, or one of them ran out
          simp only [Close, Except.map, Except.error.injEq] at h
          simpa only [Close, Except.bind, Except.map, Except.error.injEq] using h
      | ok q =>
          simp only [Close, Except.map, Except.error.injEq, reduceCtorEq, or_false] at h
          exact .inl (by rw [h]; rfl)
  | ok p =>
      cases s with
      | error e' =>
          simp only [Close, Except.map, Except.error.injEq, reduceCtorEq, or_false, false_or] at h
          exact .inr (.inl (by rw [h]; rfl))
      | ok q =>
          simp only [Close, Except.map, Except.ok.injEq, reduceCtorEq, false_or] at h
          have := hf p.1 p.2 q.2
          simpa only [Except.bind, ← h] using this

theorem Agree.bind {x y : M ε α} {f g : α → M ε β} (hx : Agree full same x y)
    (hf : ∀ a, Agree full same (f a) (g a)) : Agree full same (x >>= f) (y >>= g) := by
  constructor
  · intro hs
    rw [hx.1 hs, funext fun a => (hf a).1 hs]
  · intro u v
    exact close_bind (hx.2 u v) fun a => (hf a).2

theorem Agree.pure (a : α) : Agree full same (Pure.pure a : M ε α) (Pure.pure a) :=
  (steady_pure a).agree

theorem Agree.throw (e : ε) : Agree full same (MonadExcept.throw e : M ε α) (MonadExcept.throw e) :=
  (steady_throw e).agree

theorem Agree.ite {c : Prop} [Decidable c] {x y x' y' : M ε α} (h : Agree full same x y)
    (h' : Agree full same x' y') :
    Agree full same (if c then x else x') (if c then y else y') := by
  by_cases hc : c
  · simpa only [if_pos hc] using h
  · simpa only [if_neg hc] using h'

theorem Steady.bind {x : M ε α} {f : α → M ε β} (hx : Steady full x)
    (hf : ∀ a, Steady full (f a)) : Steady full (x >>= f) := by
  intro u v
  exact close_bind (hx u v) hf

theorem Steady.map {x : M ε α} (h : Steady full x) (f : α → β) : Steady full (f <$> x) := by
  exact h.bind fun a => steady_pure (f a)

theorem Steady.ite {c : Prop} [Decidable c] {x y : M ε α} (hx : Steady full x)
    (hy : Steady full y) : Steady full (if c then x else y) := by
  by_cases hc : c
  · simpa only [if_pos hc] using hx
  · simpa only [if_neg hc] using hy

/-! ## Functions of the amount left -/

/-- The amount left decides at most whether the function runs out. -/
def Capped (full : ε) (f : Nat → Except ε α) : Prop :=
  ∀ a b, f a = .error full ∨ f b = .error full ∨ f a = f b

/-- The function of the amount left has one result, once enough is left for it. -/
def Staged (full : ε) (f : Nat → Except ε α) : Prop :=
  ∃ (need : Nat) (r : Except ε α), ∀ left, f left = if need ≤ left then r else .error full

theorem Staged.const (r : Except ε α) : Staged full fun _ => r := ⟨0, r, fun _ => by simp⟩

theorem staged_ite (need : Nat) (r : Except ε α) :
    Staged full fun left => if need ≤ left then r else .error full := ⟨need, r, fun _ => rfl⟩

theorem Staged.bind {f : Nat → Except ε α} {g : α → Nat → Except ε β} (hf : Staged full f)
    (hg : ∀ x, Staged full (g x)) : Staged full fun left => f left >>= fun x => g x left := by
  obtain ⟨need, r, hf⟩ := hf
  cases r with
  | error e =>
      refine ⟨need, .error e, fun left => ?_⟩
      simp only [hf left]
      split <;> rfl
  | ok a =>
      obtain ⟨more, r, hg⟩ := hg a
      refine ⟨max need more, r, fun left => ?_⟩
      simp only [hf left, max_le_iff]
      by_cases hneed : need ≤ left
      · simp only [hneed, if_true, true_and]
        exact hg left
      · simp only [hneed, false_and, if_false]
        rfl

theorem Staged.ite {c : Prop} [Decidable c] {f g : Nat → Except ε α} (hf : Staged full f)
    (hg : Staged full g) : Staged full fun left => if c then f left else g left := by
  by_cases hc : c
  · simpa only [if_pos hc] using hf
  · simpa only [if_neg hc] using hg

/-- What is left decides at most whether the function runs out. -/
theorem Staged.capped {f : Nat → Except ε α} (hf : Staged full f) : Capped full f := by
  obtain ⟨need, r, hf⟩ := hf
  intro a b
  rw [hf a, hf b]
  by_cases ha : need ≤ a
  · by_cases hb : need ≤ b
    · exact .inr (.inr (by rw [if_pos ha, if_pos hb]))
    · exact .inr (.inl (if_neg hb))
  · exact .inl (if_neg ha)

/-- A capped function of what a budget leaves is a steady computation. -/
theorem Capped.steady {f : Nat → Except ε α} (hf : Capped full f) (limit : Nat) :
    Steady full (fun used => (f (limit - used)).map fun a => (a, used) : M ε α) := by
  intro u v
  rcases hf (limit - u) (limit - v) with h | h | h
  · exact .inl (by simp only [h]; rfl)
  · exact .inr (.inl (by simp only [h]; rfl))
  · refine .inr (.inr ?_)
    simp only [h]
    cases f (limit - v) with
    | error e => rfl
    | ok a => rfl

/-! ## Metered computations -/

/-- Within the cap the computation has one result and uses one amount for it, once enough
    is left. -/
def Metered (full : ε) (cap : Nat) (x : M ε α) : Prop :=
  ∃ (need : Nat) (r : Except ε (α × Nat)), (∀ p, r = .ok p → p.2 ≤ need) ∧
    ∀ used ≤ cap, x used =
      if used + need ≤ cap then r.map fun p => (p.1, used + p.2) else .error full

namespace Metered

variable {cap : Nat}

theorem pure (a : α) : Metered full cap (Pure.pure a : M ε α) := by
  refine ⟨0, .ok (a, 0), fun p hp => ?_, fun used hused => ?_⟩
  · cases hp
    exact Nat.le_refl 0
  · rw [Nat.add_zero, if_pos hused]
    rfl

theorem liftM (r : Except ε α) : Metered full cap (MonadLift.monadLift r : M ε α) := by
  refine ⟨0, r.map fun a => (a, 0), fun p hp => ?_, fun used hused => ?_⟩
  · cases r with
    | error e => cases hp
    | ok a =>
        cases hp
        exact Nat.le_refl 0
  · rw [Nat.add_zero, if_pos hused]
    cases r with
    | error e => rfl
    | ok a => rfl

theorem throw (e : ε) : Metered full cap (MonadExcept.throw e : M ε α) := by
  refine ⟨0, .error e, fun p hp => ?_, fun used hused => ?_⟩
  · cases hp
  · rw [Nat.add_zero, if_pos hused]
    rfl

theorem bind {x : M ε α} {f : α → M ε β} (hx : Metered full cap x)
    (hf : ∀ a, Metered full cap (f a)) : Metered full cap (x >>= f) := by
  obtain ⟨need, r, hle, hx⟩ := hx
  -- a first step that fails does so for every budget that lets it begin
  cases r with
  | error e =>
      refine ⟨need, .error e, fun p hp => ?_, fun used hused => ?_⟩
      · cases hp
      · show (x used >>= _) = _
        rw [hx used hused]
        split <;> rfl
  | ok p =>
      obtain ⟨more, r, hle', hf⟩ := hf p.1
      have hp := hle p rfl
      -- together they need what the first needs, or what is left of it and the second
      refine ⟨max need (p.2 + more), r.map fun q => (q.1, p.2 + q.2), fun q hq => ?_,
        fun used hused => ?_⟩
      · cases r with
        | error e => cases hq
        | ok q' =>
            cases hq
            have := hle' q' rfl
            show p.2 + q'.2 ≤ _
            omega
      · show (x used >>= _) = _
        rw [hx used hused]
        by_cases hneed : used + need ≤ cap
        · rw [if_pos hneed]
          show f p.1 (used + p.2) = _
          rw [hf (used + p.2) (by omega)]
          by_cases hmore : used + p.2 + more ≤ cap
          · rw [if_pos hmore, if_pos (by omega)]
            cases r with
            | error e => rfl
            | ok q => simp only [Except.map, Nat.add_assoc]
          · rw [if_neg hmore, if_neg (by omega)]
        · rw [if_neg hneed, if_neg (by omega)]
          rfl

theorem ite {c : Prop} [Decidable c] {x y : M ε α} (hx : Metered full cap x)
    (hy : Metered full cap y) : Metered full cap (if c then x else y) := by
  by_cases hc : c
  · simpa only [if_pos hc] using hx
  · simpa only [if_neg hc] using hy

theorem map {x : M ε α} (hx : Metered full cap x) (f : α → β) : Metered full cap (f <$> x) :=
  hx.bind fun a => pure (f a)

/-- Less is used before: the same result, with as much less used after. -/
theorem earlier {x : M ε α} (h : Metered full cap x) {used more : Nat} (hle : used ≤ more)
    (hcap : more ≤ cap) :
    x more = .error full ∨ ∃ r : Except ε (α × Nat),
      x used = r.map (fun p => (p.1, used + p.2)) ∧ x more =
        r.map (fun p => (p.1, more + p.2)) := by
  obtain ⟨need, r, -, hx⟩ := h
  by_cases hneed : more + need ≤ cap
  · refine .inr ⟨r, ?_, ?_⟩
    · rw [hx used (hle.trans hcap), if_pos (by omega)]
    · rw [hx more hcap, if_pos hneed]
  · exact .inl (by rw [hx more hcap, if_neg hneed])

/-- A result stays within the cap. -/
theorem bounded {x : M ε α} (h : Metered full cap x) {used n : Nat} (hused : used ≤ cap) {a : α}
    (hx : x used = .ok (a, n)) : used ≤ n ∧ n ≤ cap := by
  obtain ⟨need, r, hle, hrun⟩ := h
  rw [hrun used hused] at hx
  by_cases hneed : used + need ≤ cap
  · rw [if_pos hneed] at hx
    cases r with
    | error e => cases hx
    | ok p =>
        cases hx
        have := hle p rfl
        omega
  · rw [if_neg hneed] at hx
    cases hx

end Metered

/-- A staged function of what a budget leaves is metered. -/
theorem Staged.metered {f : Nat → Except ε α} (hf : Staged full f) (cap : Nat) :
    Metered full cap (fun used => (f (cap - used)).map fun a => (a, used) : M ε α) := by
  obtain ⟨need, r, hf⟩ := hf
  refine ⟨need, r.map fun a => (a, 0), fun p hp => ?_, fun used hused => ?_⟩
  · cases r with
    | error e => cases hp
    | ok a =>
        cases hp
        exact Nat.zero_le need
  · simp only [hf]
    by_cases hneed : used + need ≤ cap
    · rw [if_pos (by omega : need ≤ cap - used), if_pos hneed]
      cases r with
      | error e => rfl
      | ok a => rfl
    · rw [if_neg (by omega : ¬ need ≤ cap - used), if_neg hneed]
      rfl

/-! ## Results -/

/-- Two results that agree: equal if `same` holds, and up to running out in any
    case. -/
def Alike (full : ε) (same : Prop) (r r' : Except ε α) : Prop :=
  (same → r = r') ∧ (r = .error full ∨ r' = .error full ∨ r = r')

theorem Alike.refl (r : Except ε α) : Alike full same r r := ⟨fun _ => rfl, .inr (.inr rfl)⟩

/-- Computations that agree have results that do. -/
theorem Agree.alike {x y : M ε α} (h : Agree full same x y) (u : Nat) :
    Alike full same ((x u).map Prod.fst) ((y u).map Prod.fst) := by
  constructor
  · intro hs
    rw [h.1 hs]
  · rcases h.2 u u with h | h | h
    · exact .inl (by rw [h]; rfl)
    · exact .inr (.inl (by rw [h]; rfl))
    · exact .inr (.inr h)

theorem Alike.bind {r r' : Except ε α} {f g : α → Except ε β} (h : Alike full same r r')
    (hf : ∀ a, Alike full same (f a) (g a)) : Alike full same (r >>= f) (r' >>= g) := by
  constructor
  · intro hs
    rw [h.1 hs, funext fun a => (hf a).1 hs]
  · rcases h.2 with h | h | h
    · exact .inl (by rw [h]; rfl)
    · exact .inr (.inl (by rw [h]; rfl))
    · rw [h]
      cases r' with
      | error e => exact .inr (.inr rfl)
      | ok a => exact (hf a).2

theorem Alike.mapError {δ : Type} {r r' : Except ε α} (h : Alike full same r r') (f : ε → δ) :
    Alike (f full) same (r.mapError f) (r'.mapError f) := by
  constructor
  · intro hs
    rw [h.1 hs]
  · rcases h.2 with h | h | h
    · exact .inl (by rw [h]; rfl)
    · exact .inr (.inl (by rw [h]; rfl))
    · exact .inr (.inr (by rw [h]))

end Budget
