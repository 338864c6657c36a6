import Mathlib

/-!
# Fallible Computations

What is known of the parts of a computation that returned a result. Each lemma
takes one layer off, so that a proof follows the `do` block it is about.

## Theorems

* `map_ok_iff`, `bind_ok_iff`, `mapError_ok_iff`: A result of two steps.
* `exists_of_mem_mapM`: A result of a pass over a list.
* `foldlM_keeps`: What every step of a fold keeps.
* `mapM_map_ok`: A pass that undoes another one.
-/

namespace Fallible

variable {ε α β : Type} {b : β}

theorem map_eq_ok {r : Except ε α} {f : α → β} (h : r.map f = .ok b) :
    ∃ a, r = .ok a ∧ f a = b := by
  cases r with
  | error e => cases h
  | ok a => exact ⟨a, rfl, by simpa [Except.map] using h⟩

theorem bind_eq_ok {x : Except ε α} {f : α → Except ε β}
    (h : (x >>= f) = .ok b) : ∃ a, x = .ok a ∧ f a = .ok b := by
  cases x with
  | error e => cases h
  | ok a => exact ⟨a, rfl, h⟩

theorem map_ok_iff {r : Except ε α} {f : α → β} : r.map f = .ok b ↔ ∃ a, r = .ok a ∧ f a = b := by
  constructor
  · exact map_eq_ok
  · rintro ⟨a, rfl, rfl⟩
    rfl

theorem bind_ok_iff {x : Except ε α} {f : α → Except ε β} :
    (x >>= f) = .ok b ↔ ∃ a, x = .ok a ∧ f a = .ok b := by
  constructor
  · exact bind_eq_ok
  · rintro ⟨a, rfl, h⟩
    exact h

/-- Another error is no result either. -/
theorem mapError_ok_iff {ε' : Type} {x : Except ε β} {f : ε → ε'} :
    x.mapError f = .ok b ↔ x = .ok b := by
  cases x with
  | error e =>
      constructor
      · intro h
        cases h
      · intro h
        cases h
  | ok a =>
      constructor
      · intro h
        exact congrArg Except.ok (Except.ok.inj h)
      · intro h
        exact congrArg Except.ok (Except.ok.inj h)

section Pass

variable {f : α → Except ε β}

theorem mapM_cons_ok {a : α} {l : List α} {ys : List β} (h : (a :: l).mapM f = .ok ys) :
    ∃ y rest, f a = .ok y ∧ l.mapM f = .ok rest ∧ ys = y :: rest := by
  rw [List.mapM_cons] at h
  obtain ⟨y, ha, h⟩ := bind_eq_ok h
  obtain ⟨rest, hl, h⟩ := bind_eq_ok h
  cases h
  exact ⟨y, rest, ha, hl, rfl⟩

/-- What a successful pass returns comes from one of its elements. -/
theorem exists_of_mem_mapM {l : List α} {ys : List β} (h : l.mapM f = .ok ys) {y : β}
    (hy : y ∈ ys) : ∃ x ∈ l, f x = .ok y := by
  induction l generalizing ys with
  | nil =>
      rw [List.mapM_nil] at h
      cases h
      cases hy
  | cons a l ih =>
      obtain ⟨first, rest, ha, hl, rfl⟩ := mapM_cons_ok h
      cases hy with
      | head => exact ⟨a, List.mem_cons_self, ha⟩
      | tail _ hy =>
          obtain ⟨x, hx, hf⟩ := ih hl hy
          exact ⟨x, List.mem_cons_of_mem a hx, hf⟩

/-- A pass over what another pass returned, that undoes it. -/
theorem mapM_map_ok {g : β → α} {l : List β} (h : ∀ b ∈ l, f (g b) = .ok b) :
    (l.map g).mapM f = .ok l := by
  induction l with
  | nil => rfl
  | cons b l ih =>
      have htail := ih fun x hx => h x (List.mem_cons_of_mem b hx)
      rw [List.map_cons, List.mapM_cons, h b List.mem_cons_self, htail]
      rfl

end Pass

/-- What every step of a fold keeps, the fold keeps. -/
theorem foldlM_keeps {step : β → α → Except ε β} {I : β → Prop} {l : List α}
    (hstep : ∀ a ∈ l, ∀ b b', I b → step b a = .ok b' → I b') :
    ∀ {b out : β}, I b → l.foldlM step b = .ok out → I out := by
  induction l with
  | nil =>
      intro b out hb h
      cases h
      exact hb
  | cons a l ih =>
      intro b out hb h
      rw [List.foldlM_cons] at h
      rcases bind_eq_ok h with ⟨b', ha, hrest⟩
      have hkept := hstep a List.mem_cons_self b b' hb ha
      exact ih (fun x hx => hstep x (List.mem_cons_of_mem a hx)) hkept hrest

end Fallible
