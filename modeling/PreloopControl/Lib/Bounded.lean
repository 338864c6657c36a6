import Mathlib

/-!
# Loops That Stop at a Bound

A loop carries a state, and gives up once a bound on the state is passed. If a state past the
bound is never brought back by the loop, nothing is lost by running on to the end and looking at
the bound there: the loop that gives up has the outcome of the one that does not, or none.

## Main definitions

* `Bounded`: A step that gives up exactly where its plain form passes the bound.

## Theorems

* `Bounded.foldlM`: A bounded loop is the plain one with a look at the bound behind it.
-/

namespace Bounded

variable {S A : Type}

/-- The outcome, if it is within the bound. -/
def within (ok : S → Prop) [DecidablePred ok] (s : S) : Option S := if ok s then some s else none

/-- A step that gives up exactly where its plain form passes the bound, from which no step comes
    back. -/
structure Step (ok : S → Prop) [DecidablePred ok] (step : S → Option S) (plain : S → S) :
    Prop where
  inside : ∀ s, ok s → step s = within ok (plain s)
  outside : ∀ s, ¬ ok s → ¬ ok (plain s)

variable {ok : S → Prop} [DecidablePred ok]

theorem within_pos {s : S} (h : ok s) : within ok s = some s := if_pos h

theorem within_neg {s : S} (h : ¬ ok s) : within ok s = none := if_neg h

/-- Two bounded steps in a row. -/
theorem Step.comp {step step' : S → Option S} {plain plain' : S → S} (h : Step ok step plain)
    (h' : Step ok step' plain') :
    Step ok (fun s => (step s).bind step') (fun s => plain' (plain s)) where
  inside s hs := by
    rw [h.inside s hs]
    by_cases hmid : ok (plain s)
    · rw [within_pos hmid]
      exact h'.inside _ hmid
    · rw [within_neg hmid, within_neg (h'.outside _ hmid)]
      rfl
  outside s hs := h'.outside _ (h.outside s hs)

/-- The step that does nothing. -/
theorem Step.id : Step ok some (fun s => s) :=
  ⟨fun _ hs => (within_pos hs).symm, fun _ hs => hs⟩

/-- A bounded loop is the plain one with a look at the bound behind it. -/
theorem Step.foldlM {f : S → A → Option S} {g : S → A → S} (l : List A)
    (h : ∀ a ∈ l, Step ok (fun s => f s a) (fun s => g s a)) :
    Step ok (fun s => l.foldlM f s) (fun s => l.foldl g s) := by
  induction l with
  | nil => exact Step.id
  | cons a l ih =>
      rw [List.forall_mem_cons] at h
      exact h.1.comp (ih h.2)

end Bounded
