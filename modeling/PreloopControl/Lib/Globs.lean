import Mathlib

/-!
# Globs

Patterns of a path: a letter, any letter but the separator, a run without the separator, and a
run of any letters. A match that reads the text letter by letter needs two facts about each item:
whether it may stand for nothing, and what is left of the pattern when it takes a letter.

## Main definitions

* `Token`, `Matches`: Items, and the texts a list of items stands for.
* `Token.skippable`: Items that may stand for nothing.

## Theorems

* `matches_nil`, `matches_literal`, `matches_anyChar`, `matches_star`, `matches_doubleStar`: A
  pattern and the first letter of a text.
* `matches_empty_iff`: A pattern and the empty text.
* `matches_literals`: A pattern that begins with a text.
-/

namespace Globs

variable {α : Type}

/-- An item of a pattern. -/
inductive Token (α : Type)
  | literal (a : α)
  | anyChar
  | star
  | doubleStar

/-- The texts that a list of items stands for. -/
inductive Matches (sep : α) : List (Token α) → List α → Prop
  | nil : Matches sep [] []
  | literal {a : α} {ts : List (Token α)} {v : List α} :
      Matches sep ts v → Matches sep (.literal a :: ts) (a :: v)
  | anyChar {a : α} {ts : List (Token α)} {v : List α} :
      a ≠ sep → Matches sep ts v → Matches sep (.anyChar :: ts) (a :: v)
  | star {run : List α} {ts : List (Token α)} {v : List α} :
      sep ∉ run → Matches sep ts v → Matches sep (.star :: ts) (run ++ v)
  | doubleStar {run : List α} {ts : List (Token α)} {v : List α} :
      Matches sep ts v → Matches sep (.doubleStar :: ts) (run ++ v)

/-- An item that may stand for nothing. -/
def Token.skippable : Token α → Bool
  | .star | .doubleStar => true
  | _ => false

variable {sep a : α} {t : Token α} {ts : List (Token α)} {v : List α}

theorem matches_nil : Matches sep [] v ↔ v = [] := by
  constructor
  · intro h
    cases h
    rfl
  · rintro rfl
    exact Matches.nil

/-- An item that stands for nothing. -/
theorem Matches.skip (ht : t.skippable = true) (h : Matches sep ts v) :
    Matches sep (t :: ts) v := by
  cases t with
  | star => exact List.nil_append v ▸ Matches.star List.not_mem_nil h
  | doubleStar => exact List.nil_append v ▸ Matches.doubleStar h
  | _ => cases ht

/-- The empty text is matched by items that may stand for nothing. -/
theorem matches_empty_iff : Matches sep (t :: ts) [] ↔ t.skippable = true ∧ Matches sep ts [] := by
  constructor
  · intro h
    generalize hv : ([] : List α) = v at h
    cases h with
    | literal _ => cases hv
    | anyChar _ _ => cases hv
    | star _ hrest =>
        rcases List.append_eq_nil_iff.mp hv.symm with ⟨rfl, rfl⟩
        exact ⟨rfl, hrest⟩
    | doubleStar hrest =>
        rcases List.append_eq_nil_iff.mp hv.symm with ⟨rfl, rfl⟩
        exact ⟨rfl, hrest⟩
  · rintro ⟨ht, h⟩
    exact h.skip ht

theorem matches_literal {c : α} :
    Matches sep (.literal c :: ts) (a :: v) ↔ c = a ∧ Matches sep ts v := by
  constructor
  · intro h
    cases h with
    | literal hrest => exact ⟨rfl, hrest⟩
  · rintro ⟨rfl, h⟩
    exact Matches.literal h

theorem matches_anyChar : Matches sep (.anyChar :: ts) (a :: v) ↔ a ≠ sep ∧ Matches sep ts v := by
  constructor
  · intro h
    cases h with
    | anyChar hne hrest => exact ⟨hne, hrest⟩
  · rintro ⟨hne, h⟩
    exact Matches.anyChar hne h

theorem matches_star : Matches sep (.star :: ts) (a :: v) ↔
    Matches sep ts (a :: v) ∨ a ≠ sep ∧ Matches sep (.star :: ts) v := by
  constructor
  · intro h
    generalize hw : a :: v = w at h
    cases h with
    | @star run _ rest hrun hrest =>
        cases run with
        | nil =>
            rw [List.nil_append] at hw
            exact Or.inl (hw ▸ hrest)
        | cons b run =>
            rw [List.cons_append] at hw
            cases hw
            rcases List.ne_and_not_mem_of_not_mem_cons hrun with ⟨hne, hrun⟩
            exact Or.inr ⟨hne.symm, Matches.star hrun hrest⟩
  · rintro (h | ⟨hne, h⟩)
    · exact h.skip rfl
    · generalize hpattern : Token.star :: ts = pattern at h
      cases h with
      | star hrun hrest =>
          cases hpattern
          rw [← List.cons_append]
          exact Matches.star (List.not_mem_cons_of_ne_of_not_mem hne.symm hrun) hrest
      | _ => cases hpattern

theorem matches_doubleStar : Matches sep (.doubleStar :: ts) (a :: v) ↔
    Matches sep ts (a :: v) ∨ Matches sep (.doubleStar :: ts) v := by
  constructor
  · intro h
    generalize hw : a :: v = w at h
    cases h with
    | @doubleStar run _ rest hrest =>
        cases run with
        | nil =>
            rw [List.nil_append] at hw
            exact Or.inl (hw ▸ hrest)
        | cons b run =>
            rw [List.cons_append] at hw
            cases hw
            exact Or.inr (Matches.doubleStar hrest)
  · rintro (h | h)
    · exact h.skip rfl
    · generalize hpattern : Token.doubleStar :: ts = pattern at h
      cases h with
      | doubleStar hrest =>
          cases hpattern
          rw [← List.cons_append]
          exact Matches.doubleStar hrest
      | _ => cases hpattern

/-- A pattern that begins with a text. -/
theorem matches_literals (front : List α) :
    Matches sep (front.map Token.literal ++ ts) v ↔ ∃ rest, v = front ++ rest ∧
      Matches sep ts rest := by
  induction front generalizing v with
  | nil => exact ⟨fun h => ⟨v, rfl, h⟩, fun ⟨_, hv, h⟩ => hv ▸ h⟩
  | cons c front ih =>
      rw [List.map_cons, List.cons_append]
      cases v with
      | nil =>
          refine iff_of_false ?_ ?_
          · intro h
            exact Bool.false_ne_true (matches_empty_iff.mp h).1
          · rintro ⟨rest, hv, -⟩
            cases hv
      | cons a v =>
          rw [matches_literal, ih]
          constructor
          · rintro ⟨rfl, rest, rfl, h⟩
            exact ⟨rest, rfl, h⟩
          · rintro ⟨rest, hv, h⟩
            cases hv
            exact ⟨rfl, rest, rfl, h⟩

end Globs
