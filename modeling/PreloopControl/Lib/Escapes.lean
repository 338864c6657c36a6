import PreloopControl.Lib.Text

/-!
# Escapes Undone by Replacement

A text in which some characters are written as codes of a mark and two more characters, and
a reader that undoes the codes one after the other by replacing them everywhere in the
text. Where every mark of the written text begins a code, a replacement meets its own code
only, and leaves a text that is written with one code less. The code of the mark itself has
to be undone last.

## Main definitions

* `Escapes.replace`: All occurrences of a pattern replaced, from left to right.
* `Escapes.Coded`: A character stands for itself or has a code.

## Theorems

* `Escapes.replace_flatMap`: One code is undone.
* `Escapes.Coded.undo`: What is left is written with codes.
-/

namespace Escapes

/-- The replacement, with a number of characters still to be passed over. -/
def replaceFrom (pat sub : Text) : Nat → Text → Text
  | _, [] => []
  | skip + 1, _ :: t => replaceFrom pat sub skip t
  | 0, c :: t =>
    if pat.isPrefixOf (c :: t) then sub ++ replaceFrom pat sub (pat.length - 1) t
    else c :: replaceFrom pat sub 0 t

/-- `t.replace(pat, sub)`, of a pattern that is not empty. -/
def replace (pat sub t : Text) : Text := replaceFrom pat sub 0 t

/-- Every character stands for itself or has a code, and the mark begins codes only. -/
def Coded (mark : Char) (f : Char → Text) : Prop :=
  ∀ d, f d = [d] ∧ d ≠ mark ∨ ∃ a b, f d = [mark, a, b] ∧ a ≠ mark ∧ b ≠ mark

/-- Without the code of one character. -/
def undo (f : Char → Text) (c d : Char) : Text := if d = c then [c] else f d

variable {mark c : Char} {f : Char → Text}

theorem Coded.undo (hf : Coded mark f) (hc : c ≠ mark) : Coded mark (undo f c) := by
  intro d
  unfold Escapes.undo
  by_cases hd : d = c
  · rw [if_pos hd, hd]
    exact .inl ⟨rfl, hc⟩
  · rw [if_neg hd]
    exact hf d

theorem replaceFrom_cons_ne {pat sub : Text} {d : Char} (hd : d ≠ mark) (t : Text) :
    replaceFrom (mark :: pat) sub 0 (d :: t) = d :: replaceFrom (mark :: pat) sub 0 t := by
  rw [replaceFrom, if_neg]
  rw [List.isPrefixOf, Bool.and_eq_true, beq_iff_eq]
  exact fun h => hd h.1.symm

/-- All occurrences of one code are its character's. -/
theorem replace_flatMap (hf : Coded mark f) {a b : Char} (hcode : f c = [mark, a, b])
    (honly : ∀ d, f d = [mark, a, b] → d = c) (t : Text) :
    replace [mark, a, b] [c] (t.flatMap f) = t.flatMap (undo f c) := by
  induction t with
  | nil => rfl
  | cons d t ih =>
      rw [List.flatMap_cons, List.flatMap_cons]
      rw [replace] at ih ⊢
      by_cases hd : d = c
      · -- the code itself, passed over as a whole
        have hpre : List.isPrefixOf [mark, a, b] ([mark, a, b] ++ t.flatMap f) = true := by simp
        rw [hd, hcode, undo, if_pos rfl, ← ih]
        rw [List.cons_append] at hpre ⊢
        rw [replaceFrom, if_pos hpre]
        rfl
      · rw [undo, if_neg hd]
        rcases hf d with ⟨hself, hmark⟩ | ⟨a', b', hother, ha, hb⟩
        · rw [hself, List.singleton_append, List.singleton_append, replaceFrom_cons_ne hmark, ih]
        · -- another code, of which neither character begins one
          have hne : ¬ List.isPrefixOf [mark, a, b] (mark :: a' :: b' :: t.flatMap f) = true := by
            simp only [List.isPrefixOf, beq_self_eq_true, Bool.true_and, Bool.and_true,
              Bool.and_eq_true, beq_iff_eq]
            rintro ⟨rfl, rfl⟩
            exact hd (honly d hother)
          rw [hother]
          simp only [List.cons_append, List.nil_append]
          rw [replaceFrom, if_neg hne, replaceFrom_cons_ne ha, replaceFrom_cons_ne hb, ih]

/-- Nothing is left to undo. -/
theorem flatMap_self {f : Char → Text} (h : ∀ d, f d = [d]) (t : Text) : t.flatMap f = t := by
  induction t with
  | nil => rfl
  | cons d t ih => rw [List.flatMap_cons, h, ih, List.singleton_append]

end Escapes
