import Mathlib

/-!
# UTF-16

A text as the sixteen-bit units of its UTF-16 encoding, and what the order of the units
has to do with the order of the characters.

The encoding keeps the order among the characters of the basic plane, and among those of
the other planes. Between the two it does not: a character of another plane starts with a
surrogate, and above the surrogates the basic plane goes on. `compare_encode_iff` says
that this is all there is to it.

## Main definitions

* `Utf16.units`, `Utf16.encode`: The code units of a character and of a text.
* `Utf16.codes`: The scalar values of a text.
* `Utf16.Swapped`, `Utf16.Crossed`: Characters and texts that are ordered the other way
  round by their units.

## Theorems

* `Utf16.compare_units`: The order of the units of two characters.
* `Utf16.compare_encode_iff`: When the units order two texts as the characters do.
-/

namespace Utf16

/-- The code units of a character: itself in the basic plane, else two surrogates. -/
def units (c : Char) : List Nat :=
  if c.toNat < 0x10000 then [c.toNat]
  else [0xD800 + (c.toNat - 0x10000) / 0x400, 0xDC00 + (c.toNat - 0x10000) % 0x400]

/-- The code units of a text. -/
def encode (t : List Char) : List Nat := t.flatMap units

/-- The scalar values of a text. -/
def codes (t : List Char) : List Nat := t.map Char.toNat

/-- A character of the basic plane above the surrogates. -/
def High (c : Char) : Prop := 0xE000 ≤ c.toNat ∧ c.toNat < 0x10000

/-- A character of another plane. -/
def Supplementary (c : Char) : Prop := 0x10000 ≤ c.toNat

/-- One character of either kind. -/
def Swapped (a b : Char) : Prop := High a ∧ Supplementary b ∨ Supplementary a ∧ High b

/-- The first characters in which the texts differ are one of either kind. -/
def Crossed : List Char → List Char → Prop
  | a :: s, b :: t => if a = b then Crossed s t else Swapped a b
  | _, _ => False

instance (c : Char) : Decidable (High c) := inferInstanceAs (Decidable (_ ∧ _))

instance (c : Char) : Decidable (Supplementary c) := inferInstanceAs (Decidable (_ ≤ _))

instance (a b : Char) : Decidable (Swapped a b) := inferInstanceAs (Decidable (_ ∨ _))

instance decidableCrossed : (s t : List Char) → Decidable (Crossed s t)
  | [], _ => inferInstanceAs (Decidable False)
  | _ :: _, [] => inferInstanceAs (Decidable False)
  | a :: s, b :: t =>
    have := decidableCrossed s t
    inferInstanceAs (Decidable (if a = b then Crossed s t else Swapped a b))

/-! ## Lists of numbers -/

theorem compare_cons_lt {m n : Nat} (h : m < n) (s t : List Nat) :
    compare (m :: s) (n :: t) = .lt := by
  rw [List.compare_eq_compareLex, List.compareLex_cons_cons, Nat.compare_eq_lt.mpr h]
  rfl

theorem compare_cons_gt {m n : Nat} (h : n < m) (s t : List Nat) :
    compare (m :: s) (n :: t) = .gt := by
  rw [List.compare_eq_compareLex, List.compareLex_cons_cons, Nat.compare_eq_gt.mpr h]
  rfl

theorem compare_cons_self (n : Nat) (s t : List Nat) :
    compare (n :: s) (n :: t) = compare s t := by
  rw [List.compare_eq_compareLex, List.compareLex_cons_cons, Nat.compare_eq_eq.mpr rfl]
  rfl

theorem compare_append_self (l s t : List Nat) : compare (l ++ s) (l ++ t) = compare s t := by
  induction l with
  | nil => rfl
  | cons n l ih => rw [List.cons_append, List.cons_append, compare_cons_self, ih]

/-! ## Characters -/

theorem encode_cons (c : Char) (t : List Char) : encode (c :: t) = units c ++ encode t := rfl

theorem codes_cons (c : Char) (t : List Char) : codes (c :: t) = c.toNat :: codes t := rfl

/-- Different characters decide. -/
theorem compare_codes_ne {a b : Char} (h : a ≠ b) (s t : List Char) :
    compare (a.toNat :: codes s) (b.toNat :: codes t) = compare a.toNat b.toNat := by
  rcases Nat.lt_or_gt_of_ne fun heq => h (Char.toNat_inj.mp heq) with hlt | hgt
  · rw [compare_cons_lt hlt, Nat.compare_eq_lt.mpr hlt]
  · rw [compare_cons_gt hgt, Nat.compare_eq_gt.mpr hgt]

theorem units_ne_nil (c : Char) : units c ≠ [] := by
  unfold units
  by_cases h : c.toNat < 0x10000
  · rw [if_pos h]
    exact List.cons_ne_nil _ _
  · rw [if_neg h]
    exact List.cons_ne_nil _ _

/-- No character is a surrogate. -/
theorem toNat_cases (c : Char) : c.toNat < 0xD800 ∨ 0xE000 ≤ c.toNat ∧ c.toNat < 0x110000 := by
  rcases c.valid with h | ⟨h, h'⟩
  · exact .inl h
  · exact .inr ⟨h, h'⟩

/-- The units of the smaller character come first, unless the two are swapped. -/
theorem compare_units_lt {a b : Char} (h : a.toNat < b.toNat) (s t : List Nat) :
    compare (units a ++ s) (units b ++ t) = if Swapped a b then .gt else .lt := by
  have hb := toNat_cases b
  unfold units
  by_cases hplane : b.toNat < 0x10000
  · -- both are units of the basic plane
    have hkeep : ¬ Swapped a b := by
      unfold Swapped High Supplementary
      omega
    rw [if_pos (h.trans hplane), if_pos hplane, if_neg hkeep]
    exact compare_cons_lt h _ _
  · by_cases hlow : a.toNat < 0x10000
    · rw [if_pos hlow, if_neg hplane]
      by_cases hhigh : 0xE000 ≤ a.toNat
      · -- the surrogate is below the unit of the smaller character
        have hswap : Swapped a b := .inl ⟨⟨hhigh, hlow⟩, Nat.le_of_not_lt hplane⟩
        rw [if_pos hswap]
        exact compare_cons_gt (by omega) _ _
      · have ha := toNat_cases a
        have hkeep : ¬ Swapped a b := by
          unfold Swapped High Supplementary
          omega
        rw [if_neg hkeep]
        exact compare_cons_lt (by omega) _ _
    · -- two pairs of surrogates: the second decides if the first is the same
      have hkeep : ¬ Swapped a b := by
        unfold Swapped High Supplementary
        omega
      rw [if_neg hlow, if_neg hplane, if_neg hkeep]
      by_cases hfirst : (a.toNat - 0x10000) / 0x400 = (b.toNat - 0x10000) / 0x400
      · rw [hfirst]
        exact (compare_cons_self _ _ _).trans (compare_cons_lt (by omega) _ _)
      · exact compare_cons_lt (by omega) _ _

theorem swapped_comm {a b : Char} : Swapped a b ↔ Swapped b a := by
  unfold Swapped
  rw [or_comm, and_comm, @and_comm (High a)]

/-- The units order two different characters as their scalar values do, unless the two are
    swapped. -/
theorem compare_units {a b : Char} (h : a ≠ b) (s t : List Nat) :
    compare (units a ++ s) (units b ++ t) = compare a.toNat b.toNat ↔ ¬ Swapped a b := by
  rcases Nat.lt_trichotomy a.toNat b.toNat with hlt | heq | hgt
  · rw [compare_units_lt hlt, Nat.compare_eq_lt.mpr hlt]
    by_cases hswap : Swapped a b
    · rw [if_pos hswap]
      exact iff_of_false (fun hne => Ordering.noConfusion hne) (fun hno => hno hswap)
    · rw [if_neg hswap]
      exact iff_of_true rfl hswap
  · exact absurd (Char.toNat_inj.mp heq) h
  · have hturn : compare (units a ++ s) (units b ++ t) =
        (compare (units b ++ t) (units a ++ s)).swap := Std.OrientedOrd.eq_swap
    rw [hturn, compare_units_lt hgt, Nat.compare_eq_gt.mpr hgt]
    by_cases hswap : Swapped b a
    · rw [if_pos hswap]
      exact iff_of_false (fun hne => Ordering.noConfusion hne)
        (fun hno => hno (swapped_comm.mp hswap))
    · rw [if_neg hswap]
      exact iff_of_true rfl fun hno => hswap (swapped_comm.mp hno)

/-! ## Texts -/

/-- The units order two texts as the scalar values do, unless the first difference is
    between swapped characters. -/
theorem compare_encode_iff (s t : List Char) :
    compare (encode s) (encode t) = compare (codes s) (codes t) ↔ ¬ Crossed s t := by
  induction s generalizing t with
  | nil =>
      refine iff_of_true ?_ (fun h => h)
      cases t with
      | nil => rfl
      | cons b t =>
          rcases List.exists_cons_of_ne_nil (units_ne_nil b) with ⟨n, l, hunits⟩
          rw [encode_cons, hunits]
          rfl
  | cons a s ih =>
      cases t with
      | nil =>
          rcases List.exists_cons_of_ne_nil (units_ne_nil a) with ⟨n, l, hunits⟩
          refine iff_of_true ?_ (fun h => h)
          rw [encode_cons, hunits]
          rfl
      | cons b t =>
          rw [encode_cons, encode_cons, Crossed]
          by_cases hab : a = b
          · rw [if_pos hab, hab, compare_append_self, codes_cons, codes_cons, compare_cons_self, ih]
          · rw [if_neg hab, ← compare_units hab (encode s) (encode t), codes_cons, codes_cons,
              compare_codes_ne hab]

end Utf16
