import Mathlib

/-!
# Rounding

The numbers a significand of `p` binary digits and an exponent can hold, and the nearest of them
to a number that needs more digits, the one with the even significand where two are as near.

## Main definitions

* `Holds`: A number with a significand of `p` digits and a bounded exponent.
* `nearest`: The nearest number with `p` digits.

## Theorems

* `nearest_of_holds`: A number that is held is its own nearest.
* `holds_nearest`: What is found can be held.
-/

namespace Rounding

/-- A number with a significand of `p` binary digits and an exponent of at most `limit`. -/
def Holds (p limit n : Nat) : Prop := ∃ m e, m < 2 ^ p ∧ e ≤ limit ∧ n = m * 2 ^ e

/-- The last digit that is kept of a number. -/
def unit (p n : Nat) : Nat := 2 ^ (n.log2 + 1 - p)

/-- The nearest number with `p` digits, ties to the even significand. -/
def nearest (p n : Nat) : Nat :=
  if 2 * (n % unit p n) < unit p n ∨ 2 * (n % unit p n) = unit p n ∧ n / unit p n % 2 = 0 then
    n / unit p n * unit p n
  else (n / unit p n + 1) * unit p n

variable {p limit n : Nat}

theorem unit_pos : 0 < unit p n := Nat.two_pow_pos _

/-- A significand loses no digit that is not a zero. -/
theorem unit_dvd (h : Holds p limit n) : unit p n ∣ n := by
  rcases h with ⟨m, e, hm, _, rfl⟩
  by_cases hzero : m * 2 ^ e = 0
  · rw [hzero]
    exact Nat.dvd_zero _
  · have hlt : m * 2 ^ e < 2 ^ (p + e) := by
      rw [Nat.pow_add]
      exact Nat.mul_lt_mul_of_pos_right hm (Nat.two_pow_pos e)
    have hlog := (Nat.log2_lt hzero).mpr hlt
    exact (Nat.pow_dvd_pow 2 (by omega)).trans (Nat.dvd_mul_left _ m)

/-- A number that is held is its own nearest. -/
theorem nearest_of_holds (h : Holds p limit n) : nearest p n = n := by
  have hrest : n % unit p n = 0 := Nat.mod_eq_zero_of_dvd (unit_dvd h)
  have hpos : 0 < unit p n := unit_pos
  unfold nearest
  rw [if_pos (Or.inl (by omega)), Nat.div_mul_cancel (unit_dvd h)]

/-- What is left of a number has `p` digits. -/
theorem quotient_lt : n / unit p n < 2 ^ p := by
  refine Nat.div_lt_of_lt_mul ?_
  have hlog : n < 2 ^ (n.log2 + 1) := Nat.lt_log2_self
  have hle : 2 ^ (n.log2 + 1) ≤ 2 ^ (n.log2 + 1 - p + p) :=
    Nat.pow_le_pow_right (by decide) (by omega)
  rw [Nat.pow_add _ _ p] at hle
  exact hlog.trans_le hle

/-- What is found can be held. -/
theorem holds_nearest {k : Nat} (hp : 0 < p) (hn : n < 2 ^ (p + k)) (hk : k + 1 ≤ limit) :
    Holds p limit (nearest p n) := by
  have hunit : n.log2 + 1 - p ≤ k := by
    by_cases hzero : n = 0
    · subst hzero
      have : Nat.log2 0 = 0 := rfl
      omega
    · have := (Nat.log2_lt hzero).mpr hn
      omega
  have hlt : n / unit p n < 2 ^ p := quotient_lt
  have hup : Holds p limit ((n / unit p n + 1) * unit p n) := by
    by_cases hnext : n / unit p n + 1 < 2 ^ p
    · exact ⟨_, _, hnext, by omega, rfl⟩
    · -- the carry leaves a power of two, which one digit holds
      refine ⟨2 ^ (p - 1), n.log2 + 1 - p + 1, ?_, by omega, ?_⟩
      · exact Nat.pow_lt_pow_right (by decide) (by omega)
      · have heq : n / unit p n + 1 = 2 ^ (p - 1) * 2 := by
          rw [← Nat.pow_succ, Nat.succ_eq_add_one, Nat.sub_add_cancel hp]
          omega
        rw [heq, unit, Nat.pow_succ, Nat.mul_assoc, Nat.mul_comm 2]
  unfold nearest
  split
  · exact ⟨_, _, hlt, by omega, rfl⟩
  · exact hup

end Rounding
