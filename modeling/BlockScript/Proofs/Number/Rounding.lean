import BlockScript.Number.Binary64
import Mathlib.Algebra.Order.Ring.Nat

/-!
# Rounding to a rank

The nearest rank depends on a quotient only, not on how it is written, and every
magnitude has itself as its nearest. A quotient of `2^2099` units or more is past
the finite range, and one below half a unit is nearest to zero.
-/

set_option autoImplicit false

namespace BlockScript.Binary64

variable {num den : Nat}

theorem roundQuotient_mul {c : Nat} (hc : 0 < c) (num den : Nat) :
    roundQuotient (c * num) (c * den) = roundQuotient num den := by
  have hr : 2 * (c * num % (c * den)) = c * (2 * (num % den)) := by
    rw [Nat.mul_mod_mul_left, Nat.mul_left_comm]
  simp only [roundQuotient, hr, Nat.mul_div_mul_left _ _ hc, Nat.mul_lt_mul_left hc]

theorem nearestRank_mul {c : Nat} (hc : 0 < c) (num den : Nat) :
    nearestRank (c * num) (c * den) = nearestRank num den := by
  simp only [nearestRank, Nat.mul_div_mul_left _ _ hc, Nat.mul_assoc, roundQuotient_mul hc]

theorem nearestRank_congr {num' den' : Nat} (hd : 0 < den) (hd' : 0 < den')
    (h : num * den' = num' * den) : nearestRank num den = nearestRank num' den' :=
  calc nearestRank num den
    _ = nearestRank (den' * num) (den' * den) := (nearestRank_mul hd' num den).symm
    _ = nearestRank (den * num') (den * den') := by
      rw [Nat.mul_comm den' num, h, Nat.mul_comm num' den, Nat.mul_comm den' den]
    _ = nearestRank num' den' := nearestRank_mul hd num' den'

theorem roundQuotient_eq_or (num den : Nat) :
    roundQuotient num den = num / den ∨ roundQuotient num den = num / den + 1 := by
  simp only [roundQuotient]
  split
  · exact .inl rfl
  · split
    · exact .inr rfl
    · omega

theorem roundQuotient_mul_self {c : Nat} (hc : 0 < c) (n : Nat) : roundQuotient (n * c) c = n := by
  simp [roundQuotient, Nat.mul_div_cancel n hc, hc]

theorem roundQuotient_eq_zero (h : 2 * num < den) : roundQuotient num den = 0 := by
  have hl : num < den := by omega
  simp [roundQuotient, Nat.div_eq_of_lt hl, Nat.mod_eq_of_lt hl, h]

theorem nearestRank_eq_zero (h : 2 * num < den) : nearestRank num den = 0 := by
  have hq : num / den = 0 := Nat.div_eq_of_lt (by omega)
  simp [nearestRank, hq, roundQuotient_eq_zero h]

theorem le_nearestRank {k : Nat} (h : 2 ^ (k + 52) ≤ num / den) :
    k * 2 ^ 52 ≤ nearestRank num den := by
  have hq : num / den ≠ 0 := by
    have hp := Nat.two_pow_pos (k + 52)
    omega
  have hl : k + 52 ≤ Nat.log2 (num / den) := (Nat.le_log2 hq).2 h
  have hk : k ≤ Nat.log2 (num / den) - 52 := by omega
  exact Nat.le_trans (Nat.mul_le_mul_right _ hk) (Nat.le_add_right _ _)

theorem rankCount_le_nearestRank (h : 2 ^ (2047 + 52) ≤ num / den) :
    rankCount ≤ nearestRank num den := le_nearestRank h

theorem log2_significand {s : Nat} (hl : 2 ^ 52 ≤ s) (hh : s < 2 ^ 53) (k : Nat) :
    Nat.log2 (s * 2 ^ k) = 52 + k := by
  have hp := Nat.two_pow_pos k
  rw [Nat.log2_eq_iff (Nat.ne_of_gt (Nat.mul_pos (by omega) hp))]
  constructor
  · rw [Nat.pow_add]
    exact Nat.mul_le_mul_right _ hl
  · rw [show 52 + k + 1 = 53 + k by omega, Nat.pow_add]
    exact Nat.mul_lt_mul_of_pos_right hh hp

theorem nearestRank_magnitude (rank : Nat) : nearestRank (magnitude rank) 1 = rank := by
  by_cases hr : rank < 2 ^ 52
  · have hl : Nat.log2 rank - 52 = 0 := by
      by_cases h0 : rank = 0
      · subst h0
        rfl
      · have hlog := (Nat.log2_lt h0).2 hr
        omega
    have hm : magnitude rank = rank := if_pos hr
    rw [nearestRank, hm, Nat.div_one, hl]
    simpa using roundQuotient_mul_self Nat.one_pos rank
  · have hm : magnitude rank = (2 ^ 52 + rank % 2 ^ 52) * 2 ^ (rank / 2 ^ 52 - 1) := if_neg hr
    have hrem : rank % 2 ^ 52 < 2 ^ 52 := Nat.mod_lt _ (Nat.two_pow_pos 52)
    have hlog := log2_significand (Nat.le_add_right (2 ^ 52) (rank % 2 ^ 52)) (by omega)
      (rank / 2 ^ 52 - 1)
    have hq := roundQuotient_mul_self (Nat.two_pow_pos (rank / 2 ^ 52 - 1))
      (2 ^ 52 + rank % 2 ^ 52)
    rw [nearestRank, hm, Nat.div_one, hlog, Nat.add_sub_cancel_left, Nat.one_mul]
    change _ + roundQuotient _ (2 ^ (rank / 2 ^ 52 - 1)) = rank
    rw [hq]
    change (rank / 2 ^ 52 - 1) * 2 ^ 52 + _ = rank
    omega

end BlockScript.Binary64
