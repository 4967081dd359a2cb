import BlockScript.Proofs.Number.Rounding
import BlockScript.Number.Decimal
import Mathlib.Algebra.Order.Field.Power
import Mathlib.Algebra.Order.Field.Rat
import Mathlib.Tactic.NormNum
import Mathlib.Tactic.Positivity
import Mathlib.Tactic.Ring

/-!
# The shortest decimal reads back

Which number a decimal reads as depends on its rational value only. The decimal
that is chosen to show a positive rank reads back as that rank, also through the
bounds on the leading digit that settle far decimals early.
-/

set_option autoImplicit false

namespace BlockScript.Decimal

open Binary64 (unity magnitude nearestRank)

variable {rank : Nat} {d : Decimal}

def toRat (d : Decimal) : ℚ := d.coefficient * 10 ^ d.exponent

theorem unitRatio_den_pos (d : Decimal) : 0 < d.unitRatio.2 := by
  obtain ⟨c, e | e⟩ := d
  · exact Nat.one_pos
  · exact Nat.pow_pos (by decide)

theorem unitRatio_num (d : Decimal) :
    (d.unitRatio.1 : ℚ) = d.toRat * unity * d.unitRatio.2 := by
  obtain ⟨c, e | e⟩ := d
  · change ((c * 10 ^ e * unity : ℕ) : ℚ) = c * 10 ^ (e : ℤ) * unity * (1 : ℕ)
    rw [zpow_natCast]
    push_cast
    ring
  · change ((c * unity : ℕ) : ℚ) = c * 10 ^ Int.negSucc e * unity * (10 ^ (e + 1) : ℕ)
    have h10 : (10 : ℚ) ^ (e + 1) ≠ 0 := pow_ne_zero _ (by norm_num)
    rw [zpow_negSucc]
    push_cast
    rw [mul_right_comm, mul_assoc _ _ ((10 : ℚ) ^ (e + 1)), inv_mul_cancel₀ h10, mul_one]

theorem readsBack_congr {d' : Decimal} (h : d.toRat = d'.toRat) :
    readsBack rank d = readsBack rank d' := by
  have hc : d.unitRatio.1 * d'.unitRatio.2 = d'.unitRatio.1 * d.unitRatio.2 := by
    have hq : (d.unitRatio.1 * d'.unitRatio.2 : ℚ) = d'.unitRatio.1 * d.unitRatio.2 := by
      rw [unitRatio_num d, unitRatio_num d', h]
      ring
    exact_mod_cast hq
  have hn := Binary64.nearestRank_congr (unitRatio_den_pos d) (unitRatio_den_pos d') hc
  change (nearestRank d.unitRatio.1 d.unitRatio.2 == rank) = _
  rw [hn]
  rfl

theorem reads_of_nearer? {reads : Decimal → Bool} {e : Int} {num den : Nat}
    (h : nearer? reads num den e = some d) : reads d = true := by
  simp only [nearer?] at h
  split at h
  · next hb ha =>
    rw [← Option.some.inj h]
    rcases Binary64.roundQuotient_eq_or num den with hq | hq
    · rw [hq]
      exact hb
    · rw [hq]
      exact ha
  · next hb _ => exact Option.some.inj h ▸ hb
  · next _ ha => exact Option.some.inj h ▸ ha
  · cases h

theorem readsBack_of_onGrid? {e : Int} (h : onGrid? rank e = some d) :
    readsBack rank d = true := by
  cases e with
  | ofNat e => exact reads_of_nearer? h
  | negSucc e => exact reads_of_nearer? h

theorem nearestRank_mul_five_pow (m k : Nat) :
    nearestRank (m * Nat.pow 5 k * Nat.pow 2 k) (Nat.pow 10 k) = nearestRank m 1 := by
  have hp : 0 < Nat.pow 10 k := Nat.pow_pos (by decide)
  have h : m * Nat.pow 5 k * Nat.pow 2 k * 1 = m * Nat.pow 10 k := by
    rw [Nat.mul_one, Nat.mul_assoc]
    congr 1
    exact (Nat.mul_pow 5 2 k).symm
  exact Binary64.nearestRank_congr hp Nat.one_pos h

theorem readsBack_exact (rank : Nat) : readsBack rank (exact rank) = true := by
  have h := nearestRank_mul_five_pow (magnitude rank) 1074
  rw [Binary64.nearestRank_magnitude] at h
  rw [readsBack, exact, unitRatio]
  exact beq_iff_eq.2 h

theorem readsBack_shortest (rank : Nat) : readsBack rank (shortest rank) = true := by
  simp only [shortest]
  cases hf : List.findSome? _ _ with
  | none => exact readsBack_exact rank
  | some d =>
    obtain ⟨n, -, hd⟩ := List.exists_of_findSome?_eq_some hf
    exact readsBack_of_onGrid? hd

theorem nearestRank_of_readsBack (h : readsBack rank d = true) :
    nearestRank d.unitRatio.1 d.unitRatio.2 = rank := beq_iff_eq.1 h

theorem coefficient_ne_zero (h : readsBack rank d = true) (hr : 0 < rank) : d.coefficient ≠ 0 := by
  intro hc
  have hz : d.unitRatio.1 = 0 := by
    obtain ⟨c, e | e⟩ := d
    · simp only [unitRatio, show c = 0 from hc, Nat.zero_mul]
    · simp only [unitRatio, show c = 0 from hc, Nat.zero_mul]
  have hd := unitRatio_den_pos d
  have hn : nearestRank d.unitRatio.1 d.unitRatio.2 = 0 :=
    Binary64.nearestRank_eq_zero (by omega)
  rw [nearestRank_of_readsBack h] at hn
  omega

theorem lt_pow_digitCount (n : Nat) : n < 10 ^ digitCount n :=
  (Nat.length_toDigits_le_iff (by decide) Nat.length_toDigits_pos).1 (Nat.le_refl _)

theorem pow_digitCount_le {n : Nat} (hn : n ≠ 0) : 10 ^ (digitCount n - 1) ≤ n := by
  by_cases hd : digitCount n = 1
  · rw [hd]
    exact Nat.one_le_iff_ne_zero.2 hn
  · have hp : 0 < digitCount n := Nat.length_toDigits_pos
    by_contra hl
    have h := (Nat.length_toDigits_le_iff (b := 10) (by decide) (by omega)).2 (Nat.lt_of_not_le hl)
    change digitCount n ≤ digitCount n - 1 at h
    omega

theorem toRat_lt (d : Decimal) : d.toRat < 10 ^ d.point := by
  have h : (d.coefficient : ℚ) < 10 ^ (digitCount d.coefficient : ℤ) := by
    rw [zpow_natCast]
    exact_mod_cast lt_pow_digitCount d.coefficient
  rw [toRat, point, zpow_add₀ (by norm_num)]
  exact mul_lt_mul_of_pos_right h (by positivity)

theorem le_toRat (h : d.coefficient ≠ 0) : (10 : ℚ) ^ (d.point - 1) ≤ d.toRat := by
  have hp : 1 ≤ digitCount d.coefficient := Nat.length_toDigits_pos
  have hc : (10 : ℚ) ^ ((digitCount d.coefficient - 1 : ℕ) : ℤ) ≤ d.coefficient := by
    rw [zpow_natCast]
    exact_mod_cast pow_digitCount_le h
  have he : d.point - 1 = ((digitCount d.coefficient - 1 : ℕ) : ℤ) + d.exponent := by
    rw [point]
    omega
  rw [he, zpow_add₀ (by norm_num), toRat]
  exact mul_le_mul_of_nonneg_right hc (by positivity)

theorem cast_two_pow (k : Nat) : (Nat.pow 2 k : ℚ) = 2 ^ k := Nat.cast_pow 2 k

theorem cast_unity : (unity : ℚ) = 2 ^ 1074 := cast_two_pow 1074

/-- A whole number below a decimal, both in multiples of `2^-1074`, is below its quotient. -/
theorem le_unitRatio {n : Nat} (h : (n : ℚ) ≤ d.toRat * unity) :
    n ≤ d.unitRatio.1 / d.unitRatio.2 := by
  rw [Nat.le_div_iff_mul_le (unitRatio_den_pos d)]
  have hm : (n : ℚ) * d.unitRatio.2 ≤ d.unitRatio.1 := by
    rw [unitRatio_num]
    exact mul_le_mul_of_nonneg_right h (Nat.cast_nonneg _)
  exact_mod_cast hm

theorem two_pow_le_ten_pow {a b : Nat} (h : (2 : ℚ) ^ a ≤ 10 ^ b) (k : Nat) :
    (2 : ℚ) ^ (a * k) ≤ 10 ^ (b * k) := by
  rw [pow_mul, pow_mul]
  exact pow_le_pow_left₀ (by positivity) h k

theorem point_le (h : readsBack rank d = true) (h0 : 0 < rank) (hr : rank < rankCount) :
    d.point ≤ 310 := by
  by_contra hp
  have ht : (10 : ℚ) ^ (62 * 5) ≤ d.toRat := by
    have hz : (10 : ℚ) ^ ((62 * 5 : ℕ) : ℤ) ≤ 10 ^ (d.point - 1) :=
      zpow_le_zpow_right₀ (by norm_num) (by omega)
    rw [zpow_natCast] at hz
    exact hz.trans (le_toRat (coefficient_ne_zero h h0))
  have hq : ((2 ^ (2047 + 52) : ℕ) : ℚ) ≤ d.toRat * unity := by
    have h2 : (2 : ℚ) ^ (205 * 5) ≤ 10 ^ (62 * 5) := two_pow_le_ten_pow (by norm_num) 5
    rw [Nat.cast_pow, cast_unity, show 2047 + 52 = 205 * 5 + 1074 by norm_num, pow_add]
    exact mul_le_mul_of_nonneg_right (h2.trans ht) (by positivity)
  have hn := le_unitRatio hq
  have hf := Binary64.rankCount_le_nearestRank hn
  rw [nearestRank_of_readsBack h] at hf
  omega

theorem le_point (h : readsBack rank d = true) (h0 : 0 < rank) : -330 ≤ d.point := by
  by_contra hp
  have hl : d.toRat * 10 ^ (66 * 5) < 1 := by
    have ht : d.toRat < 10 ^ (-(66 * 5 : ℕ) : ℤ) :=
      (toRat_lt d).trans_le (zpow_le_zpow_right₀ (by norm_num) (by push_cast; omega))
    rw [zpow_neg, zpow_natCast, ← one_div] at ht
    exact (lt_div_iff₀ (by positivity)).1 ht
  have hq : 2 * (d.toRat * unity) < 1 := by
    have hd : 0 ≤ d.toRat := by rw [toRat]; positivity
    have h2 : (2 : ℚ) ^ (215 * 5) ≤ 10 ^ (66 * 5) := two_pow_le_ten_pow (by norm_num) 5
    have hm := mul_le_mul_of_nonneg_left h2 hd
    rw [cast_unity, mul_left_comm, ← pow_succ']
    exact hm.trans_lt hl
  have hn : 2 * d.unitRatio.1 < d.unitRatio.2 := by
    have hd : (0 : ℚ) < d.unitRatio.2 := Nat.cast_pos.2 (unitRatio_den_pos d)
    have hm := mul_lt_mul_of_pos_right hq hd
    rw [mul_assoc, ← unitRatio_num, one_mul] at hm
    exact_mod_cast hm
  have hz := Binary64.nearestRank_eq_zero hn
  rw [nearestRank_of_readsBack h] at hz
  omega

theorem toBinary_of_readsBack (negative : Bool) (h : readsBack rank d = true) (h0 : 0 < rank)
    (hr : rank < rankCount) : d.toBinary negative = .finite negative ⟨rank, hr⟩ := by
  have hn := nearestRank_of_readsBack h
  have hh : ¬ 310 < (digitCount d.coefficient + d.exponent : ℤ) := not_lt.2 (point_le h h0 hr)
  have hl : ¬ (digitCount d.coefficient + d.exponent : ℤ) < -330 := not_lt.2 (le_point h h0)
  rw [toBinary, if_neg (coefficient_ne_zero h h0)]
  simp only [if_neg hh, if_neg hl, Binary64.ofUnits, hn, dif_pos hr]

end BlockScript.Decimal
