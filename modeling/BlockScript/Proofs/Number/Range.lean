import BlockScript.Number.Basic
import BlockScript.Proofs.Failure
import BlockScript.Proofs.Number.Rounding
import Mathlib.Tactic.Ring

/-!
# The range of floating point numbers

An integer has a nearest floating point number as long as it is below
`2^1024 - 2^970`, which is half way between the greatest finite magnitude and the
power of two that would follow it. Adding fails exactly past this bound. A whole
floating point number is below `2^1024`, so its integer can always be shown,
while an integer by itself can be shown if it keeps to the digit limit.
-/

set_option autoImplicit false

namespace BlockScript

namespace Binary64

/-- Rounding comes to an even number or above it from half a unit below it on,
since the half goes to the even neighbour. -/
theorem le_roundQuotient_iff {num den k : Nat} (hd : 0 < den) (hk : k % 2 = 0) (hp : 0 < k) :
    k ≤ roundQuotient num den ↔ (2 * k - 1) * den ≤ 2 * num := by
  have hm := Nat.div_add_mod num den
  have hr := Nat.mod_lt num hd
  simp only [roundQuotient]
  generalize num / den = q at *
  generalize num % den = r at *
  have hn : 2 * num = 2 * q * den + 2 * r := by
    rw [← hm]
    ring
  rw [hn]
  rcases Nat.lt_trichotomy k (q + 1) with h | h | h
  · have hle : (2 * k - 1) * den ≤ 2 * q * den := Nat.mul_le_mul_right den (by omega)
    split
    · omega
    · split <;> omega
  · -- The one place where it depends on the remainder.
    subst h
    have hs : (2 * (q + 1) - 1) * den = 2 * q * den + den := by
      rw [show 2 * (q + 1) - 1 = 2 * q + 1 by omega]
      ring
    rw [hs]
    split
    · omega
    · split <;> omega
  · have hs : (2 * q + 3) * den ≤ (2 * k - 1) * den := Nat.mul_le_mul_right den (by omega)
    have he : (2 * q + 3) * den = 2 * q * den + 3 * den := by ring
    split
    · omega
    · split <;> omega

theorem nearestRank_one (units : Nat) :
    nearestRank units 1 = (Nat.log2 units - 52) * 2 ^ 52 +
      roundQuotient units (2 ^ (Nat.log2 units - 52)) := by
  rw [nearestRank, Nat.div_one, Nat.one_mul]
  rfl

theorem lt_pow_log2 (units : Nat) : units < 2 ^ (Nat.log2 units - 52) * 2 ^ 53 := by
  rw [← Nat.pow_add]
  exact Nat.lt_of_lt_of_le Nat.lt_log2_self (Nat.pow_le_pow_right (by decide) (by omega))

theorem pow_log2_le {units : Nat} (h : 52 < Nat.log2 units) :
    2 ^ (Nat.log2 units - 52) * 2 ^ 52 ≤ units := by
  have h0 : units ≠ 0 := by
    rintro rfl
    rw [Nat.log2_zero] at h
    omega
  rw [← Nat.pow_add, Nat.sub_add_cancel (by omega)]
  exact Nat.log2_self_le h0

/-- Where the ranks of one power of two end: half a unit of that power below the next. -/
theorem le_nearestRank_iff (e units : Nat) :
    (e + 2) * 2 ^ 52 ≤ nearestRank units 1 ↔ (2 ^ 54 - 1) * 2 ^ e ≤ 2 * units := by
  have hq := roundQuotient_eq_or units (2 ^ (Nat.log2 units - 52))
  rw [nearestRank_one]
  rcases Nat.lt_trichotomy (Nat.log2 units - 52) e with h | h | h
  · have hpow : 2 ^ (Nat.log2 units - 52) * 2 ≤ 2 ^ e := by
      rw [← Nat.pow_succ]
      exact Nat.pow_le_pow_right (by decide) h
    have hu := lt_pow_log2 units
    have hdiv := Nat.div_lt_of_lt_mul hu
    omega
  · have hiff : 2 ^ 53 ≤ roundQuotient units (2 ^ e) ↔ (2 * 2 ^ 53 - 1) * 2 ^ e ≤ 2 * units :=
      le_roundQuotient_iff (Nat.two_pow_pos e) (by decide) (by decide)
    rw [h]
    omega
  · have hpow : 2 ^ e * 2 ≤ 2 ^ (Nat.log2 units - 52) := by
      rw [← Nat.pow_succ]
      exact Nat.pow_le_pow_right (by decide) h
    have hu : 2 ^ (Nat.log2 units - 52) * 2 ^ 52 ≤ units := pow_log2_le (by omega)
    have hdiv : 2 ^ 52 ≤ units / 2 ^ (Nat.log2 units - 52) :=
      (Nat.le_div_iff_mul_le (Nat.two_pow_pos _)).2 (by rwa [Nat.mul_comm])
    omega

theorem ofUnits_of_lt {num den : Nat} (negative : Bool) (h : nearestRank num den < rankCount) :
    ofUnits negative num den = .finite negative ⟨nearestRank num den, h⟩ := dif_pos h

theorem ofUnits_of_not_lt {num den : Nat} (negative : Bool)
    (h : ¬ nearestRank num den < rankCount) : ofUnits negative num den = .infinity negative :=
  dif_neg h

theorem finite?_ofUnits (negative : Bool) (num den : Nat) :
    (ofUnits negative num den).finite? = none ↔ rankCount ≤ nearestRank num den := by
  by_cases h : nearestRank num den < rankCount
  · rw [ofUnits_of_lt negative h]
    exact iff_of_false (Option.some_ne_none _) (Nat.not_le.2 h)
  · rw [ofUnits_of_not_lt negative h]
    exact iff_of_true rfl (Nat.not_lt.1 h)

theorem ofInt?_eq_none_iff (n : Int) : ofInt? n = none ↔ 2 ^ 1024 - 2 ^ 970 ≤ n.natAbs := by
  have hrank : rankCount = (2045 + 2) * 2 ^ 52 := rfl
  have hunity : unity = 2 ^ 1074 := rfl
  have hpow : 2 ^ 2045 = 2 * 2 ^ 970 * 2 ^ 1074 := by
    rw [Nat.mul_assoc, ← Nat.pow_add, ← Nat.pow_succ']
  have hthr : 2 ^ 1024 - 2 ^ 970 = (2 ^ 54 - 1) * 2 ^ 970 := by
    rw [Nat.sub_mul, Nat.one_mul, ← Nat.pow_add]
  have hu : 0 < 2 ^ 1074 := Nat.two_pow_pos 1074
  rw [ofInt?, finite?_ofUnits, hrank, le_nearestRank_iff, hthr, hpow, hunity]
  generalize 2 ^ 970 = x at *
  generalize 2 ^ 1074 = u at *
  rw [show (2 ^ 54 - 1) * (2 * x * u) = 2 * ((2 ^ 54 - 1) * x * u) by ring]
  rw [Nat.mul_le_mul_left_iff Nat.two_pos, Nat.mul_le_mul_right_iff hu]

theorem magnitude_lt {rank : Nat} (h : rank < rankCount) : magnitude rank < 2 ^ 1024 * unity := by
  have hrank : rankCount = 2047 * 2 ^ 52 := rfl
  have hpow : 2 ^ 53 * 2 ^ 2045 = 2 ^ 1024 * unity := by
    rw [show unity = 2 ^ 1074 from rfl, ← Nat.pow_add, ← Nat.pow_add]
  rw [← hpow]
  by_cases hs : rank < 2 ^ 52
  · have hm : magnitude rank = rank := if_pos hs
    have hp : 0 < 2 ^ 2045 := Nat.two_pow_pos 2045
    have hle : 2 ^ 53 * 1 ≤ 2 ^ 53 * 2 ^ 2045 := Nat.mul_le_mul_left _ hp
    rw [hm]
    exact Nat.lt_of_lt_of_le (by omega) hle
  · have hm : magnitude rank = (2 ^ 52 + rank % 2 ^ 52) * 2 ^ (rank / 2 ^ 52 - 1) := if_neg hs
    have hsig : 2 ^ 52 + rank % 2 ^ 52 < 2 ^ 53 := by omega
    have hexp : 2 ^ (rank / 2 ^ 52 - 1) ≤ 2 ^ 2045 :=
      Nat.pow_le_pow_right (by decide) (by omega)
    rw [hm]
    exact Nat.mul_lt_mul_of_lt_of_le hsig hexp (Nat.two_pow_pos _)

/-- A whole number of the finite range is below the power of two that ends it. -/
theorem natAbs_toInt?_lt {x : Binary64} {n : Int} (h : x.toInt? = some n) :
    n.natAbs < 2 ^ 1024 := by
  cases x with
  | finite negative rank =>
    have hm := magnitude_lt rank.isLt
    have hq : magnitude rank / unity < 2 ^ 1024 := Nat.div_lt_of_lt_mul (by rwa [Nat.mul_comm])
    simp only [toInt?] at h
    generalize magnitude rank / unity = q at *
    split at h
    · cases negative <;> cases h <;> simpa using hq
    · cases h
  | infinity | nan => cases h

end Binary64

namespace Number

inductive Misfit : Number → Number → Prop
  | left {n : Int} (x : Binary64) : 2 ^ 1024 - 2 ^ 970 ≤ n.natAbs → Misfit (.int n) (.float x)
  | right {n : Int} (x : Binary64) : 2 ^ 1024 - 2 ^ 970 ≤ n.natAbs → Misfit (.float x) (.int n)

/-- Numbers have a sum unless one is an integer that does not fit the other. -/
theorem fails_add_iff (x y : Number) : Except.Fails (x.add y) ↔ x.Misfit y := by
  cases x with
  | int a =>
    cases y with
    | int b => exact ⟨nofun, nofun⟩
    | float y =>
      have hs : Misfit (.int a) (.float y) ↔ Binary64.ofInt? a = none := by
        rw [Binary64.ofInt?_eq_none_iff]
        exact ⟨fun | .left _ h => h, .left y⟩
      rw [hs, add, addBy]
      cases Binary64.ofInt? a <;> simp
  | float x =>
    cases y with
    | int b =>
      have hs : Misfit (.float x) (.int b) ↔ Binary64.ofInt? b = none := by
        rw [Binary64.ofInt?_eq_none_iff]
        exact ⟨fun | .right _ h => h, .right x⟩
      rw [hs, add, addBy]
      cases Binary64.ofInt? b <;> simp
    | float y => exact ⟨nofun, nofun⟩

theorem not_misfit_zero (y : Number) : ¬ Misfit (.int 0) y := by
  rintro ⟨x, h⟩
  have hp : 2 ^ 970 < 2 ^ 1024 := Nat.pow_lt_pow_right (by decide) (by decide)
  rw [Int.natAbs_zero] at h
  omega

theorem fails_showInt_iff (n : Int) : Except.Fails (showInt n) ↔ 10 ^ digitLimit ≤ n.natAbs := by
  have hl : Decimal.digitCount n.natAbs ≤ digitLimit ↔ n.natAbs < 10 ^ digitLimit :=
    Nat.length_toDigits_le_iff (by decide) (by decide)
  rw [← Nat.not_lt, ← hl, showInt]
  by_cases h : Decimal.digitCount n.natAbs ≤ digitLimit <;> simp [h]

theorem not_fails_showInt_of_toInt? {x : Binary64} {n : Int} (h : x.toInt? = some n) :
    ¬ Except.Fails (showInt n) := by
  have hn := Binary64.natAbs_toInt?_lt h
  have hp : 2 ^ 1024 ≤ 10 ^ digitLimit :=
    (Nat.pow_le_pow_left (by decide) 1024).trans (Nat.pow_le_pow_right (by decide) (by decide))
  rw [fails_showInt_iff]
  omega

end Number

end BlockScript
