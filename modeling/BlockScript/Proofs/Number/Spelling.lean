import BlockScript.Proofs.Number.Shortest
import BlockScript.Proofs.Script.Lexemes
import Mathlib.Data.List.TakeWhile

/-!
# How numbers are spelled

A number is spelled as a row of digits, with a fraction and an exponent if it is
not an integer. The text of a binary number is such a spelling, positional or
with an exponent, and the decimal it spells is the shortest one that was chosen
for the number, so that it reads back as the number.
-/

set_option autoImplicit false

namespace BlockScript

def digitValues (cs : List Char) : List Nat := cs.map fun c => c.toNat - '0'.toNat

def digitsValue (cs : List Char) : Nat := Text.valueOfDigits (digitValues cs)

theorem foldl_digits (digits : List Nat) (start : Nat) :
    digits.foldl (fun value d => 10 * value + d) start =
      start * 10 ^ digits.length + Text.valueOfDigits digits := by
  induction digits generalizing start with
  | nil => simp [Text.valueOfDigits]
  | cons d digits ih =>
    rw [Text.valueOfDigits, List.foldl_cons, List.foldl_cons, ih, ih (10 * 0 + d), List.length_cons]
    ring

theorem digitsValue_append (a b : List Char) :
    digitsValue (a ++ b) = digitsValue a * 10 ^ b.length + digitsValue b := by
  rw [digitsValue, digitValues, List.map_append, Text.valueOfDigits, List.foldl_append,
    foldl_digits, List.length_map]
  rfl

theorem digitsValue_zeros (n : Nat) : digitsValue (List.replicate n '0') = 0 := by
  induction n with
  | zero => rfl
  | succ n ih =>
    rw [List.replicate_succ', digitsValue_append, ih]
    rfl

theorem digitsValue_zeros_append (n : Nat) (cs : List Char) :
    digitsValue (List.replicate n '0' ++ cs) = digitsValue cs := by
  rw [digitsValue_append, digitsValue_zeros, Nat.zero_mul, Nat.zero_add]

theorem digitsValue_toDigits (n : Nat) : digitsValue (Nat.toDigits 10 n) = n :=
  Text.valueOfDigits_toDigits n

theorem head?_toDigits_ne_zero {n : Nat} (h : n ≠ 0) : (Nat.toDigits 10 n).head? ≠ some '0' := by
  induction n using Nat.strongRecOn with
  | ind n ih =>
    by_cases hn : n < 10
    · have hd : ∀ k < 10, k ≠ 0 → [Nat.digitChar k].head? ≠ some '0' := by decide
      rw [Nat.toDigits_of_lt_base hn]
      exact hd n hn h
    · rw [Nat.toDigits_of_base_le (by decide) (by omega),
        List.head?_append_of_ne_nil _ Nat.toDigits_ne_nil]
      exact ih (n / 10) (by omega) (by omega)

theorem isDigit_zeros {n : Nat} : ∀ c ∈ List.replicate n '0', c.isDigit = true := by
  intro c hc
  rw [List.eq_of_mem_replicate hc]
  rfl

structure DigitRow where
  chars : List Char
  ne_nil : chars ≠ []
  isDigit : ∀ c ∈ chars, c.isDigit = true

namespace DigitRow

def single (c : Char) (h : c.isDigit = true) : DigitRow where
  chars := [c]
  ne_nil := List.cons_ne_nil _ _
  isDigit _ hd := List.mem_singleton.1 hd ▸ h

def ofNat (n : Nat) : DigitRow where
  chars := Nat.toDigits 10 n
  ne_nil := Nat.toDigits_ne_nil
  isDigit _ hc := isDigit_of_mem_digits hc

def zerosBefore (n : Nat) (row : DigitRow) : DigitRow where
  chars := List.replicate n '0' ++ row.chars
  ne_nil := by simp [row.ne_nil]
  isDigit c hc := (List.mem_append.1 hc).elim (isDigit_zeros c) (row.isDigit c)

def zerosAfter (row : DigitRow) (n : Nat) : DigitRow where
  chars := row.chars ++ List.replicate n '0'
  ne_nil := by simp [row.ne_nil]
  isDigit c hc := (List.mem_append.1 hc).elim (row.isDigit c) (isDigit_zeros c)

def upTo (row : DigitRow) (n : Nat) (h : 0 < n) : DigitRow where
  chars := row.chars.take n
  ne_nil := by simp [row.ne_nil, Nat.ne_of_gt h]
  isDigit c hc := row.isDigit c (List.mem_of_mem_take hc)

def behind (row : DigitRow) (n : Nat) (h : n < row.chars.length) : DigitRow where
  chars := row.chars.drop n
  ne_nil := by simp [h]
  isDigit c hc := row.isDigit c (List.mem_of_mem_drop hc)

def padded (width n : Nat) : DigitRow := zerosBefore (width - (ofNat n).chars.length) (ofNat n)

theorem chars_padded (width n : Nat) :
    (padded width n).chars = NumberLayout.padLeft width (Nat.toDigits 10 n) := rfl

theorem digitsValue_padded (width n : Nat) : digitsValue (padded width n).chars = n := by
  rw [padded, zerosBefore, digitsValue_zeros_append]
  exact digitsValue_toDigits n

end DigitRow

/-- The parts of an unsigned number text. A zero that stands first stands alone. -/
structure Spelling where
  whole : DigitRow
  fraction : Option DigitRow
  exponent : Option (Bool × DigitRow)
  leading : whole.chars.head? = some '0' → whole.chars = ['0']

namespace Spelling

def fractionText : Option DigitRow → List Char
  | none => []
  | some row => '.' :: row.chars

def exponentText : Option (Bool × DigitRow) → List Char
  | none => []
  | some (negative, row) => 'e' :: (if negative then '-' else '+') :: row.chars

def chars (s : Spelling) : List Char :=
  s.whole.chars ++ (fractionText s.fraction ++ exponentText s.exponent)

theorem mem_chars (s : Spelling) {c : Char} (h : c ∈ s.chars) :
    c.isDigit = true ∨ c = '.' ∨ c = 'e' ∨ c = '-' ∨ c = '+' := by
  rw [chars, List.mem_append, List.mem_append] at h
  rcases h with h | h | h
  · exact .inl (s.whole.isDigit c h)
  · cases hf : s.fraction with
    | none => simp [hf, fractionText] at h
    | some row =>
      simp only [hf, fractionText, List.mem_cons] at h
      exact h.elim (fun h => .inr (.inl h)) fun h => .inl (row.isDigit c h)
  · cases he : s.exponent with
    | none => simp [he, exponentText] at h
    | some mark =>
      simp only [he, exponentText, List.mem_cons] at h
      rcases h with h | h | h
      · simp [h]
      · cases hm : mark.1 <;> simp [h, hm]
      · exact .inl (mark.2.isDigit c h)

def exponentValue (mark : Bool × DigitRow) : Int :=
  if mark.1 then -(digitsValue mark.2.chars : Int) else digitsValue mark.2.chars

def numeral (s : Spelling) (negative : Bool) : Numeral where
  negative := negative
  whole := digitValues s.whole.chars
  fraction := s.fraction.map fun row => digitValues row.chars
  exponent := s.exponent.map exponentValue

def IsFractional (s : Spelling) : Prop := s.fraction.isSome ∨ s.exponent.isSome

theorem decimal_numeral (s : Spelling) (negative : Bool) :
    (s.numeral negative).decimal =
      ⟨digitsValue (s.whole.chars ++ (s.fraction.map DigitRow.chars).getD []),
        (s.numeral negative).exponent.getD 0 -
          ((s.fraction.map DigitRow.chars).getD []).length⟩ := by
  cases hf : s.fraction with
  | none => simp [Numeral.decimal, numeral, hf, digitsValue]
  | some row => simp [Numeral.decimal, numeral, hf, digitsValue, digitValues]

theorem value_of_isFractional {s : Spelling} (h : s.IsFractional) (negative : Bool) :
    (s.numeral negative).value = .float ((s.numeral negative).decimal.toBinary negative) := by
  have hi : (s.numeral negative).isInteger = false := by
    rcases h with h | h
    · simp [Numeral.isInteger, numeral, Option.isNone_eq_false_iff.2 h]
    · simp [Numeral.isInteger, numeral, Option.isNone_eq_false_iff.2 h]
  rw [Numeral.value, hi]
  rfl

structure Spells (s : Spelling) (q : ℚ) : Prop where
  fractional : s.IsFractional
  toRat : ∀ negative, (s.numeral negative).decimal.toRat = q

end Spelling

namespace Decimal

variable {d : Decimal}

theorem exists_significant_append (d : Decimal) :
    ∃ n, Nat.toDigits 10 d.coefficient = d.significant ++ List.replicate n '0' := by
  refine ⟨((Nat.toDigits 10 d.coefficient).reverse.takeWhile (· == '0')).length, ?_⟩
  have hz : (Nat.toDigits 10 d.coefficient).reverse.takeWhile (· == '0') =
      List.replicate ((Nat.toDigits 10 d.coefficient).reverse.takeWhile (· == '0')).length '0' :=
    List.eq_replicate_of_mem fun c hc => by simpa using List.mem_takeWhile_imp hc
  rw [← List.reverse_inj, significant, List.reverse_append, List.reverse_reverse,
    List.reverse_replicate, ← hz, List.takeWhile_append_dropWhile]

structure Significant (d : Decimal) (row : DigitRow) : Prop where
  chars : row.chars = d.significant
  leading : row.chars.head? ≠ some '0'
  value : d.toRat = digitsValue row.chars * 10 ^ (d.point - row.chars.length)

theorem exists_significant (h : d.coefficient ≠ 0) : ∃ row, Significant d row := by
  obtain ⟨n, hn⟩ := exists_significant_append d
  have hv : d.coefficient = digitsValue d.significant * 10 ^ n := by
    have hv := digitsValue_toDigits d.coefficient
    rw [hn, digitsValue_append, digitsValue_zeros, List.length_replicate] at hv
    omega
  have hne : d.significant ≠ [] := by
    intro hs
    rw [hs] at hv
    exact h (by simpa [digitsValue, digitValues, Text.valueOfDigits] using hv)
  have hd : ∀ c ∈ d.significant, c.isDigit = true := by
    intro c hc
    apply isDigit_of_mem_digits (n := d.coefficient)
    rw [hn]
    exact List.mem_append_left _ hc
  have hl : d.significant.head? ≠ some '0' := by
    have hh := head?_toDigits_ne_zero h
    rwa [hn, List.head?_append_of_ne_nil _ hne] at hh
  have hp : d.point - d.significant.length = n + d.exponent := by
    have hc := congrArg List.length hn
    rw [List.length_append, List.length_replicate] at hc
    rw [point, digitCount, hc]
    push_cast
    ring
  refine ⟨⟨d.significant, hne, hd⟩, rfl, hl, ?_⟩
  change d.toRat = digitsValue d.significant * 10 ^ (d.point - d.significant.length)
  rw [hp, zpow_add₀ (by norm_num), zpow_natCast, toRat, ← mul_assoc]
  congr 1
  exact_mod_cast hv

end Decimal

namespace Spelling

theorem exists_below_one (row : DigitRow) {point : Int} (hp : point ≤ 0) :
    ∃ s : Spelling,
      s.chars = '0' :: '.' :: (List.replicate (-point).toNat '0' ++ row.chars) ∧
      s.Spells (digitsValue row.chars * 10 ^ (point - row.chars.length)) := by
  refine ⟨⟨.single '0' rfl, some (.zerosBefore (-point).toNat row), none, fun _ => rfl⟩, ?_,
    .inl rfl, ?_⟩
  · simp [chars, fractionText, exponentText, DigitRow.single, DigitRow.zerosBefore]
  · intro negative
    have he : (0 : Int) - ((-point).toNat + row.chars.length : ℕ) = point - row.chars.length := by
      omega
    rw [decimal_numeral]
    change digitsValue ('0' :: (List.replicate (-point).toNat '0' ++ row.chars)) *
      (10 : ℚ) ^ ((0 : Int) - (List.replicate (-point).toNat '0' ++ row.chars).length) = _
    rw [← List.cons_append, ← List.replicate_succ, digitsValue_zeros_append, List.length_append,
      List.length_replicate, he]

theorem exists_whole (row : DigitRow) (hl : row.chars.head? ≠ some '0') {whole : Nat}
    (hw : row.chars.length ≤ whole) :
    ∃ s : Spelling,
      s.chars = row.chars ++ List.replicate (whole - row.chars.length) '0' ++ ['.', '0'] ∧
      s.Spells (digitsValue row.chars * 10 ^ (whole - row.chars.length : Int)) := by
  have hd : (row.zerosAfter (whole - row.chars.length)).chars.head? ≠ some '0' := by
    rwa [DigitRow.zerosAfter, List.head?_append_of_ne_nil _ row.ne_nil]
  refine ⟨⟨row.zerosAfter (whole - row.chars.length), some (.single '0' rfl), none,
    fun h => absurd h hd⟩, rfl, .inl rfl, ?_⟩
  intro negative
  have he : (whole - row.chars.length : Int) = (whole - row.chars.length : ℕ) := by omega
  rw [decimal_numeral]
  change digitsValue (row.chars ++ List.replicate (whole - row.chars.length) '0' ++ ['0']) *
    (10 : ℚ) ^ ((0 : Int) - 1) = _
  rw [List.append_assoc, ← List.replicate_succ', digitsValue_append, digitsValue_zeros,
    List.length_replicate, he, zpow_natCast]
  push_cast
  rw [pow_succ]
  norm_num
  ring

theorem exists_split (row : DigitRow) (hl : row.chars.head? ≠ some '0') {whole : Nat}
    (h0 : 0 < whole) (hw : whole < row.chars.length) :
    ∃ s : Spelling, s.chars = row.chars.take whole ++ '.' :: row.chars.drop whole ∧
      s.Spells (digitsValue row.chars * 10 ^ (whole - row.chars.length : Int)) := by
  have hd : (row.upTo whole h0).chars.head? ≠ some '0' := by
    rwa [DigitRow.upTo, List.head?_take, if_neg (by omega)]
  refine ⟨⟨row.upTo whole h0, some (row.behind whole hw), none, fun h => absurd h hd⟩, ?_,
    .inl rfl, ?_⟩
  · simp [chars, fractionText, exponentText, DigitRow.upTo, DigitRow.behind]
  · intro negative
    have he : (0 : Int) - (row.chars.length - whole : ℕ) = whole - row.chars.length := by omega
    rw [decimal_numeral]
    change digitsValue (row.chars.take whole ++ row.chars.drop whole) *
      (10 : ℚ) ^ ((0 : Int) - (row.chars.drop whole).length) = _
    rw [List.take_append_drop, List.length_drop, he]

theorem exists_positional (row : DigitRow) (hl : row.chars.head? ≠ some '0') (point : Int) :
    ∃ s : Spelling, s.chars = NumberLayout.positional row.chars point ∧
      s.Spells (digitsValue row.chars * 10 ^ (point - row.chars.length)) := by
  by_cases hp : point ≤ 0
  · rw [NumberLayout.positional, if_pos hp]
    exact exists_below_one row hp
  · have hn : (point.toNat : Int) = point := by omega
    rw [NumberLayout.positional, if_neg hp, ← hn]
    by_cases hw : row.chars.length ≤ point.toNat
    · simp only [Int.toNat_natCast, if_pos hw]
      exact exists_whole row hl hw
    · simp only [Int.toNat_natCast, if_neg hw]
      exact exists_split row hl (by omega) (by omega)

theorem exponentValue_padded (width : Nat) (exponent : Int) :
    exponentValue (decide (exponent < 0), .padded width exponent.natAbs) = exponent := by
  simp only [exponentValue, DigitRow.digitsValue_padded, decide_eq_true_eq]
  split <;> omega

/-- One digit before the point, the others behind it, and an exponent. -/
theorem exists_scientific (layout : NumberLayout) (row : DigitRow)
    (hl : row.chars.head? ≠ some '0') (exponent : Int) :
    ∃ s : Spelling, s.chars = layout.scientific row.chars exponent ∧
      s.Spells (digitsValue row.chars * 10 ^ (exponent + 1 - row.chars.length)) := by
  have hm := exponentValue_padded layout.exponentWidth exponent
  generalize hmark : (decide (exponent < 0),
    DigitRow.padded layout.exponentWidth exponent.natAbs) = mark at hm
  obtain ⟨cs, hne, hd⟩ := row
  match cs with
  | [] => exact absurd rfl hne
  | [first] =>
    refine ⟨⟨⟨[first], hne, hd⟩, none, some mark, fun h => absurd h hl⟩, ?_, .inr rfl, ?_⟩
    · simp [chars, fractionText, exponentText, NumberLayout.scientific, ← hmark,
        DigitRow.chars_padded]
    · intro negative
      rw [decimal_numeral]
      simp [Decimal.toRat, numeral, hm]
  | first :: second :: rest =>
    refine ⟨⟨.single first (hd first List.mem_cons_self),
      some (.behind ⟨first :: second :: rest, hne, hd⟩ 1 (by simp)), some mark,
      fun h => absurd h hl⟩, ?_, .inl rfl, ?_⟩
    · simp [chars, fractionText, exponentText, DigitRow.single, DigitRow.behind,
        NumberLayout.scientific, ← hmark, DigitRow.chars_padded]
    · intro negative
      rw [decimal_numeral]
      simp [Decimal.toRat, numeral, DigitRow.single, DigitRow.behind, hm]

theorem exists_writeMagnitude (layout : NumberLayout) (rank : Fin rankCount) :
    ∃ s : Spelling, s.chars = layout.writeMagnitude rank ∧ s.IsFractional ∧
      ∀ negative, (s.numeral negative).value = .float (.finite negative rank) := by
  by_cases h0 : rank.val = 0
  · obtain rfl : rank = ⟨0, by decide⟩ := Fin.ext h0
    refine ⟨⟨.single '0' rfl, some (.single '0' rfl), none, fun _ => rfl⟩, rfl, .inl rfl, ?_⟩
    intro negative
    exact value_of_isFractional (.inl rfl) negative
  · have hr := Decimal.readsBack_shortest rank
    have hp : 0 < rank.val := Nat.pos_of_ne_zero h0
    obtain ⟨row, hs⟩ := Decimal.exists_significant (Decimal.coefficient_ne_zero hr hp)
    have hw : ∃ s : Spelling, s.chars = layout.writeMagnitude rank ∧
        s.Spells (Decimal.shortest rank).toRat := by
      rw [NumberLayout.writeMagnitude, if_neg h0]
      simp only
      split
      · rw [← hs.chars, hs.value]
        exact exists_positional row hs.leading _
      · rw [← hs.chars, hs.value]
        simpa using exists_scientific layout row hs.leading ((Decimal.shortest rank).point - 1)
    obtain ⟨s, hc, hq⟩ := hw
    refine ⟨s, hc, hq.fractional, fun negative => ?_⟩
    have hb : Decimal.readsBack rank (s.numeral negative).decimal = true := by
      rw [Decimal.readsBack_congr (hq.toRat negative), hr]
    rw [value_of_isFractional hq.fractional, Decimal.toBinary_of_readsBack negative hb hp rank.isLt]

end Spelling

end BlockScript
