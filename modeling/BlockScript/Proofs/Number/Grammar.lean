import BlockScript.Number.Numeral
import Mathlib.Data.List.Forall2
import Mathlib.Data.Nat.Digits.Defs

/-!
# The grammar of number text

Number text is an optional sign, digits around an optional point, and an optional
exponent, where a digit is any of the ten characters that follow a zero of the
table. The grammar is stated by its parts, each with what it stands for. A text is
read as a numeral exactly if the grammar spells that numeral so, and as an integer
exactly if it is a sign and digits and keeps to the digit limit.
-/

set_option autoImplicit false

namespace BlockScript

namespace Text

def IsDigitOf (c : Char) (d : Nat) : Prop := d < 10 ∧ ∃ start ∈ zeros, c.toNat = start + d

theorem zeros_apart : zeros.Pairwise (fun start next => start + 10 ≤ next) := by decide +kernel

/-- The search ends at the first zero that is too high, and still finds every digit. -/
theorem digitAbove_eq_some_iff {table : List Nat}
    (h : table.Pairwise (fun start next => start + 10 ≤ next)) (n d : Nat) :
    digitAbove table n = some d ↔ d < 10 ∧ ∃ start ∈ table, n = start + d := by
  induction table with
  | nil => simp [digitAbove]
  | cons first rest ih =>
    obtain ⟨hfirst, hrest⟩ := List.pairwise_cons.1 h
    simp only [digitAbove, List.mem_cons, exists_eq_or_imp]
    split
    · next hlow =>
      have hnone : ∀ start ∈ rest, n ≠ start + d := by
        intro start hz
        have := hfirst start hz
        omega
      constructor
      · intro he
        cases he
      · rintro ⟨-, he | ⟨start, hz, he⟩⟩
        · omega
        · exact absurd he (hnone start hz)
    · split
      · constructor
        · intro he
          cases he
          omega
        · rintro ⟨-, he | ⟨start, hz, he⟩⟩
          · rw [he, Nat.add_sub_cancel_left]
          · have := hfirst start hz
            omega
      · rw [ih hrest]
        constructor
        · rintro ⟨hd, hz⟩
          exact ⟨hd, .inr hz⟩
        · rintro ⟨hd, he | hz⟩
          · omega
          · exact ⟨hd, hz⟩

theorem digitValue?_eq_some_iff (c : Char) (d : Nat) :
    digitValue? c = some d ↔ IsDigitOf c d := digitAbove_eq_some_iff zeros_apart c.toNat d

def IsRow (row : List Char) (digits : List Nat) : Prop := List.Forall₂ IsDigitOf row digits

theorem valueOfDigits_eq_ofDigits (digits : List Nat) :
    valueOfDigits digits = Nat.ofDigits 10 digits.reverse := by
  rw [Nat.ofDigits_eq_foldr, List.foldr_reverse, valueOfDigits]
  congr
  funext value d
  exact Nat.add_comm _ _

theorem exists_row (cs : List Char) :
    ∃ row digits rest, spanDigits cs = (digits, rest) ∧ cs = row ++ rest ∧ IsRow row digits := by
  induction cs with
  | nil => exact ⟨[], [], [], rfl, rfl, .nil⟩
  | cons c cs ih =>
    obtain ⟨row, digits, rest, hs, hcs, hr⟩ := ih
    cases hc : digitValue? c with
    | none => exact ⟨[], [], c :: cs, by rw [spanDigits, hc], rfl, .nil⟩
    | some d =>
      refine ⟨c :: row, d :: digits, rest, ?_, ?_, .cons ((digitValue?_eq_some_iff c d).1 hc) hr⟩
      · simp only [spanDigits, hc, hs]
      · rw [List.cons_append, ← hcs]

/-- A row of digits is taken off the front of a text if no digit follows it. -/
theorem spanDigits_append {row rest : List Char} {digits : List Nat} (h : IsRow row digits)
    (hr : ∀ c ∈ rest.head?, digitValue? c = none) :
    spanDigits (row ++ rest) = (digits, rest) := by
  induction h with
  | nil =>
    cases rest with
    | nil => rfl
    | cons c rest => rw [List.nil_append, spanDigits, hr c rfl]
  | cons hc _ ih =>
    rw [List.cons_append, spanDigits, (digitValue?_eq_some_iff _ _).2 hc]
    simp only [ih]

end Text

namespace Numeral

open Text (IsRow)

def signed (negative : Bool) (size : Nat) : Int := if negative then -(size : Int) else size

inductive IsSign : List Char → Bool → Prop
  | absent : IsSign [] false
  | plus : IsSign ['+'] false
  | minus : IsSign ['-'] true

inductive IsMantissa : List Char → List Nat → Option (List Nat) → Prop
  | whole {row : List Char} {digits : List Nat} : IsRow row digits → digits ≠ [] →
      IsMantissa row digits none
  | pointed {row further : List Char} {digits fraction : List Nat} : IsRow row digits →
      digits ≠ [] → IsRow further fraction →
      IsMantissa (row ++ '.' :: further) digits (some fraction)
  | fraction {row : List Char} {digits : List Nat} : IsRow row digits → digits ≠ [] →
      IsMantissa ('.' :: row) [] (some digits)

inductive IsExponent : List Char → Option Int → Prop
  | absent : IsExponent [] none
  | marked {mark : Char} {sign row : List Char} {negative : Bool} {digits : List Nat} :
      mark = 'e' ∨ mark = 'E' → IsSign sign negative → IsRow row digits → digits ≠ [] →
      IsExponent (mark :: (sign ++ row))
        (some (signed negative (Nat.ofDigits 10 digits.reverse)))

/-- Number text and the numeral that it spells. -/
inductive Spells : List Char → Numeral → Prop
  | intro {sign mantissa power : List Char} {negative : Bool} {whole : List Nat}
      {fraction : Option (List Nat)} {exponent : Option Int} :
      IsSign sign negative → IsMantissa mantissa whole fraction → IsExponent power exponent →
      Spells (sign ++ (mantissa ++ power)) ⟨negative, whole, fraction, exponent⟩

theorem exists_sign (cs : List Char) :
    ∃ sign negative rest, spanSign cs = (negative, rest) ∧ cs = sign ++ rest ∧
      IsSign sign negative := by
  unfold spanSign
  split
  · next rest => exact ⟨['+'], false, rest, rfl, rfl, .plus⟩
  · next rest => exact ⟨['-'], true, rest, rfl, rfl, .minus⟩
  · exact ⟨[], false, cs, rfl, rfl, .absent⟩

theorem spanSign_append {sign rest : List Char} {negative : Bool} (h : IsSign sign negative)
    (hp : rest.head? ≠ some '+') (hm : rest.head? ≠ some '-') :
    spanSign (sign ++ rest) = (negative, rest) := by
  cases h with
  | plus => rfl
  | minus => rfl
  | absent =>
    rw [List.nil_append]
    unfold spanSign
    split
    · exact absurd rfl hp
    · exact absurd rfl hm
    · rfl

section Heads

variable {c : Char} (hc : Text.digitValue? c = none)

include hc

/-- A text that starts with a digit does not start with any other character. -/
theorem head?_row_ne {row : List Char} {digits : List Nat} (h : IsRow row digits)
    (hn : digits ≠ []) (rest : List Char) : (row ++ rest).head? ≠ some c := by
  cases h with
  | nil => exact absurd rfl hn
  | cons hd =>
    rintro ⟨⟩
    rw [(Text.digitValue?_eq_some_iff _ _).2 hd] at hc
    cases hc

theorem head?_mantissa_ne {mantissa : List Char} {whole : List Nat} {fraction : Option (List Nat)}
    (h : IsMantissa mantissa whole fraction) (hp : c ≠ '.') (rest : List Char) :
    (mantissa ++ rest).head? ≠ some c := by
  cases h with
  | whole hr hn => exact head?_row_ne hc hr hn rest
  | pointed hr hn _ =>
    rw [List.append_assoc]
    exact head?_row_ne hc hr hn _
  | fraction =>
    rintro ⟨⟩
    exact hp rfl

end Heads

theorem head?_exponent {power : List Char} {exponent : Option Int}
    (h : IsExponent power exponent) :
    ∀ c ∈ power.head?, Text.digitValue? c = none ∧ c ≠ '.' := by
  intro c hc
  cases h with
  | absent => cases hc
  | marked hm =>
    cases hc
    rcases hm with rfl | rfl
    · exact ⟨by decide, by decide⟩
    · exact ⟨by decide, by decide⟩

theorem isExponent_of_exponent? {cs : List Char} {exponent : Option Int}
    (h : exponent? cs = some exponent) : IsExponent cs exponent := by
  unfold exponent? at h
  split at h
  · cases h
    exact .absent
  · next mark cs =>
    split at h
    · next hm =>
      obtain ⟨sign, negative, unsigned, hspan, rfl, hs⟩ := exists_sign cs
      obtain ⟨row, digits, rest, hdigits, rfl, hr⟩ := Text.exists_row unsigned
      simp only [hspan, hdigits] at h
      split at h
      · cases h
      · next hn he =>
        cases he
        cases h
        rw [List.append_nil, Text.valueOfDigits_eq_ofDigits]
        exact .marked hm hs hr hn
      · cases h
    · cases h

theorem exponent?_of_isExponent {cs : List Char} {exponent : Option Int}
    (h : IsExponent cs exponent) : exponent? cs = some exponent := by
  cases h with
  | absent => rfl
  | @marked mark sign row negative digits hm hs hr hn =>
    have hp := head?_row_ne (c := '+') (by decide) hr hn []
    have hq := head?_row_ne (c := '-') (by decide) hr hn []
    have hd : Text.spanDigits (row ++ []) = (digits, []) := Text.spanDigits_append hr (by simp)
    rw [List.append_nil] at hp hq hd
    obtain ⟨first, others, rfl⟩ := List.exists_cons_of_ne_nil hn
    simp only [exponent?, if_pos hm, spanSign_append hs hp hq, hd,
      Text.valueOfDigits_eq_ofDigits]
    rfl

/-- What is read as a numeral is number text, and it spells that numeral. -/
theorem spells_of_parse? {cs : List Char} {n : Numeral} (h : parse? cs = some n) :
    Spells cs n := by
  obtain ⟨sign, negative, unsigned, hspan, rfl, hs⟩ := exists_sign cs
  obtain ⟨row, whole, afterWhole, hwhole, rfl, hr⟩ := Text.exists_row unsigned
  simp only [parse?, hspan, hwhole] at h
  split at h
  · next afterPoint =>
    obtain ⟨further, fraction, power, hfraction, rfl, hf⟩ := Text.exists_row afterPoint
    simp only [hfraction] at h
    split at h
    · cases h
    · next hne =>
      obtain ⟨exponent, he, hn⟩ := Option.bind_eq_some_iff.1 h
      cases hn
      have hm : IsMantissa (row ++ '.' :: further) whole (some fraction) := by
        by_cases hw : whole = []
        · subst hw
          cases hr
          exact .fraction hf (by simpa using hne)
        · exact .pointed hr hw hf
      have hsp := Spells.intro hs hm (isExponent_of_exponent? he)
      rwa [List.append_assoc, List.cons_append] at hsp
  · split at h
    · cases h
    · next hne =>
      obtain ⟨exponent, he, hn⟩ := Option.bind_eq_some_iff.1 h
      cases hn
      exact .intro hs (.whole hr (by simpa using hne)) (isExponent_of_exponent? he)

/-- Number text is read as the numeral that it spells. -/
theorem parse?_of_spells {cs : List Char} {n : Numeral} (h : Spells cs n) :
    parse? cs = some n := by
  cases h with
  | @intro sign mantissa power negative whole fraction exponent hs hm he =>
    have hp := head?_mantissa_ne (c := '+') (by decide) hm (by decide) power
    have hq := head?_mantissa_ne (c := '-') (by decide) hm (by decide) power
    have hx := exponent?_of_isExponent he
    have hnext := head?_exponent he
    simp only [parse?, spanSign_append hs hp hq]
    cases hm with
    | whole hr hn =>
      have hd := Text.spanDigits_append hr fun c hc => (hnext c hc).1
      obtain ⟨first, others, rfl⟩ := List.exists_cons_of_ne_nil hn
      simp only [hd]
      split
      · exact absurd rfl (hnext '.' rfl).2
      · simp [hx]
    | @pointed row further digits fraction hr hn hf =>
      have hd : Text.spanDigits (row ++ '.' :: (further ++ power)) =
          (whole, '.' :: (further ++ power)) :=
        Text.spanDigits_append hr (by rintro c ⟨⟩; decide)
      have hg := Text.spanDigits_append hf fun c hc => (hnext c hc).1
      obtain ⟨first, others, rfl⟩ := List.exists_cons_of_ne_nil hn
      rw [List.append_assoc, List.cons_append]
      simp [hd, hg, hx]
    | @fraction row digits hr hn =>
      have hd : Text.spanDigits ('.' :: row ++ power) = ([], '.' :: row ++ power) := rfl
      have hg := Text.spanDigits_append hr fun c hc => (hnext c hc).1
      obtain ⟨first, others, rfl⟩ := List.exists_cons_of_ne_nil hn
      rw [hd]
      simp [hg, hx]

/-- The numeral of a text is the one that the grammar spells, and there is none
for a text that is not in the grammar. -/
theorem parse?_eq_some_iff (cs : List Char) (n : Numeral) : parse? cs = some n ↔ Spells cs n :=
  ⟨spells_of_parse?, parse?_of_spells⟩

inductive SpellsInteger : List Char → Int → Prop
  | intro {sign row : List Char} {negative : Bool} {digits : List Nat} : IsSign sign negative →
      IsRow row digits → digits ≠ [] → digits.length ≤ digitLimit →
      SpellsInteger (sign ++ row) (signed negative (Nat.ofDigits 10 digits.reverse))

/-- Only a numeral without point and exponent has an integer for its value. -/
theorem value_eq_int_iff (n : Numeral) (k : Int) :
    n.value = .int k ↔ n.fraction = none ∧ n.exponent = none ∧ n.whole.length ≤ digitLimit ∧
      k = signed n.negative (Nat.ofDigits 10 n.whole.reverse) := by
  rw [value, ← Text.valueOfDigits_eq_ofDigits]
  by_cases hi : n.isInteger = true
  · rw [if_pos hi, Number.int.injEq]
    simp only [isInteger, Bool.and_eq_true, Option.isNone_iff_eq_none, decide_eq_true_eq] at hi
    simp only [hi, true_and]
    exact eq_comm
  · rw [if_neg hi]
    simp only [isInteger, Bool.and_eq_true, Option.isNone_iff_eq_none, decide_eq_true_eq] at hi
    exact ⟨nofun, fun h => absurd ⟨⟨h.1, h.2.1⟩, h.2.2.1⟩ hi⟩

theorem exists_value_int_iff (cs : List Char) (k : Int) :
    (∃ n, parse? cs = some n ∧ n.value = .int k) ↔ SpellsInteger cs k := by
  simp only [parse?_eq_some_iff, value_eq_int_iff]
  constructor
  · rintro ⟨n, ⟨hs, hm, he⟩, hfraction, hexponent, hl, rfl⟩
    cases hfraction
    cases hexponent
    cases he
    cases hm with
    | whole hr hn =>
      rw [List.append_nil]
      exact .intro hs hr hn hl
  · rintro ⟨hs, hr, hn, hl⟩
    have hspells := Spells.intro hs (.whole hr hn) .absent
    rw [List.append_nil] at hspells
    exact ⟨_, hspells, rfl, rfl, hl, rfl⟩

end Numeral

end BlockScript
