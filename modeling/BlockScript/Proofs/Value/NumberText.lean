import BlockScript.Proofs.Number.Grammar
import BlockScript.Proofs.Script.Lexemes
import BlockScript.Value.Basic

/-!
# Text that stands for a number

The test for number text, the number that a text stands for and the operand that
it is read as all go by the same grammar. Blank text is zero, number text is its
number, and any other text is refused. An integer within the digit limit is read
back from its display form, with blanks around it or without.
-/

set_option autoImplicit false

namespace BlockScript

open Numeral (Spells SpellsInteger)

theorem isNumberText_iff (s : String) :
    isNumberText s = true ↔ ∃ numeral, Spells (Text.trim s.toList) numeral := by
  rw [isNumberText, Option.isSome_iff_exists]
  exact exists_congr (Numeral.parse?_eq_some_iff _)

namespace Value

variable {s : String}

theorem toNumber_of_blank (h : Text.trim s.toList = []) : (text s).toNumber = .ok (.int 0) := by
  rw [toNumber, h]

theorem toNumber_of_parse? {numeral : Numeral}
    (h : Numeral.parse? (Text.trim s.toList) = some numeral) :
    (text s).toNumber = .ok numeral.value := by
  rw [toNumber]
  split
  · next hb =>
    rw [hb] at h
    cases h
  · rw [h]

theorem toNumber_of_refused (hb : Text.trim s.toList ≠ [])
    (h : Numeral.parse? (Text.trim s.toList) = none) :
    (text s).toNumber = .error (.notNumber (Text.quoted s)) := by
  rw [toNumber]
  split
  · next he => exact absurd he hb
  · rw [h]
    rfl

/-- The ways in which a text stands for an integer. -/
theorem toNumber_eq_int_iff (s : String) (k : Int) :
    (text s).toNumber = .ok (.int k) ↔
      Text.trim s.toList = [] ∧ k = 0 ∨ SpellsInteger (Text.trim s.toList) k := by
  rw [← Numeral.exists_value_int_iff]
  by_cases hb : Text.trim s.toList = []
  · rw [toNumber_of_blank hb, hb, Except.ok.injEq, Number.int.injEq]
    constructor
    · rintro rfl
      exact .inl ⟨rfl, rfl⟩
    · rintro (⟨-, rfl⟩ | ⟨numeral, hp, -⟩)
      · rfl
      · cases hp
  · cases hp : Numeral.parse? (Text.trim s.toList) with
    | none =>
      rw [toNumber_of_refused hb hp]
      constructor
      · intro he
        cases he
      · rintro (⟨he, -⟩ | ⟨numeral, he, -⟩)
        · exact absurd he hb
        · cases he
    | some numeral =>
      rw [toNumber_of_parse? hp, Except.ok.injEq]
      constructor
      · intro hv
        exact .inr ⟨numeral, rfl, hv⟩
      · rintro (⟨he, -⟩ | ⟨_, ⟨⟩, hv⟩)
        · exact absurd he hb
        · exact hv

end Value

theorem Script.Operand.parse_eq_number_iff (s : String) (n : Number) :
    parse s.toList = .number n ↔ (Value.text s).toNumber = .ok n := by
  by_cases hb : Text.trim s.toList = []
  · rw [Value.toNumber_of_blank hb, parse, hb]
    simp
  · obtain ⟨c, rest, hcs⟩ := List.exists_cons_of_ne_nil hb
    cases hp : Numeral.parse? (Text.trim s.toList) with
    | none =>
      rw [Value.toNumber_of_refused hb hp, parse, hcs]
      rw [hcs] at hp
      simp only [hp]
      split <;> simp
    | some numeral =>
      rw [Value.toNumber_of_parse? hp, parse, hcs]
      rw [hcs] at hp
      simp [hp]

/-- Blanks around the display form of an integer do not change what it stands for. -/
theorem Value.toNumber_padded {n : Int} (h : IsShort n) {before after : List Char}
    (hb : ∀ c ∈ before, Text.isBlank c = true) (ha : ∀ c ∈ after, Text.isBlank c = true) :
    (text (String.ofList (before ++ integerText n ++ after))).toNumber = .ok (.int n) := by
  have ht : Text.trim (String.ofList (before ++ integerText n ++ after)).toList =
      integerText n := by
    rw [String.toList_ofList]
    exact Text.trim_padded ha hb (tight_integerText n)
  have hp := parse?_integerText n
  rw [← ht] at hp
  rw [toNumber_of_parse? hp]
  rw [ht] at hp
  rw [value_of_parse?_integerText h hp]

/-- Number text is recognised by the grammar and read by it. A text stands for a
number if it is blank or number text and is refused as it is otherwise. It stands
for an integer exactly if it is blank, for zero, or spells that integer. Operands
are read alike, and every integer within the digit limit is read back from its
display form, whatever blanks stand around it. -/
theorem number_text_exact :
    (∀ s : String,
      (isNumberText s = true ↔ ∃ numeral, Spells (Text.trim s.toList) numeral) ∧
      (Text.trim s.toList = [] ∨ isNumberText s = true →
        ∃ n, (Value.text s).toNumber = .ok n) ∧
      (¬ (Text.trim s.toList = [] ∨ isNumberText s = true) →
        (Value.text s).toNumber = .error (.notNumber (Text.quoted s))) ∧
      (∀ k : Int, (Value.text s).toNumber = .ok (.int k) ↔
        Text.trim s.toList = [] ∧ k = 0 ∨ SpellsInteger (Text.trim s.toList) k) ∧
      ∀ n, Script.Operand.parse s.toList = .number n ↔ (Value.text s).toNumber = .ok n) ∧
    ∀ (n : Int) (before after : List Char), IsShort n →
      (∀ c ∈ before, Text.isBlank c = true) → (∀ c ∈ after, Text.isBlank c = true) →
      ∃ shown, (Value.int n).display = .ok shown ∧
        (Value.text (String.ofList before ++ shown ++ String.ofList after)).toNumber =
          .ok (.int n) ∧
        Script.Operand.parse (before ++ shown.toList ++ after) = .number (.int n) := by
  refine ⟨fun s => ⟨isNumberText_iff s, ?_, ?_, Value.toNumber_eq_int_iff s,
    Script.Operand.parse_eq_number_iff s⟩, ?_⟩
  · rintro (hb | hn)
    · exact ⟨_, Value.toNumber_of_blank hb⟩
    · obtain ⟨numeral, hp⟩ := Option.isSome_iff_exists.1 hn
      exact ⟨_, Value.toNumber_of_parse? hp⟩
  · intro h
    rw [not_or, isNumberText, Bool.not_eq_true, Option.isSome_eq_false_iff,
      Option.isNone_iff_eq_none] at h
    exact Value.toNumber_of_refused h.1 h.2
  · intro n before after hs hb ha
    have hn := Value.toNumber_padded hs hb ha
    refine ⟨toString n, showInt_of_isShort hs, ?_, ?_⟩
    · rw [← hn]
      congr 2
      rw [← String.toList_inj]
      simp [integerText]
    · have hp := (Script.Operand.parse_eq_number_iff _ _).2 hn
      rwa [String.toList_ofList] at hp

end BlockScript
