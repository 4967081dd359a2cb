import BlockScript.Json.Reader
import BlockScript.Json.Writer
import BlockScript.Proofs.Number.Spelling

/-!
# Numbers read back from their text

A spelled number is read up to its end, if what follows does not go on with it.
An integer within the digit limit reads as that integer, and the text of a
floating point number reads as that number, so the two kinds stay apart.
-/

set_option autoImplicit false

namespace BlockScript.Json

def Ends (rest : List Char) : Prop :=
  ∀ c ∈ rest.head?, c.isDigit = false ∧ c ≠ '.' ∧ c ≠ 'e' ∧ c ≠ 'E'

theorem isAsciiDigit_eq : isAsciiDigit = Char.isDigit := rfl

theorem asciiDigits_row (row : DigitRow) {rest : List Char}
    (hr : ∀ c ∈ rest.head?, c.isDigit = false) :
    asciiDigits (row.chars ++ rest) = (digitValues row.chars, rest) := by
  rw [asciiDigits, isAsciiDigit_eq, takeWhile_span row.isDigit hr, dropWhile_span row.isDigit hr]
  rfl

theorem exists_digitValues (row : DigitRow) : ∃ d ds, digitValues row.chars = d :: ds :=
  List.exists_cons_of_ne_nil (by simp [digitValues, row.ne_nil])

theorem readWhole_spelling (s : Spelling) {rest : List Char}
    (hr : ∀ c ∈ rest.head?, c.isDigit = false) :
    readWhole (s.whole.chars ++ rest) = some (digitValues s.whole.chars, rest) := by
  by_cases h0 : s.whole.chars.head? = some '0'
  · rw [s.leading h0]
    rfl
  · obtain ⟨d, ds, hd⟩ := exists_digitValues s.whole
    rw [readWhole, asciiDigits_row s.whole hr, hd]
    intro tail heq
    apply h0
    rw [← List.head?_append_of_ne_nil s.whole.chars s.whole.ne_nil, heq]
    rfl

theorem readFraction_text (fraction : Option DigitRow) {rest : List Char}
    (hr : ∀ c ∈ rest.head?, c.isDigit = false ∧ c ≠ '.') :
    readFraction (Spelling.fractionText fraction ++ rest) =
      (fraction.map fun row => digitValues row.chars, rest) := by
  cases fraction with
  | none =>
    rw [Spelling.fractionText, List.nil_append, readFraction]
    · rfl
    · intro tail heq
      exact (hr '.' (by rw [heq]; rfl)).2 rfl
  | some row =>
    obtain ⟨d, ds, hd⟩ := exists_digitValues row
    simp only [Spelling.fractionText, List.cons_append, readFraction,
      asciiDigits_row row fun c hc => (hr c hc).1, hd, Option.map_some]

theorem readExponent_text (exponent : Option (Bool × DigitRow)) {rest : List Char}
    (hr : Ends rest) :
    readExponent (Spelling.exponentText exponent ++ rest) =
      (exponent.map Spelling.exponentValue, rest) := by
  cases exponent with
  | none =>
    cases rest with
    | nil => rfl
    | cons c rest =>
      obtain ⟨-, -, he, hE⟩ := hr c rfl
      rw [Spelling.exponentText, List.nil_append, readExponent, if_neg (by simp [he, hE])]
      rfl
  | some mark =>
    obtain ⟨negative, row⟩ := mark
    have hs : Numeral.spanSign ((if negative then '-' else '+') :: (row.chars ++ rest)) =
        (negative, row.chars ++ rest) := by
      cases negative <;> rfl
    obtain ⟨d, ds, hd⟩ := exists_digitValues row
    simp only [Spelling.exponentText, List.cons_append, readExponent, true_or, if_true, hs,
      asciiDigits_row row fun c hc => (hr c hc).1, hd]
    rw [← hd]
    rfl

theorem ends_exponentText (exponent : Option (Bool × DigitRow)) {rest : List Char}
    (hr : Ends rest) :
    ∀ c ∈ (Spelling.exponentText exponent ++ rest).head?, c.isDigit = false ∧ c ≠ '.' := by
  cases exponent with
  | none => exact fun c hc => ⟨(hr c hc).1, (hr c hc).2.1⟩
  | some mark =>
    rintro c ⟨⟩
    exact ⟨rfl, by decide⟩

theorem ends_fractionText (fraction : Option DigitRow) {rest : List Char}
    (hr : ∀ c ∈ rest.head?, c.isDigit = false ∧ c ≠ '.') :
    ∀ c ∈ (Spelling.fractionText fraction ++ rest).head?, c.isDigit = false := by
  cases fraction with
  | none => exact fun c hc => (hr c hc).1
  | some row =>
    rintro c ⟨⟩
    rfl

def signed (negative : Bool) (cs : List Char) : List Char := if negative then '-' :: cs else cs

theorem readNumber_of_parts {negative : Bool} {unsigned afterWhole afterFraction rest : List Char}
    {whole : List Nat} {fraction : Option (List Nat)} {exponent : Option Int}
    (hu : unsigned.head? ≠ some '-')
    (hw : readWhole unsigned = some (whole, afterWhole))
    (hf : readFraction afterWhole = (fraction, afterFraction))
    (he : readExponent afterFraction = (exponent, rest))
    (hl : fraction.isSome ∨ exponent.isSome ∨ whole.length ≤ digitLimit) :
    readNumber (signed negative unsigned) =
      .ok (Numeral.value ⟨negative, whole, fraction, exponent⟩, rest) := by
  have hb : (fraction.isNone && exponent.isNone && decide (digitLimit < whole.length)) = false := by
    rcases hl with h | h | h
    · simp [Option.isNone_eq_false_iff.2 h]
    · simp [Option.isNone_eq_false_iff.2 h]
    · simp [Nat.not_lt.2 h]
  cases negative with
  | true =>
    change readNumber ('-' :: unsigned) = _
    unfold readNumber
    simp only [hw, hf, he, hb]
    rfl
  | false =>
    change readNumber unsigned = _
    unfold readNumber
    split
    next hs =>
    split at hs
    · exact absurd rfl hu
    · cases hs
      simp only [hw, hf, he, hb]
      rfl
theorem readNumber_spelling (s : Spelling) (negative : Bool) {rest : List Char} (hr : Ends rest)
    (hs : s.IsFractional ∨ s.whole.chars.length ≤ digitLimit) :
    readNumber (signed negative (s.chars ++ rest)) = .ok ((s.numeral negative).value, rest) := by
  have he := ends_exponentText s.exponent hr
  have hu : (s.chars ++ rest).head? ≠ some '-' := by
    intro h
    have hd := s.whole.isDigit '-' (List.mem_of_mem_head? (by
      rw [Spelling.chars, List.append_assoc, List.head?_append_of_ne_nil _ s.whole.ne_nil] at h
      exact h))
    cases hd
  apply readNumber_of_parts hu
  · rw [Spelling.chars, List.append_assoc, List.append_assoc]
    exact readWhole_spelling s (ends_fractionText s.fraction he)
  · exact readFraction_text s.fraction he
  · exact readExponent_text s.exponent hr
  · rcases hs with (h | h) | h
    · exact .inl (by simpa using h)
    · exact .inr (.inl (by simpa using h))
    · exact .inr (.inr (by simpa [digitValues] using h))

theorem mem_signed {negative : Bool} {cs : List Char} {c : Char} (h : c ∈ signed negative cs) :
    c = '-' ∨ c ∈ cs := by
  cases negative with
  | true => exact List.mem_cons.1 h
  | false => exact .inr h

theorem signed_append (negative : Bool) (cs rest : List Char) :
    signed negative cs ++ rest = signed negative (cs ++ rest) := by
  cases negative <;> rfl

def SpellsNumber (text : List Char) (n : Number) : Prop :=
  ∃ (negative : Bool) (s : Spelling), text = signed negative s.chars ∧
    (s.IsFractional ∨ s.whole.chars.length ≤ digitLimit) ∧ (s.numeral negative).value = n

theorem spellsNumber_integerText {n : Int} (h : IsShort n) :
    SpellsNumber (integerText n) (.int n) := by
  have hl : (DigitRow.ofNat n.natAbs).chars.head? = some '0' →
      (DigitRow.ofNat n.natAbs).chars = ['0'] := by
    intro h0
    by_cases hn : n.natAbs = 0
    · change Nat.toDigits 10 n.natAbs = ['0']
      rw [hn]
      rfl
    · exact absurd h0 (head?_toDigits_ne_zero hn)
  refine ⟨decide (n < 0), ⟨.ofNat n.natAbs, none, none, hl⟩, ?_, .inr h, ?_⟩
  · rw [integerText_eq]
    by_cases hn : n < 0
    · rw [if_pos hn, decide_eq_true hn]
      simp [signed, Spelling.chars, Spelling.fractionText, Spelling.exponentText, DigitRow.ofNat]
    · rw [if_neg hn, decide_eq_false hn]
      simp [signed, Spelling.chars, Spelling.fractionText, Spelling.exponentText, DigitRow.ofNat]
  · exact value_of_parse?_integerText h (parse?_integerText n)

theorem spellsNumber_write (negative : Bool) (rank : Fin rankCount) :
    SpellsNumber (layout.write (.finite negative rank)).toList
      (.float (.finite negative rank)) := by
  obtain ⟨s, hc, hf, hv⟩ := Spelling.exists_writeMagnitude layout rank
  refine ⟨negative, s, ?_, .inl hf, hv negative⟩
  rw [NumberLayout.write, String.toList_ofList, hc]
  rfl

theorem readNumber_of_spellsNumber {text rest : List Char} {n : Number} (h : SpellsNumber text n)
    (hr : Ends rest) : readNumber (text ++ rest) = .ok (n, rest) := by
  obtain ⟨negative, s, rfl, hs, rfl⟩ := h
  rw [signed_append]
  exact readNumber_spelling s negative hr hs

theorem SpellsNumber.first {text : List Char} {n : Number} (h : SpellsNumber text n) :
    ∃ c cs, c.isDigit = true ∧ (text = c :: cs ∨ text = '-' :: c :: cs) := by
  obtain ⟨negative, s, rfl, -, -⟩ := h
  obtain ⟨c, cs, hc⟩ := List.exists_cons_of_ne_nil s.whole.ne_nil
  have hd : c.isDigit = true := s.whole.isDigit c (by rw [hc]; exact List.mem_cons_self)
  refine ⟨c, cs ++ (Spelling.fractionText s.fraction ++ Spelling.exponentText s.exponent), hd, ?_⟩
  cases negative with
  | false => exact .inl (by rw [signed, Spelling.chars, hc]; rfl)
  | true => exact .inr (by rw [signed, Spelling.chars, hc]; rfl)

end BlockScript.Json
