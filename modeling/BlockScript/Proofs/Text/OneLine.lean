import BlockScript.Proofs.Json.Values

/-!
# Texts that stay on one line

Numbers are spelled with printable characters, quoted text has its line breaks
escaped, and so has the text of a value in JSON. None of them holds a break of
its own, whatever it was made from.
-/

set_option autoImplicit false

namespace BlockScript

theorem mem_of_mem_intercalate {α : Type} {separator : List α} {parts : List (List α)} {a : α}
    (h : a ∈ List.intercalate separator parts) : a ∈ separator ∨ ∃ part ∈ parts, a ∈ part := by
  induction parts with
  | nil => simp [List.intercalate] at h
  | cons part parts ih =>
    cases parts with
    | nil => exact Or.inr ⟨part, List.mem_cons_self, by simpa [List.intercalate] using h⟩
    | cons next parts =>
      rw [List.intercalate_cons_cons, List.mem_append, List.mem_append] at h
      rcases h with (h | h) | h
      · exact Or.inr ⟨part, List.mem_cons_self, h⟩
      · exact Or.inl h
      · refine (ih h).imp id fun ⟨found, hm, ha⟩ => ⟨found, List.mem_cons_of_mem part hm, ha⟩

/-- Joining texts of one line with a separator of one line makes a text of one line. -/
theorem not_mem_intercalate {separator : String} {parts : List String} {c : Char}
    (hs : c ∉ separator.toList) (hp : ∀ part ∈ parts, c ∉ part.toList) :
    c ∉ (separator.intercalate parts).toList := by
  intro h
  rw [String.toList_intercalate] at h
  rcases mem_of_mem_intercalate h with h | ⟨part, hm, h⟩
  · exact hs h
  · obtain ⟨text, ht, rfl⟩ := List.mem_map.1 hm
    exact hp text ht h

theorem Json.Printable.not_mem_break {text : List Char} (h : ∀ c ∈ text, Printable c) :
    '\n' ∉ text := by
  intro hb
  exact absurd (h _ hb).1 (by decide)

theorem Json.not_mem_finite (negative : Bool) (rank : Fin rankCount) :
    '\n' ∉ (layout.write (.finite negative rank)).toList :=
  Printable.not_mem_break (printable_of_spellsNumber (spellsNumber_write negative rank))

namespace Number

open Json

theorem printable_integerText {n : Int} : ∀ c ∈ integerText n, Printable c := by
  intro c hc
  rcases mem_integerText hc with rfl | hd
  · decide
  · exact printable_of_isDigit hd

theorem not_mem_showInt {n : Int} {text : String} (h : showInt n = .ok text) :
    '\n' ∉ text.toList := by
  unfold showInt at h
  split at h
  · cases h
    exact Printable.not_mem_break printable_integerText
  · cases h

theorem not_mem_write (x : Binary64) : '\n' ∉ (layout.write x).toList := by
  cases x with
  -- Both layouts agree on finite numbers.
  | finite negative rank => exact not_mem_finite negative rank
  | infinity negative => cases negative <;> decide
  | nan payload =>
    change '\n' ∉ "nan".toList
    decide

end Number

namespace Text

open Json

theorem printable_digits (n : Nat) : ∀ c ∈ Nat.toDigits 16 n, Printable c := by
  have hd : ∀ k < 16, Printable (Nat.digitChar k) := by decide
  induction n using Nat.strongRecOn with
  | ind n ih =>
    by_cases hn : n < 16
    · simpa [Nat.toDigits_of_lt_base hn] using hd n hn
    · rw [Nat.toDigits_of_base_le (by decide) (by omega)]
      intro c hc
      rcases List.mem_append.1 hc with hc | hc
      · exact ih (n / 16) (by omega) c hc
      · rw [List.mem_singleton.1 hc]
        exact hd (n % 16) (by omega)

theorem not_mem_hex (width n : Nat) : '\n' ∉ hex width n := by
  apply Printable.not_mem_break
  intro c hc
  rcases List.mem_append.1 hc with hc | hc
  · rw [List.eq_of_mem_replicate hc]
    decide
  · exact printable_digits n c hc

theorem not_mem_escapeWith {quote : Char} (hq : quote ≠ '\n') (c : Char) :
    '\n' ∉ escapeWith quote c := by
  unfold escapeWith
  by_cases hc : c = '\n'
  · simp [hc, hq.symm]
  · split_ifs <;> simp [not_mem_hex, Ne.symm hc]

theorem quoteFor_ne_break (cs : List Char) : quoteFor cs ≠ '\n' := by
  unfold quoteFor
  split <;> decide

theorem not_mem_quoted (s : String) : '\n' ∉ (quoted s).toList := by
  have hq := quoteFor_ne_break s.toList
  rw [quoted, String.toList_ofList]
  simp [hq.symm, not_mem_escapeWith hq]

end Text

namespace Json

theorem not_mem_writeText (s : String) : '\n' ∉ (writeText s).toList := by
  have he : ∀ c : Char, '\n' ∉ escape c := fun c =>
    Printable.not_mem_break (escaped_escape c).printable
  simp [toList_writeText, he]

theorem not_mem_writeNumber {n : Number} {text : String} (h : writeNumber n = .ok text) :
    '\n' ∉ text.toList := by
  cases n with
  | int n => exact Number.not_mem_showInt h
  | float x =>
    cases h
    cases x with
    | finite negative rank => exact not_mem_finite negative rank
    | infinity negative => cases negative <;> decide
    | nan payload =>
      change '\n' ∉ "NaN".toList
      decide

theorem not_mem_enclose {depth : Nat} {left right : String} {parts : List String}
    (hl : '\n' ∉ left.toList) (hr : '\n' ∉ right.toList) (hp : ∀ part ∈ parts, '\n' ∉ part.toList) :
    '\n' ∉ (enclose .line depth left right parts).toList := by
  have hs : '\n' ∉ (Style.line.between depth).toList := by
    change '\n' ∉ ", ".toList
    decide
  have hi := not_mem_intercalate hs hp
  unfold enclose
  split <;> simp_all [Style.line]

mutual

theorem not_mem_writeAt (depth : Nat) {text : String} : ∀ v : Value,
    writeAt .line depth v = .ok text → '\n' ∉ text.toList
  | .null, h => by cases h; decide
  | .bool b, h => by cases h; cases b <;> decide
  | .number _, h => not_mem_writeNumber h
  | .text s, h => by cases h; exact not_mem_writeText s
  | .list items, h => by
    obtain ⟨parts, hp, h⟩ := Except.exists_of_bind_eq_ok h
    cases h
    exact not_mem_enclose (by decide) (by decide) (not_mem_writeItems (depth + 1) items hp)
  | .record fields, h => by
    obtain ⟨parts, hp, h⟩ := Except.exists_of_bind_eq_ok h
    cases h
    exact not_mem_enclose (by decide) (by decide) (not_mem_writeFields (depth + 1) fields hp)

theorem not_mem_writeItems (depth : Nat) {parts : List String} : ∀ items : List Value,
    writeItems .line depth items = .ok parts → ∀ part ∈ parts, '\n' ∉ part.toList
  | [], h => by cases h; simp
  | item :: items, h => by
    obtain ⟨first, hf, h⟩ := Except.exists_of_bind_eq_ok h
    obtain ⟨rest, hr, h⟩ := Except.exists_of_bind_eq_ok h
    cases h
    simp only [List.forall_mem_cons]
    exact ⟨not_mem_writeAt depth item hf, not_mem_writeItems depth items hr⟩

theorem not_mem_writeFields (depth : Nat) {parts : List String} :
    ∀ fields : List (String × Value),
    writeFields .line depth fields = .ok parts → ∀ part ∈ parts, '\n' ∉ part.toList
  | [], h => by cases h; simp
  | (name, value) :: fields, h => by
    obtain ⟨first, hf, h⟩ := Except.exists_of_bind_eq_ok h
    obtain ⟨rest, hr, h⟩ := Except.exists_of_bind_eq_ok h
    cases h
    have hn := not_mem_writeText name
    have hv := not_mem_writeAt depth value hf
    simp only [List.forall_mem_cons]
    exact ⟨by simp [hn, hv], not_mem_writeFields depth fields hr⟩

end

end Json

end BlockScript
