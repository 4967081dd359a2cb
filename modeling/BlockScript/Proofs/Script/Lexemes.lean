import BlockScript.Script.Statement

/-!
# Lexemes that read back

A word that is no number text reads as a name, the decimal text of an integer
within the digit limit reads as that integer, and text between two quotes of one
kind reads as the text. None of the three has a blank at its ends.
-/

set_option autoImplicit false

namespace BlockScript

section Spans

variable {α : Type} {p : α → Bool} {part rest : List α}

theorem takeWhile_span (hp : ∀ a ∈ part, p a = true) (hr : ∀ a ∈ rest.head?, p a = false) :
    (part ++ rest).takeWhile p = part := by
  rw [List.takeWhile_append_of_pos hp]
  cases rest with
  | nil => rw [List.takeWhile_nil, List.append_nil]
  | cons a rest => rw [List.takeWhile_cons_of_neg (by simp [hr a rfl]), List.append_nil]

theorem dropWhile_span (hp : ∀ a ∈ part, p a = true) (hr : ∀ a ∈ rest.head?, p a = false) :
    (part ++ rest).dropWhile p = rest := by
  rw [List.dropWhile_append_of_pos hp]
  cases rest with
  | nil => rfl
  | cons a rest => rw [List.dropWhile_cons_of_neg (by simp [hr a rfl])]

theorem takeWhile_congr {q : α → Bool} (h : ∀ a ∈ part, p a = q a) :
    part.takeWhile p = part.takeWhile q := by
  induction part with
  | nil => rfl
  | cons a rest ih =>
    have hl := ih fun x hx => h x (List.mem_cons_of_mem a hx)
    simp [List.takeWhile_cons, h a List.mem_cons_self, hl]

theorem dropWhile_congr {q : α → Bool} (h : ∀ a ∈ part, p a = q a) :
    part.dropWhile p = part.dropWhile q := by
  induction part with
  | nil => rfl
  | cons a rest ih =>
    have hl := ih fun x hx => h x (List.mem_cons_of_mem a hx)
    simp [List.dropWhile_cons, h a List.mem_cons_self, hl]

end Spans

namespace Text

theorem wordRanges_without_blanks :
    (blankRanges.all fun range =>
      (List.range (range.2 + 1 - range.1)).all fun i =>
        !inRanges wordRanges (range.1 + i)) = true := by
  decide +kernel

theorem isBlank_of_isWord {c : Char} (hw : isWord c = true) : isBlank c = false := by
  rw [← Bool.not_eq_true]
  intro hb
  obtain ⟨range, hr, hl, hh⟩ := (inRanges_iff blankRanges_ascending c.toNat).1 hb
  have hall := List.all_eq_true.1 wordRanges_without_blanks range hr
  have hi : c.toNat - range.1 ∈ List.range (range.2 + 1 - range.1) := by
    rw [List.mem_range]
    omega
  have hn := List.all_eq_true.1 hall _ hi
  rw [Nat.add_sub_cancel' hl] at hn
  change (!isWord c) = true at hn
  rw [hw] at hn
  cases hn

structure Tight (cs : List Char) : Prop where
  ne_nil : cs ≠ []
  first : ∀ c ∈ cs.head?, isBlank c = false
  last : ∀ c ∈ cs.getLast?, isBlank c = false

theorem tight_iff (cs : List Char) :
    cs ≠ [] ∧ cs.head?.all (!isBlank ·) = true ∧ cs.getLast?.all (!isBlank ·) = true ↔
      Tight cs := by
  simp only [Option.all_eq_true, Bool.not_eq_true']
  constructor
  · intro h
    exact ⟨h.1, h.2.1, h.2.2⟩
  · intro h
    exact ⟨h.ne_nil, h.first, h.last⟩

instance (cs : List Char) : Decidable (Tight cs) := decidable_of_iff _ (tight_iff cs)

theorem trimStart_cons_of_not_blank {c : Char} (h : isBlank c = false) (rest : List Char) :
    trimStart (c :: rest) = c :: rest :=
  List.dropWhile_cons_of_neg (by simp [h])

theorem trimStart_cons_of_blank {c : Char} (h : isBlank c = true) (rest : List Char) :
    trimStart (c :: rest) = trimStart rest :=
  List.dropWhile_cons_of_pos h

theorem trimStart_of_tight {cs : List Char} (h : Tight cs) : trimStart cs = cs := by
  obtain ⟨c, rest, rfl⟩ := List.exists_cons_of_ne_nil h.ne_nil
  exact trimStart_cons_of_not_blank (h.first c rfl) rest

theorem trimEnd_of_tight {cs : List Char} (h : Tight cs) : trimEnd cs = cs := by
  have hr : cs.reverse.dropWhile isBlank = cs.reverse := by
    cases hr : cs.reverse with
    | nil => rfl
    | cons c rest =>
      have hc : c ∈ cs.getLast? := by rw [← List.head?_reverse, hr]; rfl
      exact trimStart_cons_of_not_blank (h.last c hc) rest
  rw [trimEnd, hr, List.reverse_reverse]

theorem trim_of_tight {cs : List Char} (h : Tight cs) : trim cs = cs := by
  rw [trim, trimStart_of_tight h, trimEnd_of_tight h]

theorem tight_of_forall {cs : List Char} (hn : cs ≠ []) (h : ∀ c ∈ cs, isBlank c = false) :
    Tight cs where
  ne_nil := hn
  first c hc := h c (List.mem_of_mem_head? hc)
  last c hc := h c (List.mem_of_mem_getLast? hc)

theorem tight_surround {a b : List Char} (ha : Tight a) (hb : Tight b) (middle : List Char) :
    Tight (a ++ middle ++ b) where
  ne_nil := by simp [ha.ne_nil]
  first c hc := by
    cases a with
    | nil => exact absurd rfl ha.ne_nil
    | cons d a => exact ha.first c hc
  last c hc := by
    rw [List.getLast?_append, List.getLast?_eq_some_getLast hb.ne_nil] at hc
    apply hb.last c
    rw [List.getLast?_eq_some_getLast hb.ne_nil]
    exact hc

section Trailing

variable {blanks : List Char} (hb : ∀ c ∈ blanks, isBlank c = true)

include hb

theorem trimEnd_append_blanks (cs : List Char) : trimEnd (cs ++ blanks) = trimEnd cs := by
  have hr : ∀ c ∈ blanks.reverse, isBlank c = true := fun c hc => hb c (List.mem_reverse.1 hc)
  rw [trimEnd, List.reverse_append, List.dropWhile_append_of_pos hr, trimEnd]

theorem trim_append_blanks (cs : List Char) : trim (cs ++ blanks) = trim cs := by
  rw [trim, trim, trimStart, List.dropWhile_append]
  by_cases he : (cs.dropWhile isBlank).isEmpty
  · have ha : (blanks ++ []).dropWhile isBlank = [].dropWhile isBlank :=
      List.dropWhile_append_of_pos hb
    have hn : blanks.dropWhile isBlank = [] := by rwa [List.append_nil] at ha
    rw [if_pos he, hn, trimStart, List.isEmpty_iff.1 he]
  · rw [if_neg he, trimEnd_append_blanks hb, trimStart]

/-- Blanks around a text that has none at its ends are all that trimming takes off. -/
theorem trim_padded {before core : List Char} (hbefore : ∀ c ∈ before, isBlank c = true)
    (hc : Tight core) : trim (before ++ core ++ blanks) = core := by
  have hs : trim (before ++ core) = trim core := by
    rw [trim, trimStart, List.dropWhile_append_of_pos hbefore, trim, trimStart]
  rw [trim_append_blanks hb, hs, trim_of_tight hc]

end Trailing

theorem digitValue?_of_isDigit {c : Char} (h : c.isDigit = true) :
    digitValue? c = some (c.toNat - '0'.toNat) := by
  have hc : 48 ≤ c.toNat ∧ c.toNat ≤ 57 := by
    simpa [Char.isDigit, UInt32.le_iff_toNat_le] using h
  have h₁ : ¬ c.toNat < 48 := by omega
  have h₂ : c.toNat < 48 + 10 := by omega
  simp only [digitValue?, zeros, digitAbove, if_neg h₁, if_pos h₂]
  rfl

theorem spanDigits_of_forall {cs : List Char} (h : ∀ c ∈ cs, c.isDigit = true) :
    spanDigits cs = (cs.map fun c => c.toNat - '0'.toNat, []) := by
  induction cs with
  | nil => rfl
  | cons c rest ih =>
    have hc := digitValue?_of_isDigit (h c List.mem_cons_self)
    have hr := ih fun d hd => h d (List.mem_cons_of_mem c hd)
    simp only [spanDigits, hc, hr, List.map_cons]

theorem valueOfDigits_toDigits (n : Nat) :
    valueOfDigits ((Nat.toDigits 10 n).map fun c => c.toNat - '0'.toNat) = n := by
  rw [valueOfDigits, List.foldl_map, ← Nat.ofDigitChars_eq_foldl, Nat.ofDigitChars_ten_toDigits]

end Text

def IsShort (n : Int) : Prop := Decimal.digitCount n.natAbs ≤ digitLimit

instance (n : Int) : Decidable (IsShort n) := inferInstanceAs (Decidable (_ ≤ _))

def integerText (n : Int) : List Char := (toString n).toList

theorem showInt_of_isShort {n : Int} (h : IsShort n) : Number.showInt n = .ok (toString n) :=
  if_pos h

theorem integerText_eq (n : Int) :
    integerText n =
      if n < 0 then '-' :: Nat.toDigits 10 n.natAbs else Nat.toDigits 10 n.natAbs := by
  rw [integerText, Int.toString_eq_repr, Int.repr_eq_if]
  by_cases hn : n < 0
  · have ha : (-n).toNat = n.natAbs := by omega
    rw [if_neg (by omega), if_pos hn, String.toList_append, Nat.toList_repr, ha]
    rfl
  · have ha : n.toNat = n.natAbs := by omega
    rw [if_pos (by omega), if_neg hn, Nat.toList_repr, ha]

theorem isDigit_of_mem_digits {n : Nat} {c : Char} (h : c ∈ Nat.toDigits 10 n) :
    c.isDigit = true := Nat.isDigit_of_mem_toDigits (by decide) (by decide) h

theorem mem_integerText {n : Int} {c : Char} (h : c ∈ integerText n) :
    c = '-' ∨ c.isDigit = true := by
  rw [integerText_eq] at h
  split at h
  · exact (List.mem_cons.1 h).imp id isDigit_of_mem_digits
  · exact Or.inr (isDigit_of_mem_digits h)

theorem integerText_ne_nil (n : Int) : integerText n ≠ [] := by
  rw [integerText_eq]
  split
  · exact List.cons_ne_nil _ _
  · exact Nat.toDigits_ne_nil

/-- A character in the decimal text of an integer is none of those that end it in a script. -/
theorem ne_of_mem_integerText {n : Int} {c d : Char} (h : c ∈ integerText n)
    (hm : d ≠ '-') (hd : d.isDigit = false) : c ≠ d := by
  rintro rfl
  rcases mem_integerText h with hc | hc
  · exact hm hc
  · rw [hc] at hd
    cases hd

theorem isBlank_of_isDigit {c : Char} (h : c.isDigit = true) : Text.isBlank c = false := by
  have hc : 48 ≤ c.toNat ∧ c.toNat ≤ 57 := by
    simpa [Char.isDigit, UInt32.le_iff_toNat_le] using h
  have h₁ : ¬ c.toNat ≤ 13 := by omega
  have h₂ : ¬ c.toNat ≤ 32 := by omega
  have h₃ : c.toNat < 0x85 := by omega
  simp [Text.isBlank, Text.blankRanges, Text.inRanges, h₁, h₂, h₃]

theorem isBlank_of_mem_integerText {n : Int} {c : Char} (h : c ∈ integerText n) :
    Text.isBlank c = false := by
  rcases mem_integerText h with rfl | hc
  · decide
  · exact isBlank_of_isDigit hc

theorem tight_integerText (n : Int) : Text.Tight (integerText n) :=
  Text.tight_of_forall (integerText_ne_nil n) fun _ hc => isBlank_of_mem_integerText hc

theorem spanSign_toDigits (n : Nat) :
    Numeral.spanSign (Nat.toDigits 10 n) = (false, Nat.toDigits 10 n) := by
  cases hd : Nat.toDigits 10 n with
  | nil => rfl
  | cons c rest =>
    have hc : c.isDigit = true := by
      apply isDigit_of_mem_digits (n := n)
      rw [hd]
      exact List.mem_cons_self
    unfold Numeral.spanSign
    split
    · next heq => cases heq; cases hc
    · next heq => cases heq; cases hc
    · rfl

theorem parse?_integerText (n : Int) :
    Numeral.parse? (integerText n) =
      some ⟨decide (n < 0), (Nat.toDigits 10 n.natAbs).map fun c => c.toNat - '0'.toNat,
        none, none⟩ := by
  have hs : Numeral.spanSign (integerText n) = (decide (n < 0), Nat.toDigits 10 n.natAbs) := by
    rw [integerText_eq]
    by_cases hn : n < 0
    · rw [if_pos hn, decide_eq_true hn]
      rfl
    · rw [if_neg hn, decide_eq_false hn]
      exact spanSign_toDigits _
  have hd := Text.spanDigits_of_forall fun c (hc : c ∈ Nat.toDigits 10 n.natAbs) =>
    isDigit_of_mem_digits hc
  have hne : (Nat.toDigits 10 n.natAbs).isEmpty = false := by
    rw [List.isEmpty_eq_false_iff]
    exact Nat.toDigits_ne_nil
  simp [Numeral.parse?, hs, hd, hne, Numeral.exponent?]

theorem value_of_parse?_integerText {n : Int} (h : IsShort n) {numeral : Numeral}
    (hp : Numeral.parse? (integerText n) = some numeral) : numeral.value = .int n := by
  rw [parse?_integerText, Option.some.injEq] at hp
  subst hp
  have hi : ((Nat.toDigits 10 n.natAbs).map fun c => c.toNat - '0'.toNat).length ≤ digitLimit := by
    rw [List.length_map]
    exact h
  simp only [Numeral.value, Numeral.isInteger, Numeral.integer, Text.valueOfDigits_toDigits,
    Option.isNone_none, Bool.true_and, decide_eq_true hi, if_true]
  by_cases hn : n < 0
  · rw [decide_eq_true hn, if_pos rfl]
    congr 1
    omega
  · rw [decide_eq_false hn, if_neg (by decide)]
    congr 1
    omega

structure IsName (x : String) : Prop where
  ne_empty : x.toList ≠ []
  word : ∀ c ∈ x.toList, Text.isWord c = true
  notNumber : isNumberText x = false

theorem IsName.tight {x : String} (h : IsName x) : Text.Tight x.toList :=
  Text.tight_of_forall h.ne_empty fun c hc => Text.isBlank_of_isWord (h.word c hc)

namespace Script.Operand

theorem parse_of_tight {cs : List Char} (ht : Text.Tight cs) :
    parse cs =
      match Numeral.parse? cs with
      | some numeral => .number numeral.value
      | none =>
        match unquote? cs with
        | some inside => .text (String.ofList inside)
        | none => .name (String.ofList cs) := by
  rw [parse, Text.trim_of_tight ht]
  cases cs with
  | nil => exact absurd rfl ht.ne_nil
  | cons c rest => rfl

theorem parse_integerText {n : Int} (h : IsShort n) : parse (integerText n) = .number (.int n) := by
  rw [parse_of_tight (tight_integerText n), parse?_integerText]
  exact congrArg Operand.number (value_of_parse?_integerText h (parse?_integerText n))

theorem parse_name {x : String} (h : IsName x) : parse x.toList = .name x := by
  have hp : Numeral.parse? x.toList = none := by
    have hn := h.notNumber
    rw [isNumberText, Text.trim_of_tight h.tight] at hn
    exact Option.isNone_iff_eq_none.1 (by simpa using hn)
  have hq : unquote? x.toList = none := by
    cases hx : x.toList with
    | nil => rfl
    | cons c rest =>
      have hw := h.word c (by rw [hx]; exact List.mem_cons_self)
      have h₁ : c ≠ '"' := by rintro rfl; exact absurd hw (by decide)
      have h₂ : c ≠ '\'' := by rintro rfl; exact absurd hw (by decide)
      simp [unquote?, h₁, h₂]
  rw [parse_of_tight h.tight, hp, hq, String.ofList_toList]

def quote (q : Char) (m : List Char) : List Char := q :: (m ++ [q])

theorem parse_quote {q : Char} (hq : q = '"' ∨ q = '\'') (m : List Char) :
    parse (quote q m) = .text (String.ofList m) := by
  have hb : Text.isBlank q = false := by rcases hq with rfl | rfl <;> decide
  have hl : (quote q m).getLast? = some q := by
    rw [quote, ← List.cons_append, List.getLast?_concat]
  have ht : Text.Tight (quote q m) := by
    refine ⟨List.cons_ne_nil _ _, ?_, ?_⟩
    · intro c hc
      cases hc
      exact hb
    · intro c hc
      rw [hl] at hc
      cases hc
      exact hb
  have hp : Numeral.parse? (quote q m) = none := by
    rcases hq with rfl | rfl <;> rfl
  have hu : unquote? (quote q m) = some m := by
    simp only [quote, unquote?, List.getLast?_concat, List.dropLast_concat]
    exact if_pos ⟨hq, trivial⟩
  rw [parse_of_tight ht, hp, hu]

end Script.Operand

end BlockScript
