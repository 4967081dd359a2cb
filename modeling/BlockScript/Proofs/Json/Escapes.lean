import BlockScript.Json.Reader
import BlockScript.Json.Writer
import BlockScript.Proofs.Failure
import Mathlib.Tactic.SplitIfs

/-!
# Texts read back from their escapes

Every character of a text is written as itself, as a letter behind a backslash,
or as one or two code units in hexadecimal, and read back from that whatever
comes next.
-/

set_option autoImplicit false

namespace BlockScript

namespace Text

theorem hex_one {n : Nat} (h : n < 16) : hex 1 n = [Nat.digitChar n] := by
  simp [hex, Nat.toDigits_of_lt_base h]

theorem hex_succ {width : Nat} (hw : 0 < width) (n : Nat) :
    hex (width + 1) n = hex width (n / 16) ++ [Nat.digitChar (n % 16)] := by
  by_cases hn : n < 16
  · have hz : n / 16 = 0 := by omega
    have hm : n % 16 = n := by omega
    have hr : List.replicate width '0' = List.replicate (width - 1) '0' ++ ['0'] := by
      rw [← List.replicate_succ', Nat.sub_add_cancel hw]
    simp only [hex, hz, hm, Nat.toDigits_of_lt_base hn, Nat.toDigits_zero, List.length_singleton,
      Nat.add_sub_cancel, hr]
  · simp only [hex, Nat.toDigits_of_base_le (by decide : 1 < 16) (by omega : 16 ≤ n),
      List.length_append, List.length_singleton, Nat.add_sub_add_right, List.append_assoc]

theorem hex_four {n : Nat} (h : n < 0x10000) :
    hex 4 n = [Nat.digitChar (n / 16 / 16 / 16), Nat.digitChar (n / 16 / 16 % 16),
      Nat.digitChar (n / 16 % 16), Nat.digitChar (n % 16)] := by
  rw [hex_succ (by decide), hex_succ (by decide), hex_succ (by decide), hex_one (by omega)]
  rfl

end Text

namespace Json

def Printable (c : Char) : Prop := 0x20 ≤ c.toNat ∧ c.toNat < 0x7f

instance (c : Char) : Decidable (Printable c) := inferInstanceAs (Decidable (_ ∧ _))

inductive Escaped (c : Char) : List Char → Prop where
  | mark {m : Char} (hm : simpleEscape? m = some c) (hp : Printable m) : Escaped c ['\\', m]
  | plain (hq : c ≠ '"') (hb : c ≠ '\\') (hp : Printable c) : Escaped c [c]
  | unit (h : c.toNat < 0x10000) : Escaped c (codeEscape c.toNat)
  | pair (h : 0x10000 ≤ c.toNat) :
    Escaped c (codeEscape (0xd800 + (c.toNat - 0x10000) / 0x400) ++
      codeEscape (0xdc00 + (c.toNat - 0x10000) % 0x400))

theorem escaped_escape (c : Char) : Escaped c (escape c) := by
  have mark {d m : Char} (hd : c = d) (hm : simpleEscape? m = some d) (hp : Printable m) :
      Escaped c ['\\', m] := .mark (hd ▸ hm) hp
  have code {n : Nat} (h : c.toNat = n) : c = Char.ofNat n := by
    rw [← h, Char.ofNat_toNat]
  unfold escape
  split_ifs with hq hb hn hr ht h8 h12 hp hu
  · exact mark hq rfl (by decide)
  · exact mark hb rfl (by decide)
  · exact mark hn rfl (by decide)
  · exact mark hr rfl (by decide)
  · exact mark ht rfl (by decide)
  · exact mark (code h8) rfl (by decide)
  · exact mark (code h12) rfl (by decide)
  · exact .plain hq hb hp
  · exact .unit hu
  · exact .pair (by omega)

variable {more : List Char}

theorem hexDigit?_digitChar {n : Nat} (h : n < 16) : hexDigit? (Nat.digitChar n) = some n := by
  have hall : ∀ k < 16, hexDigit? (Nat.digitChar k) = some k := by decide
  exact hall n h

theorem codeUnit?_hex {n : Nat} (h : n < 0x10000) (hm : more ≠ []) :
    codeUnit? (Text.hex 4 n ++ more) = some (n, more) := by
  obtain ⟨next, rest, rfl⟩ := List.exists_cons_of_ne_nil hm
  have hv : (n / 16 / 16 / 16 * 16 + n / 16 / 16 % 16) * 256 + (n / 16 % 16 * 16 + n % 16) = n := by
    omega
  rw [Text.hex_four h]
  simp [codeUnit?, hexDigit?_digitChar (by omega : n / 16 / 16 / 16 < 16),
    hexDigit?_digitChar (by omega : n / 16 / 16 % 16 < 16),
    hexDigit?_digitChar (by omega : n / 16 % 16 < 16), hexDigit?_digitChar (by omega : n % 16 < 16),
    hv]

theorem toNat_valid (c : Char) : c.toNat < 0xd800 ∨ 0xdfff < c.toNat ∧ c.toNat < 0x110000 :=
  c.valid

theorem plainHold_toNat (c : Char) : plainHold c.toNat = [c] := by
  rw [plainHold, if_pos (toNat_valid c), Char.ofNat_toNat]

theorem flatMap_plainHold (cs : List Char) : (cs.map Char.toNat).flatMap plainHold = cs := by
  rw [List.flatMap_map]
  simp only [plainHold_toNat, List.flatMap_singleton']

theorem readCode_hex {c : Char} (h : c.toNat < 0x10000) (hm : more ≠ []) :
    readCode (Text.hex 4 c.toNat ++ more) = .ok (c.toNat, more) := by
  have hs : isHighSurrogate c.toNat = false := by
    have hv := toNat_valid c
    simp only [isHighSurrogate, Bool.and_eq_false_iff, decide_eq_false_iff_not]
    omega
  simp only [readCode, codeUnit?_hex h hm, hs, Bool.false_and]
  split <;> rfl

theorem readCode_surrogates {high low : Nat} (hh : isHighSurrogate high = true)
    (hl : isLowSurrogate low = true) (hm : more ≠ []) :
    readCode (Text.hex 4 high ++ (codeEscape low ++ more)) =
      .ok (joinSurrogates high low, more) := by
  have hbh : high < 0x10000 := by
    simp only [isHighSurrogate, Bool.and_eq_true, decide_eq_true_eq] at hh
    omega
  have hbl : low < 0x10000 := by
    simp only [isLowSurrogate, Bool.and_eq_true, decide_eq_true_eq] at hl
    omega
  have hn : 4 < (Text.hex 4 low ++ more).length := by
    have hp := List.length_pos_iff.2 hm
    rw [Text.hex_four hbl, List.length_append]
    simp only [List.length_cons, List.length_nil]
    omega
  have hfirst := codeUnit?_hex hbh (List.cons_ne_nil '\\' ('u' :: (Text.hex 4 low ++ more)))
  simp only [readCode, codeEscape, List.cons_append, hfirst, codeUnit?_hex hbl hm, hh, hl, hn,
    Bool.true_and, decide_true, if_true]

theorem joinSurrogates_split {n : Nat} (h : 0x10000 ≤ n) :
    joinSurrogates (0xd800 + (n - 0x10000) / 0x400) (0xdc00 + (n - 0x10000) % 0x400) = n := by
  unfold joinSurrogates
  omega

theorem readCode_pair {c : Char} (h : 0x10000 ≤ c.toNat) (hm : more ≠ []) :
    readCode (Text.hex 4 (0xd800 + (c.toNat - 0x10000) / 0x400) ++
      (codeEscape (0xdc00 + (c.toNat - 0x10000) % 0x400) ++ more)) = .ok (c.toNat, more) := by
  have hv := toNat_valid c
  rw [readCode_surrogates (by simp [isHighSurrogate]; omega) (by simp [isLowSurrogate]; omega) hm,
    joinSurrogates_split h]

def readNext (opened fuel : Nat) (c : Char) (more : List Char) :
    Except Problem (List Nat × List Char) := do
  let (text, final) ← readText opened fuel more
  return (c.toNat :: text, final)

theorem readText_simple (opened fuel : Nat) {mark c : Char} (h : simpleEscape? mark = some c)
    (more : List Char) :
    readText opened (fuel + 1) (['\\', mark] ++ more) = readNext opened fuel c more := by
  rw [List.cons_append, List.singleton_append, readText, h]
  · rfl
  · rintro rfl
    cases h

theorem codeEscape_append (n : Nat) (more : List Char) :
    codeEscape n ++ more = '\\' :: 'u' :: (Text.hex 4 n ++ more) := rfl

theorem readText_code (opened fuel : Nat) {c : Char} {code : List Char}
    (h : readCode code = .ok (c.toNat, more)) :
    readText opened (fuel + 1) ('\\' :: 'u' :: code) = readNext opened fuel c more := by
  rw [readText, h]
  rfl

theorem readText_plain (opened fuel : Nat) {c : Char} (hq : c ≠ '"') (hb : c ≠ '\\')
    (hp : 0x20 ≤ c.toNat) (more : List Char) :
    readText opened (fuel + 1) (c :: more) = readNext opened fuel c more := by
  have hn : ¬ c.toNat < 0x20 := by omega
  rw [readText, if_neg hn]
  · rfl
  · exact hq
  · exact fun h _ => hb h
  · exact fun _ h _ => hb h
  · exact fun _ _ h _ => hb h

theorem readText_escape (opened fuel : Nat) (c : Char) (hm : more ≠ []) :
    readText opened (fuel + 1) (escape c ++ more) = readNext opened fuel c more := by
  generalize he : escape c = written
  have h : Escaped c written := he ▸ escaped_escape c
  cases h with
  | mark h _ => exact readText_simple opened fuel h more
  | plain hq hb hp => exact readText_plain opened fuel hq hb hp.1 more
  | unit h =>
    rw [codeEscape_append]
    exact readText_code opened fuel (readCode_hex h hm)
  | pair h =>
    rw [List.append_assoc, codeEscape_append]
    exact readText_code opened fuel (readCode_pair h hm)

theorem readText_escaped (opened fuel : Nat) (cs rest : List Char) (hf : cs.length < fuel) :
    readText opened fuel (cs.flatMap escape ++ '"' :: rest) = .ok (cs.map Char.toNat, rest) := by
  induction cs generalizing fuel with
  | nil =>
    obtain ⟨fuel, rfl⟩ := Nat.exists_eq_add_of_lt hf
    rfl
  | cons c cs ih =>
    cases fuel with
    | zero => omega
    | succ fuel =>
      rw [List.flatMap_cons, List.append_assoc, readText_escape opened fuel c (by simp), readNext,
        ih fuel (by simpa using hf)]
      rfl

theorem Escaped.ne_nil {c : Char} {written : List Char} (h : Escaped c written) :
    written ≠ [] := by
  cases h <;> exact List.cons_ne_nil _ _

theorem readString_escaped (cs rest : List Char) :
    readString plainHold (cs.flatMap escape ++ '"' :: rest) = .ok (String.ofList cs, rest) := by
  have hl : cs.length ≤ (cs.flatMap escape).length := by
    induction cs with
    | nil => exact Nat.le_refl _
    | cons c cs ih =>
      have hc := List.length_pos_iff.2 (escaped_escape c).ne_nil
      rw [List.flatMap_cons, List.length_append, List.length_cons]
      omega
  rw [readString, readText_escaped _ _ cs rest (by rw [List.length_append]; omega), Except.ok_bind]
  dsimp only
  rw [flatMap_plainHold]
  rfl

theorem printable_hex {n : Nat} (h : n < 0x10000) : ∀ c ∈ Text.hex 4 n, Printable c := by
  have hall : ∀ k < 16, Printable (Nat.digitChar k) := by decide
  intro c hc
  rw [Text.hex_four h] at hc
  simp only [List.mem_cons, List.not_mem_nil, or_false] at hc
  rcases hc with rfl | rfl | rfl | rfl
  all_goals exact hall _ (by omega)

theorem printable_codeEscape {n : Nat} (h : n < 0x10000) :
    ∀ c ∈ codeEscape n, Printable c := by
  intro c hc
  rcases List.mem_cons.1 hc with rfl | hc
  · decide
  rcases List.mem_cons.1 hc with rfl | hc
  · decide
  exact printable_hex h c hc

theorem Escaped.printable {c : Char} {written : List Char} (h : Escaped c written) :
    ∀ d ∈ written, Printable d := by
  have hv := toNat_valid c
  intro d hd
  cases h with
  | mark _ hp =>
    rcases List.mem_cons.1 hd with rfl | hd
    · decide
    · rw [List.mem_singleton.1 hd]
      exact hp
  | plain _ _ hp =>
    rw [List.mem_singleton.1 hd]
    exact hp
  | unit h => exact printable_codeEscape h d hd
  | pair h =>
    rcases List.mem_append.1 hd with hd | hd
    · exact printable_codeEscape (by omega) d hd
    · exact printable_codeEscape (by omega) d hd

end Json

end BlockScript
