import BlockScript.Command.Host

/-!
# Lone surrogates in texts

On the host of UTF-8 a text tells the code points that it holds, lone surrogates
among them. So the console refuses a text exactly if one of them is a lone surrogate,
and prints it in their characters otherwise.
-/

set_option autoImplicit false

namespace BlockScript.Command.Host

theorem toNat_ofNat {n : Nat} (h : n.isValidChar) : (Char.ofNat n).toNat = n := by
  rw [Char.ofNat, dif_pos h]
  rfl

theorem isValidChar_of_not_isSurrogate {n : Nat} (hn : n < 0x110000)
    (hs : ¬ isSurrogate n = true) : n.isValidChar := by
  simp only [isSurrogate, Bool.and_eq_true, decide_eq_true_eq] at hs
  rw [Nat.isValidChar]
  omega

theorem codes_mark (c : Char) (rest : List Char) :
    codes (mark :: c :: rest) = unmarked c.toNat :: codes rest := by
  rw [codes, if_pos rfl]

theorem codes_cons_of_ne {c : Char} (h : c ≠ mark) (rest : List Char) :
    codes (c :: rest) = c.toNat :: codes rest := by
  cases rest with
  | nil => rfl
  | cons next rest => rw [codes, if_neg h]

/-- The characters that hold a code point are told from whatever stands behind them. -/
theorem codes_markedHold {n : Nat} (hn : n < 0x110000) (rest : List Char) :
    codes (markedHold n ++ rest) = n :: codes rest := by
  unfold markedHold
  split
  · next hs =>
    simp only [isSurrogate, Bool.and_eq_true, decide_eq_true_eq] at hs
    have hv : (n + 0x801).isValidChar := by
      rw [Nat.isValidChar]
      omega
    rw [List.cons_append, List.singleton_append, codes_mark, toNat_ofNat hv, unmarked,
      if_neg (by omega), Nat.add_sub_cancel]
  · next hs =>
    split
    · next he =>
      subst he
      exact codes_mark _ _
    · next he =>
      have hc := toNat_ofNat (isValidChar_of_not_isSurrogate hn hs)
      have hm : Char.ofNat n ≠ mark := by
        intro h
        rw [h] at hc
        exact he hc.symm
      rw [List.singleton_append, codes_cons_of_ne hm, hc]

theorem codes_flatMap_markedHold {ns : List Nat} (h : ∀ n ∈ ns, n < 0x110000) :
    codes (ns.flatMap markedHold) = ns := by
  induction ns with
  | nil => rfl
  | cons n ns ih =>
    obtain ⟨hn, hr⟩ := List.forall_mem_cons.1 h
    rw [List.flatMap_cons, codes_markedHold hn, ih hr]

theorem refusal?_eq_none_iff (ns : List Nat) :
    refusal? ns = none ↔ ∀ n ∈ ns, isSurrogate n = false := by
  rw [refusal?, ← List.findIdx?_eq_none_iff]
  cases ns.findIdx? isSurrogate with
  | none => exact iff_of_true rfl rfl
  | some start => exact iff_of_false nofun nofun

/-- A text that holds code points is printed in their characters, if none of them is a
lone surrogate, and refused otherwise. -/
theorem console_of_hold {ns : List Nat} (h : ∀ n ∈ ns, n < 0x110000) :
    ((∀ n ∈ ns, isSurrogate n = false) →
      utf8.console (String.ofList (ns.flatMap utf8.hold)) =
        .ok (String.ofList (ns.map Char.ofNat))) ∧
    ((∃ n ∈ ns, isSurrogate n = true) →
      ∃ reason, utf8.console (String.ofList (ns.flatMap utf8.hold)) = .error reason) := by
  change (_ → utf8Console (String.ofList (ns.flatMap markedHold)) = _) ∧
    (_ → ∃ reason, utf8Console (String.ofList (ns.flatMap markedHold)) = .error reason)
  unfold utf8Console
  rw [String.toList_ofList, codes_flatMap_markedHold h]
  constructor
  · intro hs
    simp only [(refusal?_eq_none_iff ns).2 hs]
  · rintro ⟨n, hm, hs⟩
    cases hr : refusal? ns with
    | some reason =>
      refine ⟨reason, ?_⟩
      simp only [hr]
    | none =>
      have hn := (refusal?_eq_none_iff ns).1 hr n hm
      rw [hs] at hn
      cases hn

end BlockScript.Command.Host
