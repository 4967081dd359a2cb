/-!
# Classes of characters

A class of characters is given by ascending disjoint ranges of code points,
both ends included. `inRanges_iff` says that the search through such ranges,
which ends at the first range that starts too high, finds every member.
-/

set_option autoImplicit false

namespace BlockScript.Text

def inRanges : List (Nat × Nat) → Nat → Bool
  | [], _ => false
  | (low, high) :: rest, n => if n < low then false else n ≤ high || inRanges rest n

def ascendingFrom : Nat → List (Nat × Nat) → Bool
  | _, [] => true
  | bound, (low, high) :: rest => bound ≤ low && low ≤ high && ascendingFrom (high + 1) rest

theorem lt_of_mem_ascending {bound : Nat} {ranges : List (Nat × Nat)}
    (ha : ascendingFrom bound ranges = true) {range : Nat × Nat} (hr : range ∈ ranges) :
    bound ≤ range.1 := by
  induction ranges generalizing bound with
  | nil => cases hr
  | cons first rest ih =>
    obtain ⟨low, high⟩ := first
    simp only [ascendingFrom, Bool.and_eq_true, decide_eq_true_eq] at ha
    rcases List.mem_cons.1 hr with rfl | hr
    · exact ha.1.1
    · have := ih ha.2 hr
      omega

theorem inRanges_iff {bound : Nat} {ranges : List (Nat × Nat)}
    (ha : ascendingFrom bound ranges = true) (n : Nat) :
    inRanges ranges n = true ↔ ∃ range ∈ ranges, range.1 ≤ n ∧ n ≤ range.2 := by
  induction ranges generalizing bound with
  | nil => simp [inRanges]
  | cons first rest ih =>
    obtain ⟨low, high⟩ := first
    simp only [ascendingFrom, Bool.and_eq_true, decide_eq_true_eq] at ha
    by_cases hl : n < low
    · simp only [inRanges, if_pos hl, Bool.false_eq_true, false_iff]
      rintro ⟨range, hr, h1, -⟩
      rcases List.mem_cons.1 hr with rfl | hr
      · exact absurd h1 (by simpa using hl)
      · have := lt_of_mem_ascending ha.2 hr
        omega
    · simp only [inRanges, if_neg hl, Bool.or_eq_true, decide_eq_true_eq, ih ha.2,
        List.mem_cons, exists_eq_or_imp]
      constructor
      · rintro (h | h)
        · exact Or.inl ⟨Nat.le_of_not_lt hl, h⟩
        · exact Or.inr h
      · rintro (h | h)
        · exact Or.inl h.2
        · exact Or.inr h

end BlockScript.Text
