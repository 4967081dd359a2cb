import BlockScript.Proofs.Value.Showing
import Mathlib.Algebra.Order.Field.Basic
import Mathlib.Algebra.Order.Field.Rat
import Mathlib.Data.String.Basic
import Mathlib.Order.Compare
import Mathlib.Order.WithBot

/-!
# Laws of the loose comparison

Numbers of both kinds have their exact places among the rationals and two ends,
and texts are ordered by code points. So two values that both have places on one of
these lines stand in exactly one order, which is turned around when they change
sides, and all others stand in none. Comparing never fails, since it answers for a
value that is not a number.
-/

set_option autoImplicit false

namespace BlockScript

abbrev Line := WithBot (WithTop ℚ)

namespace Number

def line? : Number → Option Line
  | .int n => some ((n : ℚ) : WithTop ℚ)
  | .float (.finite negative rank) =>
    some ((Binary64.signedUnits negative rank / Binary64.unity : ℚ) : WithTop ℚ)
  | .float (.infinity true) => some ⊥
  | .float (.infinity false) => some ⊤
  | .float (.nan _) => none

def Place.line : Place → Line
  | .bottom => ⊥
  | .finite units => ((units / Binary64.unity : ℚ) : WithTop ℚ)
  | .top => ⊤

theorem line?_eq (x : Number) : x.line? = x.place?.map Place.line := by
  have hu : (Binary64.unity : ℚ) ≠ 0 := Nat.cast_ne_zero.2 Binary64.unity_pos.ne'
  cases x with
  | int n =>
    have hq : ((n * Binary64.unity : Int) : ℚ) / Binary64.unity = n := by
      rw [Int.cast_mul, Int.cast_natCast, mul_div_cancel_right₀ _ hu]
    exact congrArg (fun q : ℚ => some ((q : WithTop ℚ) : Line)) hq.symm
  | float x =>
    cases x with
    | finite negative rank => rfl
    | infinity negative => cases negative <;> rfl
    | nan payload => rfl

theorem strictMono_line : StrictMono fun q : ℚ => ((q : WithTop ℚ) : Line) :=
  WithBot.coe_strictMono.comp WithTop.coe_strictMono

theorem Place.cmp_finite (a b : Int) :
    cmp (Place.finite a).line (Place.finite b).line = compare a b := by
  have hu : (0 : ℚ) < Binary64.unity := Nat.cast_pos.2 Binary64.unity_pos
  have hm : StrictMono fun units : Int => (Place.finite units).line := fun a b hab =>
    strictMono_line (div_lt_div_of_pos_right (Int.cast_lt.2 hab) hu)
  rw [hm.cmp_map_eq a b, cmp_eq_compare]

theorem Place.order_eq (p q : Place) : p.order q = cmp p.line q.line := by
  have hbelow : ∀ x : WithTop ℚ, (⊥ : Line) < x := WithBot.bot_lt_coe
  have habove : ∀ x : ℚ, ((x : WithTop ℚ) : Line) < ⊤ := fun x =>
    WithBot.coe_lt_coe.2 (WithTop.coe_lt_top x)
  symm
  cases p with
  | bottom =>
    cases q with
    | bottom => exact cmp_self_eq_eq _
    | finite units => exact (cmp_eq_lt_iff _ _).2 (hbelow _)
    | top => exact (cmp_eq_lt_iff _ _).2 (hbelow _)
  | finite units =>
    cases q with
    | bottom => exact (cmp_eq_gt_iff _ _).2 (hbelow _)
    | finite units' => exact Place.cmp_finite units units'
    | top => exact (cmp_eq_lt_iff _ _).2 (habove _)
  | top =>
    cases q with
    | bottom => exact (cmp_eq_gt_iff _ _).2 (hbelow _)
    | finite units => exact (cmp_eq_gt_iff _ _).2 (habove _)
    | top => exact cmp_self_eq_eq _

/-- Numbers are ordered by their exact places, also an integer and a floating point
number. -/
theorem order?_eq (x y : Number) :
    x.order? y = do return cmp (← x.line?) (← y.line?) := by
  have hplaces : (do return (← x.place?).order (← y.place?)) =
      (do return cmp (← x.line?) (← y.line?) : Option Ordering) := by
    rw [line?_eq, line?_eq]
    cases x.place? with
    | none => rfl
    | some p =>
      cases y.place? with
      | none => rfl
      | some q => exact congrArg some (Place.order_eq p q)
  cases x with
  | float x => rw [← hplaces]; rfl
  | int a =>
    cases y with
    | float y => rw [← hplaces]; rfl
    | int b =>
      have hm : StrictMono fun n : Int => (((n : ℚ) : WithTop ℚ) : Line) :=
        strictMono_line.comp Int.cast_strictMono
      change some (compare a b) = some (cmp _ _)
      rw [hm.cmp_map_eq a b, cmp_eq_compare]

theorem order?_swap (x y : Number) : y.order? x = (x.order? y).map Ordering.swap := by
  rw [order?_eq, order?_eq]
  cases x.line? with
  | none => cases y.line? <;> rfl
  | some p =>
    cases y.line? with
    | none => rfl
    | some q => exact congrArg some (cmp_swap p q).symm

def IsNan (x : Number) : Prop := ∃ payload, x = .float (.nan payload)

theorem line?_eq_none_iff (x : Number) : x.line? = none ↔ x.IsNan := by
  fun_cases line? x with
  | case1 | case2 | case3 | case4 => exact iff_of_false nofun (by rintro ⟨payload, ⟨⟩⟩)
  | case5 payload => exact iff_of_true rfl ⟨payload, rfl⟩

end Number

theorem Text.order_eq (s t : String) : Text.order s t = cmp s t := by
  symm
  apply Ordering.Compares.cmp_eq
  unfold Text.order
  split
  · next h => exact h
  · next h =>
    split
    · next he => exact he
    · next he => exact lt_of_le_of_ne (not_lt.1 h) (Ne.symm he)

namespace Value

variable {l r : Value}

def AreTexts (l r : Value) : Prop := ∃ s t, l = .text s ∧ r = .text t

/-- Two texts, or two values that stand for numbers with places on the line. -/
inductive Comparable (l r : Value) : Prop
  | texts : AreTexts l r → Comparable l r
  | numbers {m n : Number} : l.toNumber = .ok m → r.toNumber = .ok n → ¬ m.IsNan → ¬ n.IsNan →
      Comparable l r

theorem order?_texts (s t : String) : (text s).order? (.text t) = some (cmp s t) :=
  congrArg some (Text.order_eq s t)

theorem order?_of_not_texts (h : ¬ AreTexts l r) :
    l.order? r =
      l.toNumber.toOption.bind fun m => r.toNumber.toOption.bind fun n => m.order? n := by
  unfold order?
  split
  · exact absurd ⟨_, _, rfl, rfl⟩ h
  · cases l.toNumber with
    | error fault => rfl
    | ok m => cases r.toNumber <;> rfl

theorem order?_swap (l r : Value) : r.order? l = (l.order? r).map Ordering.swap := by
  by_cases h : AreTexts l r
  · obtain ⟨s, t, rfl, rfl⟩ := h
    rw [order?_texts, order?_texts, Option.map_some, cmp_swap]
  · have hs : ¬ AreTexts r l := fun ⟨s, t, hr, hl⟩ => h ⟨t, s, hl, hr⟩
    rw [order?_of_not_texts h, order?_of_not_texts hs]
    cases l.toNumber with
    | error fault => cases r.toNumber <;> rfl
    | ok m =>
      cases r.toNumber with
      | error fault => rfl
      | ok n => exact Number.order?_swap m n

/-- Values that are not both text have the order of their places on the line. -/
theorem order?_eq_some_iff (h : ¬ AreTexts l r) (o : Ordering) :
    l.order? r = some o ↔ ∃ m n x y, l.toNumber = .ok m ∧ r.toNumber = .ok n ∧
      m.line? = some x ∧ n.line? = some y ∧ cmp x y = o := by
  rw [order?_of_not_texts h]
  cases l.toNumber with
  | error fault => exact iff_of_false nofun fun ⟨_, _, _, _, hm, _⟩ => nomatch hm
  | ok m =>
    cases r.toNumber with
    | error fault => exact iff_of_false nofun fun ⟨_, _, _, _, _, hn, _⟩ => nomatch hn
    | ok n =>
      change m.order? n = some o ↔ _
      rw [Number.order?_eq]
      constructor
      · intro ho
        obtain ⟨x, hx, ho⟩ := Option.bind_eq_some_iff.1 ho
        obtain ⟨y, hy, ho⟩ := Option.bind_eq_some_iff.1 ho
        exact ⟨m, n, x, y, rfl, rfl, hx, hy, Option.some.inj ho⟩
      · rintro ⟨m', n', x, y, hm, hn, hx, hy, rfl⟩
        cases hm
        cases hn
        rw [hx, hy]
        rfl

theorem exists_order?_iff (l r : Value) : (∃ o, l.order? r = some o) ↔ l.Comparable r := by
  by_cases h : AreTexts l r
  · refine iff_of_true ?_ (.texts h)
    obtain ⟨s, t, rfl, rfl⟩ := h
    exact ⟨_, order?_texts s t⟩
  · constructor
    · rintro ⟨o, ho⟩
      obtain ⟨m, n, x, y, hm, hn, hx, hy, -⟩ := (order?_eq_some_iff h o).1 ho
      refine .numbers hm hn ?_ ?_
      · rw [← Number.line?_eq_none_iff, hx]
        exact Option.some_ne_none x
      · rw [← Number.line?_eq_none_iff, hy]
        exact Option.some_ne_none y
    · rintro (ht | ⟨hm, hn, hx, hy⟩)
      · exact absurd ht h
      · rw [← Number.line?_eq_none_iff] at hx hy
        obtain ⟨x, hx⟩ := Option.ne_none_iff_exists'.1 hx
        obtain ⟨y, hy⟩ := Option.ne_none_iff_exists'.1 hy
        exact ⟨_, (order?_eq_some_iff h _).2 ⟨_, _, x, y, hm, hn, hx, hy, rfl⟩⟩

theorem holds_symbol (l r : Value) (c : Comparison) :
    l.holds (.text c.symbol) r = c.accepts (l.order? r) := by
  cases c <;> rfl

theorem holds_of_no_symbol {operator : Value} (h : ∀ c : Comparison, operator ≠ .text c.symbol)
    (l r : Value) : l.holds operator r = false := by
  have hn : Comparison.ofValue? operator = none := by
    cases operator with
    | text s =>
      refine List.find?_eq_none.2 fun c _ hc => h c ?_
      rw [beq_iff_eq.1 hc]
    | null | bool | number | list | record => rfl
  rw [holds, hn]

end Value

namespace Comparison

def asking : Ordering → Comparison
  | .lt => .below
  | .eq => .equal
  | .gt => .above

theorem accepts_asking (o : Ordering) (o? : Option Ordering) :
    (asking o).accepts o? = (o? == some o) := by
  cases o <;> rfl

theorem accepts_none (c : Comparison) : c.accepts none = (c == .unequal) := by
  cases c <;> rfl

end Comparison

def Fault.isRefusal : Fault → Bool
  | .notNumber _ | .tooManyDigits => true
  | _ => false

namespace Value

variable {l r : Value}

def comparing (lhs operator rhs : Value) : Except Fault Bool :=
  match Comparison.ofValue? operator with
  | none => .ok false
  | some comparison =>
    match lhs, rhs with
    | .text s, .text t => .ok (comparison.accepts (some (Text.order s t)))
    | x, y =>
      match x.toNumber, y.toNumber with
      | .ok m, .ok n => .ok (comparison.accepts (m.order? n))
      | .error fault, _ | .ok _, .error fault =>
        if fault.isRefusal then .ok (comparison == .unequal) else .error fault

theorem isRefusal_of_toNumber {v : Value} {fault : Fault} (h : v.toNumber = .error fault) :
    fault.isRefusal = true := by
  rcases v.onlyFails_toNumber fault h with rfl | ⟨shown, rfl⟩
  · rfl
  · rfl

theorem comparing_eq (l operator r : Value) :
    l.comparing operator r = .ok (l.holds operator r) := by
  unfold comparing holds
  cases Comparison.ofValue? operator with
  | none => rfl
  | some c =>
    dsimp only
    split
    · rfl
    · next hn =>
      have ht : ¬ AreTexts l r := fun ⟨s, t, hl, hr⟩ => hn s t hl hr
      rw [order?_of_not_texts ht]
      cases hl : l.toNumber with
      | error fault => simp [isRefusal_of_toNumber hl, Comparison.accepts_none, Except.toOption]
      | ok m =>
        cases hr : r.toNumber with
        | error fault => simp [isRefusal_of_toNumber hr, Comparison.accepts_none, Except.toOption]
        | ok n => rfl

theorem mem_signs_iff (x : String) :
    x ∈ ["<", "==", ">"] ↔ ∃ o, x = (Comparison.asking o).symbol := by
  constructor
  · intro hx
    simp only [List.mem_cons, List.not_mem_nil, or_false] at hx
    rcases hx with rfl | rfl | rfl
    · exact ⟨.lt, rfl⟩
    · exact ⟨.eq, rfl⟩
    · exact ⟨.gt, rfl⟩
  · rintro ⟨o, rfl⟩
    cases o <;> simp [Comparison.asking, Comparison.symbol]

theorem holds_asking_iff (l r : Value) (o : Ordering) :
    l.holds (.text (Comparison.asking o).symbol) r = true ↔ l.order? r = some o := by
  rw [holds_symbol, Comparison.accepts_asking, beq_iff_eq]

theorem holds_unequal (l r : Value) :
    l.holds (.text "!=") r = !l.holds (.text "==") r := by
  have hu : l.holds (.text "!=") r = (l.order? r != some .eq) := holds_symbol l r .unequal
  have he : l.holds (.text "==") r = (l.order? r == some .eq) := holds_symbol l r .equal
  rw [hu, he]
  rfl

theorem holds_asking_swap (l r : Value) (o : Ordering) :
    l.holds (.text (Comparison.asking o).symbol) r =
      r.holds (.text (Comparison.asking o.swap).symbol) l := by
  rw [Bool.eq_iff_iff, holds_asking_iff, holds_asking_iff, order?_swap l r,
    Option.map_eq_some_iff]
  constructor
  · intro h
    exact ⟨o, h, rfl⟩
  · rintro ⟨o', h, hs⟩
    rw [h, Ordering.swap_inj.1 hs]

theorem sign_unique {x y : String} (hx : x ∈ ["<", "==", ">"]) (hy : y ∈ ["<", "==", ">"])
    (h : l.holds (.text x) r = true) (h' : l.holds (.text y) r = true) : x = y := by
  obtain ⟨o, rfl⟩ := (mem_signs_iff x).1 hx
  obtain ⟨o', rfl⟩ := (mem_signs_iff y).1 hy
  rw [holds_asking_iff] at h h'
  rw [h, Option.some.injEq] at h'
  rw [h']

theorem exists_sign_iff (l r : Value) :
    (∃ x ∈ ["<", "==", ">"], l.holds (.text x) r = true) ↔ l.Comparable r := by
  rw [← exists_order?_iff]
  constructor
  · rintro ⟨x, hx, h⟩
    obtain ⟨o, rfl⟩ := (mem_signs_iff x).1 hx
    exact ⟨o, (holds_asking_iff l r o).1 h⟩
  · rintro ⟨o, ho⟩
    exact ⟨_, (mem_signs_iff _).2 ⟨o, rfl⟩, (holds_asking_iff l r o).2 ho⟩

/-- The laws of the comparison. It never fails. Unequal is the negation of equal,
above is below from the other side, and equal is the same from both sides. At most
one of below, equal and above holds: exactly one of comparable values, by the order
of their texts or else of their exact places on the line, and none of others. Nothing
holds under any other operator. -/
theorem comparison_laws (l r : Value) :
    (∀ operator, l.comparing operator r = .ok (l.holds operator r)) ∧
    l.holds (.text "!=") r = !l.holds (.text "==") r ∧
    l.holds (.text ">") r = r.holds (.text "<") l ∧
    l.holds (.text "==") r = r.holds (.text "==") l ∧
    (∀ x ∈ ["<", "==", ">"], ∀ y ∈ ["<", "==", ">"],
      l.holds (.text x) r = true → l.holds (.text y) r = true → x = y) ∧
    (l.Comparable r → ∃! x, x ∈ ["<", "==", ">"] ∧ l.holds (.text x) r = true) ∧
    (¬ l.Comparable r → ∀ x ∈ ["<", "==", ">"], l.holds (.text x) r = false) ∧
    (∀ s t, l = .text s → r = .text t →
      (l.holds (.text "<") r = true ↔ s < t) ∧ (l.holds (.text "==") r = true ↔ s = t)) ∧
    (∀ m n x y, ¬ l.AreTexts r → l.toNumber = .ok m → r.toNumber = .ok n →
      m.line? = some x → n.line? = some y →
      (l.holds (.text "<") r = true ↔ x < y) ∧ (l.holds (.text "==") r = true ↔ x = y)) ∧
    ∀ operator, (∀ x ∈ [">", "<", "==", "!="], operator ≠ .text x) →
      l.holds operator r = false := by
  have hbelow := holds_asking_iff l r .lt
  have hequal := holds_asking_iff l r .eq
  refine ⟨fun operator => comparing_eq l operator r, holds_unequal l r, holds_asking_swap l r .gt,
    holds_asking_swap l r .eq, fun x hx y hy => sign_unique hx hy, ?_, ?_, ?_, ?_, ?_⟩
  · intro hc
    obtain ⟨x, hx, h⟩ := (exists_sign_iff l r).2 hc
    exact ⟨x, ⟨hx, h⟩, fun y hy => sign_unique hy.1 hx hy.2 h⟩
  · intro hc x hx
    rw [← Bool.not_eq_true]
    exact fun h => hc ((exists_sign_iff l r).1 ⟨x, hx, h⟩)
  · rintro s t rfl rfl
    rw [order?_texts, Option.some.injEq] at hbelow hequal
    exact ⟨hbelow.trans (cmp_eq_lt_iff s t), hequal.trans (cmp_eq_eq_iff s t)⟩
  · intro m n x y ht hm hn hx hy
    have ho : l.order? r = some (cmp x y) :=
      (order?_eq_some_iff ht _).2 ⟨m, n, x, y, hm, hn, hx, hy, rfl⟩
    rw [ho, Option.some.injEq] at hbelow hequal
    exact ⟨hbelow.trans (cmp_eq_lt_iff x y), hequal.trans (cmp_eq_eq_iff x y)⟩
  · intro operator h
    refine holds_of_no_symbol (fun c => h c.symbol ?_) l r
    cases c <;> simp [Comparison.symbol]

end Value

end BlockScript
