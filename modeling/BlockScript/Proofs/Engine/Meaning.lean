import BlockScript.Engine.Step
import Mathlib.Algebra.Order.Floor.Div
import Mathlib.Data.ENat.Basic

/-!
# The structured meaning of block programs

A list of blocks is executed in order. A loop executes what is inside it as
often as its limit says, a loop with a condition tests and executes in turn, a
test executes what is inside it or passes over it, and every other block has
only its own effect. A block that fails ends everything. No frames and no
positions occur here: the relation follows the nesting of the blocks alone.
-/

set_option autoImplicit false

namespace BlockScript

/-- The number of rounds after which a count from one upward is no longer below
the limit: the limit rounded up, and one for everything that is not positive. -/
def Number.passes : Number → ℕ∞
  | .int n => (max 1 n.toNat : ℕ)
  | .float (.finite false rank) => (max 1 (Binary64.magnitude rank ⌈/⌉ Binary64.unity) : ℕ)
  | .float (.finite true _) => 1
  | .float (.infinity false) => ⊤
  | .float (.infinity true) => 1
  | .float (.nan _) => 1

namespace Number

theorem exceeds_int (n : Int) (k : ℕ) : (Number.int n).exceeds k = true ↔ (k : Int) < n := by
  simp [exceeds, order?, Int.compare_eq_lt]

theorem exceeds_finite (negative : Bool) (rank : Fin rankCount) (k : ℕ) :
    (Number.float (.finite negative rank)).exceeds k = true ↔
      ((k * Binary64.unity : ℕ) : Int) < Binary64.signedUnits negative rank := by
  have he : (Number.float (.finite negative rank)).exceeds k =
      (compare ((k : Int) * Binary64.unity) (Binary64.signedUnits negative rank) == .lt) := rfl
  rw [he, beq_iff_eq, Int.compare_eq_lt, Nat.cast_mul]

theorem order?_int_right {x : Binary64} (n : Int) {place : Place}
    (hx : (Number.float x).place? = some place) :
    (Number.float x).order? (.int n) = some (place.order (.finite (n * Binary64.unity))) := by
  have he : (Number.float x).order? (.int n) = (do
      let p ← (Number.float x).place?
      let q ← (Number.int n).place?
      return p.order q) := rfl
  rw [he, hx]
  rfl

theorem one_le_passes (limit : Number) : 1 ≤ limit.passes := by
  fun_cases passes limit with
  | case1 n => exact_mod_cast Nat.le_max_left 1 n.toNat
  | case2 rank => exact_mod_cast Nat.le_max_left 1 _
  | case3 => exact le_refl _
  | case4 => exact le_top
  | case5 => exact le_refl _
  | case6 => exact le_refl _

/-- A loop goes on after `k` rounds exactly when more rounds than that are due. -/
theorem exceeds_iff_lt_passes (limit : Number) (k : ℕ) (hk : 1 ≤ k) :
    limit.exceeds k = true ↔ (k : ℕ∞) < limit.passes := by
  have h1 : ¬ ((k : ℕ∞) < 1) := by exact_mod_cast Nat.not_lt.mpr hk
  fun_cases passes limit with
  | case1 n =>
    rw [exceeds_int, Nat.cast_lt]
    omega
  | case2 rank =>
    have hc : Binary64.magnitude rank ⌈/⌉ Binary64.unity ≤ k ↔
        Binary64.magnitude rank ≤ Binary64.unity * k := ceilDiv_le_iff_le_mul Binary64.unity_pos
    rw [exceeds_finite, Nat.cast_lt, lt_max_iff, ← not_le (a := _ ⌈/⌉ _), hc, mul_comm k]
    simp only [Binary64.signedUnits, Bool.false_eq_true, if_false]
    omega
  | case3 rank =>
    rw [exceeds_finite]
    simp only [Binary64.signedUnits, if_true, h1, iff_false]
    omega
  | case4 => exact iff_of_true rfl (ENat.natCast_lt_top k)
  | case5 => exact iff_of_false Bool.false_ne_true h1
  | case6 payload => exact iff_of_false Bool.false_ne_true h1

theorem passes_of_isZero (limit : Number) (h : limit.isZero = true) : limit.passes = 1 := by
  fun_cases passes limit with
  | case1 n =>
    have hn : n = 0 := by simpa [isZero, order?] using h
    simp [hn]
  | case2 rank =>
    rw [isZero, order?_int_right (x := .finite false rank) 0 rfl, zero_mul] at h
    change (some (compare (Binary64.signedUnits false rank) 0) == some Ordering.eq) = true at h
    rw [beq_iff_eq, Option.some.injEq, compare_eq_iff_eq, Binary64.signedUnits,
      if_neg Bool.false_ne_true, Nat.cast_eq_zero] at h
    rw [h, zero_ceilDiv]
    rfl
  | case3 => rfl
  | case4 => exact absurd h Bool.false_ne_true
  | case5 => rfl
  | case6 => rfl

end Number

namespace Block

def passes (b : Block) : ℕ∞ :=
  match b.param "times" with
  | .ok v =>
    match v.toNumber with
    | .ok n => n.passes
    | .error _ => 1
  | .error _ => 1

theorem passes_roundLimit (b : Block) : b.roundLimit.passes = b.passes := by
  unfold roundLimit passes
  cases b.param "times" with
  | error fault => rfl
  | ok v =>
    dsimp only
    cases v.toNumber with
    | error fault => rfl
    | ok n =>
      dsimp only
      split
      · next h => exact (n.passes_of_isZero h).symm
      · rfl

end Block

/-- What is to be executed: a list of blocks, a list of blocks a number of
times, or a list of blocks until a condition holds. -/
inductive Task where
  | blocks (bs : List Block)
  | times (k : ℕ∞) (body : List Block)
  | untilHolds (condition : Condition) (body : List Block)

def Block.inner (b : Block) (vars : Bindings VarName Number) : Task :=
  if b.hasChildren then
    match b.kind?, b.condition with
    | some .loop, _ => .times b.passes b.body
    | some .loopUntil, .ok condition => .untilHolds condition b.body
    | some .branch, .ok condition =>
      if condition.holdsIn vars then .blocks b.body else .blocks []
    | _, _ => .blocks []
  else .blocks []

structure Execution where
  block : Block
  before : Store

inductive Outcome where
  | done
  | failed (id : String) (fault : Fault)

/-- A task, the store before it, the blocks executed in order, how it came out
and the store after it. -/
inductive Runs : Task → Store → List Execution → Outcome → Store → Prop
  | nothing {s : Store} : Runs (.blocks []) s [] .done s
  | fails {b : Block} {bs : List Block} {s : Store} {fault : Fault} :
      b.effect s.vars = .error fault →
      Runs (.blocks (b :: bs)) s [⟨b, s⟩] (.failed b.id fault) s
  | failsInside {b : Block} {bs : List Block} {s s₁ : Store} {effect : Effect}
      {t : List Execution} {id : String} {fault : Fault} :
      b.effect s.vars = .ok effect →
      Runs (b.inner s.vars) (s.apply effect) t (.failed id fault) s₁ →
      Runs (.blocks (b :: bs)) s (⟨b, s⟩ :: t) (.failed id fault) s₁
  | next {b : Block} {bs : List Block} {s s₁ s₂ : Store} {effect : Effect}
      {t u : List Execution} {o : Outcome} :
      b.effect s.vars = .ok effect →
      Runs (b.inner s.vars) (s.apply effect) t .done s₁ →
      Runs (.blocks bs) s₁ u o s₂ →
      Runs (.blocks (b :: bs)) s (⟨b, s⟩ :: (t ++ u)) o s₂
  | noRound {k : ℕ∞} {body : List Block} {s : Store} :
      k = 0 → Runs (.times k body) s [] .done s
  | roundFails {k : ℕ∞} {body : List Block} {s s₁ : Store} {t : List Execution}
      {id : String} {fault : Fault} :
      k ≠ 0 → Runs (.blocks body) s t (.failed id fault) s₁ →
      Runs (.times k body) s t (.failed id fault) s₁
  | round {k : ℕ∞} {body : List Block} {s s₁ s₂ : Store} {t u : List Execution} {o : Outcome} :
      k ≠ 0 → Runs (.blocks body) s t .done s₁ → Runs (.times (k - 1) body) s₁ u o s₂ →
      Runs (.times k body) s (t ++ u) o s₂
  | holds {condition : Condition} {body : List Block} {s : Store} :
      condition.holdsIn s.vars = true → Runs (.untilHolds condition body) s [] .done s
  | untilFails {condition : Condition} {body : List Block} {s s₁ : Store} {t : List Execution}
      {id : String} {fault : Fault} :
      condition.holdsIn s.vars = false → Runs (.blocks body) s t (.failed id fault) s₁ →
      Runs (.untilHolds condition body) s t (.failed id fault) s₁
  | untilRound {condition : Condition} {body : List Block} {s s₁ s₂ : Store}
      {t u : List Execution} {o : Outcome} :
      condition.holdsIn s.vars = false → Runs (.blocks body) s t .done s₁ →
      Runs (.untilHolds condition body) s₁ u o s₂ →
      Runs (.untilHolds condition body) s (t ++ u) o s₂

abbrev Reading := Store → List Execution → Outcome → Store → Prop

namespace Reading

def skip : Reading := fun s t o s' => t = [] ∧ o = .done ∧ s' = s

def andThen (p q : Reading) : Reading := fun s t o s' =>
  (o ≠ .done ∧ p s t o s') ∨ ∃ t₁ s₁ t₂, p s t₁ .done s₁ ∧ q s₁ t₂ o s' ∧ t = t₁ ++ t₂

theorem skip_andThen (q : Reading) : skip.andThen q = q := by
  funext s t o s'
  apply propext
  constructor
  · rintro (⟨ho, -, hd, -⟩ | ⟨t₁, s₁, t₂, ⟨rfl, -, rfl⟩, hq, rfl⟩)
    · exact absurd hd ho
    · exact hq
  · intro hq
    exact Or.inr ⟨[], s, t, ⟨rfl, rfl, rfl⟩, hq, rfl⟩

theorem andThen_assoc (p q r : Reading) :
    (p.andThen q).andThen r = p.andThen (q.andThen r) := by
  funext s t o s'
  apply propext
  constructor
  · rintro (⟨ho, ⟨-, hp⟩ | ⟨t₁, s₁, t₂, hp, hq, rfl⟩⟩ |
      ⟨-, s₂, t₃, ⟨hd, -⟩ | ⟨t₁, s₁, t₂, hp, hq, rfl⟩, hr, rfl⟩)
    · exact Or.inl ⟨ho, hp⟩
    · exact Or.inr ⟨t₁, s₁, t₂, hp, Or.inl ⟨ho, hq⟩, rfl⟩
    · exact absurd rfl hd
    · exact Or.inr ⟨t₁, s₁, t₂ ++ t₃, hp, Or.inr ⟨t₂, s₂, t₃, hq, hr, rfl⟩,
        List.append_assoc _ _ _⟩
  · rintro (⟨ho, hp⟩ | ⟨t₁, s₁, u, hp, ⟨ho, hq⟩ | ⟨t₂, s₂, t₃, hq, hr, rfl⟩, rfl⟩)
    · exact Or.inl ⟨ho, Or.inl ⟨ho, hp⟩⟩
    · exact Or.inl ⟨ho, Or.inr ⟨t₁, s₁, u, hp, hq, rfl⟩⟩
    · exact Or.inr ⟨t₁ ++ t₂, s₂, t₃, Or.inr ⟨t₁, s₁, t₂, hp, hq, rfl⟩, hr,
        (List.append_assoc _ _ _).symm⟩

def perform (b : Block) (next : Effect → Store → Reading) : Reading := fun s t o s' =>
  match b.effect s.vars with
  | .error fault => t = [⟨b, s⟩] ∧ o = .failed b.id fault ∧ s' = s
  | .ok effect => ∃ u, t = ⟨b, s⟩ :: u ∧ next effect s (s.apply effect) u o s'

theorem perform_andThen (b : Block) (next : Effect → Store → Reading) (q : Reading) :
    (perform b next).andThen q = perform b fun effect s => (next effect s).andThen q := by
  funext s t o s'
  apply propext
  simp only [perform, andThen]
  cases b.effect s.vars with
  | error fault =>
    constructor
    · rintro (⟨-, h⟩ | ⟨t₁, s₁, t₂, ⟨-, ho, -⟩, -⟩)
      · exact h
      · cases ho
    · rintro ⟨rfl, rfl, rfl⟩
      exact Or.inl ⟨nofun, rfl, rfl, rfl⟩
  | ok effect =>
    constructor
    · rintro (⟨ho, u, rfl, hn⟩ | ⟨-, s₁, t₂, ⟨u, rfl, hn⟩, hq, rfl⟩)
      · exact ⟨u, rfl, Or.inl ⟨ho, hn⟩⟩
      · exact ⟨u ++ t₂, rfl, Or.inr ⟨u, s₁, t₂, hn, hq, rfl⟩⟩
    · rintro ⟨v, rfl, ⟨ho, hn⟩ | ⟨u, s₁, t₂, hn, hq, rfl⟩⟩
      · exact Or.inl ⟨ho, v, rfl, hn⟩
      · exact Or.inr ⟨⟨b, s⟩ :: u, s₁, t₂, ⟨u, rfl, hn⟩, hq, rfl⟩

end Reading

open Reading

namespace Runs

theorem blocks_nil : Runs (.blocks []) = skip := by
  funext s t o s'
  apply propext
  constructor
  · rintro ⟨⟩
    exact ⟨rfl, rfl, rfl⟩
  · rintro ⟨rfl, rfl, rfl⟩
    exact nothing

theorem blocks_cons (b : Block) (bs : List Block) :
    Runs (.blocks (b :: bs)) =
      perform b fun _ s => andThen (Runs (b.inner s.vars)) (Runs (.blocks bs)) := by
  funext s t o s'
  apply propext
  unfold perform andThen
  constructor
  · intro h
    cases h with
    | fails he => rw [he]; exact ⟨rfl, rfl, rfl⟩
    | failsInside he hi => rw [he]; exact ⟨_, rfl, Or.inl ⟨nofun, hi⟩⟩
    | next he hi hr => rw [he]; exact ⟨_, rfl, Or.inr ⟨_, _, _, hi, hr, rfl⟩⟩
  · cases he : b.effect s.vars with
    | error fault =>
      rintro ⟨rfl, rfl, rfl⟩
      exact fails he
    | ok effect =>
      rintro ⟨u, rfl, ⟨ho, hi⟩ | ⟨t₁, s₁, t₂, hi, hr, rfl⟩⟩
      · cases o with
        | done => exact absurd rfl ho
        | failed id fault => exact failsInside he hi
      · exact next he hi hr

theorem times_zero (body : List Block) : Runs (.times 0 body) = skip := by
  funext s t o s'
  apply propext
  constructor
  · intro h
    cases h with
    | noRound => exact ⟨rfl, rfl, rfl⟩
    | roundFails hk => exact absurd rfl hk
    | round hk => exact absurd rfl hk
  · rintro ⟨rfl, rfl, rfl⟩
    exact noRound rfl

theorem times_pos (k : ℕ∞) (body : List Block) (hk : k ≠ 0) :
    Runs (.times k body) = andThen (Runs (.blocks body)) (Runs (.times (k - 1) body)) := by
  funext s t o s'
  apply propext
  constructor
  · intro h
    cases h with
    | noRound h0 => exact absurd h0 hk
    | roundFails _ hb => exact Or.inl ⟨nofun, hb⟩
    | round _ hb hr => exact Or.inr ⟨_, _, _, hb, hr, rfl⟩
  · rintro (⟨ho, hb⟩ | ⟨t₁, s₁, t₂, hb, hr, rfl⟩)
    · cases o with
      | done => exact absurd rfl ho
      | failed id fault => exact roundFails hk hb
    · exact round hk hb hr

theorem until_of_holds (condition : Condition) (body : List Block) (s : Store)
    (h : condition.holdsIn s.vars = true) : Runs (.untilHolds condition body) s = skip s := by
  funext t o s'
  apply propext
  constructor
  · intro hr
    cases hr with
    | holds => exact ⟨rfl, rfl, rfl⟩
    | untilFails hn => rw [h] at hn; cases hn
    | untilRound hn => rw [h] at hn; cases hn
  · rintro ⟨rfl, rfl, rfl⟩
    exact holds h

theorem until_of_not_holds (condition : Condition) (body : List Block) (s : Store)
    (h : condition.holdsIn s.vars = false) :
    Runs (.untilHolds condition body) s =
      andThen (Runs (.blocks body)) (Runs (.untilHolds condition body)) s := by
  funext t o s'
  apply propext
  constructor
  · intro hr
    cases hr with
    | holds hy => rw [h] at hy; cases hy
    | untilFails _ hb => exact Or.inl ⟨nofun, hb⟩
    | untilRound _ hb hu => exact Or.inr ⟨_, _, _, hb, hu, rfl⟩
  · rintro (⟨ho, hb⟩ | ⟨t₁, s₁, t₂, hb, hu, rfl⟩)
    · cases o with
      | done => exact absurd rfl ho
      | failed id fault => exact untilFails h hb
    · exact untilRound h hb hu

end Runs

end BlockScript
