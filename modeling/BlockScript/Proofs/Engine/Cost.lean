import BlockScript.Proofs.Engine.Flags

/-!
# How long a program can run

Without loops that wait for a condition, and without infinite loops, a program
stops. Each block has a cost: one step for itself and, if it nests, the cost of
what is inside it for every round it makes. A frame still costs what is left of
its list and the rounds it has yet to make. Every step of the engine takes at
least one off the cost of its whole stack, although positions are rewound, so the
cost of the program bounds the number of its steps.
-/

set_option autoImplicit false

namespace BlockScript

namespace Block

/-- A block that cannot hold the engine forever: it does not wait for a condition
with blocks inside it, and if it is a loop then its limit is not infinite. -/
structure Limited (b : Block) : Prop where
  noWaiting : b.kind? = some .loopUntil → b.hasChildren = false
  times : b.kind? = some .loop → ∀ v n, b.param "times" = .ok v → v.toNumber = .ok n →
    n ≠ .float (.infinity false)

mutual

/-- The most steps that a block takes, with those of the blocks inside it. -/
def cost : Block → ℕ
  | ⟨_, _, _, none⟩ => 1
  | ⟨id, type, params, some inner⟩ =>
    match Kind.ofWord? type with
    | some .loop => 1 + (passes ⟨id, type, params, some inner⟩).toNat * costAll inner
    | some .branch => 1 + costAll inner
    | _ => 1

def costAll : List Block → ℕ
  | [] => 0
  | b :: bs => b.cost + costAll bs

end

theorem cost_eq (b : Block) :
    b.cost =
      match b.kind? with
      | some .loop => 1 + b.passes.toNat * costAll b.body
      | some .branch => 1 + costAll b.body
      | _ => 1 := by
  obtain ⟨id, type, params, children⟩ := b
  cases children with
  | some inner => rfl
  | none =>
    change 1 = match Kind.ofWord? type with
      | some .loop => 1 + (passes ⟨id, type, params, none⟩).toNat * 0
      | some .branch => 1 + 0
      | _ => 1
    split <;> simp

theorem one_le_cost (b : Block) : 1 ≤ b.cost := by
  rw [cost_eq]
  split <;> omega

theorem passes_eq_top_iff (b : Block) :
    b.passes = ⊤ ↔ ∃ v, b.param "times" = .ok v ∧ v.toNumber = .ok (.float (.infinity false)) := by
  unfold passes
  cases b.param "times" with
  | error fault => simp
  | ok v =>
    dsimp only
    cases hn : v.toNumber with
    | error fault => simp [hn]
    | ok n =>
      simp only [Except.ok.injEq, exists_eq_left', hn]
      fun_cases Number.passes n <;> simp

theorem limited_iff (b : Block) :
    b.Limited ↔ (b.kind? = some .loopUntil → b.hasChildren = false) ∧
      (b.kind? = some .loop → b.passes ≠ ⊤) := by
  constructor
  · intro h
    refine ⟨h.noWaiting, fun hk ht => ?_⟩
    obtain ⟨v, hv, hn⟩ := b.passes_eq_top_iff.1 ht
    exact h.times hk v _ hv hn rfl
  · intro h
    refine ⟨h.1, fun hk v n hv hn hi => ?_⟩
    exact h.2 hk (b.passes_eq_top_iff.2 ⟨v, hv, hi ▸ hn⟩)

instance (b : Block) : Decidable b.Limited := decidable_of_iff _ b.limited_iff.symm

end Block

def Mode.cost (each : ℕ) : Mode → ℕ
  | .times finished limit => (limit.passes.toNat - (finished + 1)) * each
  | .once | .untilHolds _ => 0

def Frame.cost (f : Frame) : ℕ :=
  Block.costAll (f.blocks.drop f.position) + f.mode.cost (Block.costAll f.blocks)

def stackCost (stack : List Frame) : ℕ := (stack.map Frame.cost).sum

@[simp] theorem stackCost_cons (f : Frame) (below : List Frame) :
    stackCost (f :: below) = f.cost + stackCost below := by
  simp [stackCost]

def Mode.Limited : Mode → Prop
  | .once => True
  | .times _ limit => limit.passes ≠ ⊤
  | .untilHolds _ => False

theorem Mode.limited_again {mode mode' : Mode} {vars : Bindings VarName Number}
    (hl : mode.Limited) (h : mode.again? vars = some mode') : mode'.Limited := by
  cases mode with
  | once => cases h
  | times finished limit =>
    simp only [again?, Option.ite_none_right_eq_some, Option.some.injEq] at h
    rw [← h.2]
    exact hl
  | untilHolds condition => exact hl.elim

theorem Mode.cost_again {mode mode' : Mode} {vars : Bindings VarName Number} (hl : mode.Limited)
    (h : mode.again? vars = some mode') (each : ℕ) : each + mode'.cost each = mode.cost each := by
  cases mode with
  | once => cases h
  | times finished limit =>
    simp only [again?, Option.ite_none_right_eq_some, Option.some.injEq] at h
    obtain ⟨hx, rfl⟩ := h
    rw [limit.exceeds_iff_lt_passes _ (Nat.le_add_left 1 finished), ← ENat.natCast_toNat hl,
      Nat.cast_lt] at hx
    have hr : limit.passes.toNat - (finished + 1) =
        limit.passes.toNat - (finished + 1 + 1) + 1 := by omega
    simp only [cost]
    rw [hr, Nat.add_mul, Nat.one_mul, Nat.add_comm]
  | untilHolds condition => exact hl.elim

theorem Frame.cost_of_block {f : Frame} {b : Block} (hb : f.blocks[f.position]? = some b) :
    f.cost = b.cost + { f with position := f.position + 1 }.cost := by
  obtain ⟨hlt, hget⟩ := List.getElem?_eq_some_iff.1 hb
  rw [cost, cost, List.drop_eq_getElem_cons hlt, hget, Block.costAll, Nat.add_assoc]

/-- Finding the next block does not add to the cost of a stack. -/
theorem settle_cost {vars : Bindings VarName Number} {stack below : List Frame} {b : Block}
    {frame : Frame} (hl : ∀ f ∈ stack, f.mode.Limited)
    (h : settle vars stack = some (b, frame, below)) :
    (∀ f ∈ frame :: below, f.mode.Limited) ∧ stackCost (frame :: below) ≤ stackCost stack := by
  induction stack with
  | nil => cases h
  | cons f rest ih =>
    have hrest : ∀ g ∈ rest, g.mode.Limited := fun g hg => hl g (List.mem_cons_of_mem f hg)
    have hf := hl f List.mem_cons_self
    unfold settle at h
    split at h
    · cases h
      exact ⟨hl, Nat.le_refl _⟩
    · split at h
      · next mode first others hm hbs =>
        cases h
        constructor
        · intro g hg
          rcases List.mem_cons.1 hg with rfl | hg
          · exact Mode.limited_again hf hm
          · exact hrest g hg
        · have hc := Mode.cost_again hf hm (Block.costAll f.blocks)
          simp only [stackCost_cons, Frame.cost, List.drop_zero]
          omega
      · obtain ⟨hl', hc⟩ := ih hrest h
        refine ⟨hl', ?_⟩
        rw [stackCost_cons f rest]
        omega

/-- What a block opens costs less than the block. -/
theorem Block.cost_opens {b : Block} {vars : Bindings VarName Number} {frame : Frame}
    (hl : b.Limited) (h : b.effect vars = .ok (.opens frame)) :
    frame.mode.Limited ∧ frame.cost < b.cost := by
  obtain ⟨hc, -, -⟩ := eq_of_opens h
  rw [cost_eq]
  unfold effect at h
  cases hk : b.kind? with
  | none =>
    rw [hk] at h
    cases h
  | some kind =>
    rw [hk] at h
    cases hn : kind.nests with
    | false => cases frame?_of_effectOf hn h
    | true =>
      cases kind with
      | loop =>
        simp only [effectOf, hc, if_true, Except.ok.injEq, Effect.opens.injEq] at h
        subst h
        have ht : b.roundLimit.passes ≠ ⊤ := b.passes_roundLimit ▸ (b.limited_iff.1 hl).2 hk
        refine ⟨ht, ?_⟩
        have h1 : 1 ≤ b.passes.toNat := by
          have ho := b.roundLimit.one_le_passes
          rw [b.passes_roundLimit] at ho ht
          rw [← ENat.natCast_toNat ht] at ho
          exact_mod_cast ho
        -- The frame has its first round before it and one less to come.
        have hm : costAll b.body + (b.passes.toNat - 1) * costAll b.body =
            b.passes.toNat * costAll b.body := by
          obtain ⟨k, hk⟩ := Nat.exists_eq_add_of_le h1
          rw [hk, Nat.add_sub_cancel_left, Nat.add_mul, Nat.one_mul]
        simp only [Frame.cost, Mode.cost, List.drop_zero, b.passes_roundLimit, Nat.zero_add]
        omega
      | loopUntil =>
        rw [hl.noWaiting hk] at hc
        cases hc
      | branch =>
        simp only [effectOf, hc, if_true] at h
        obtain ⟨condition, -, h⟩ := Except.exists_of_bind_eq_ok h
        cases hh : condition.holdsIn vars <;> simp [hh, pure, Except.pure] at h
        subst h
        refine ⟨trivial, ?_⟩
        simp only [Frame.cost, Mode.cost, List.drop_zero]
        omega
      | start | print | move | wait | setVar | changeVar => cases hn

namespace Engine

/-- A block that is executed takes at least one off the cost of the stack. -/
theorem resume_cost {b : Block} {frame : Frame} {below : List Frame}
    {vars : Bindings VarName Number} {effect : Effect}
    (hl : ∀ f ∈ frame :: below, f.mode.Limited) (hb : frame.blocks[frame.position]? = some b)
    (hw : b.Limited) (he : b.effect vars = .ok effect) :
    (∀ f ∈ resume effect.frame? frame below, f.mode.Limited) ∧
      stackCost (resume effect.frame? frame below) < stackCost (frame :: below) := by
  rw [stackCost_cons, Frame.cost_of_block hb]
  cases effect with
  | opens inner =>
    obtain ⟨hm, hc⟩ := Block.cost_opens hw he
    constructor
    · intro f hf
      rcases List.mem_cons.1 hf with rfl | hf
      · exact hm
      · rcases List.mem_cons.1 hf with rfl | hf
        · exact hl frame List.mem_cons_self
        · exact hl f (List.mem_cons_of_mem frame hf)
    · simp only [resume, Effect.frame?, Option.toList_some, List.singleton_append, stackCost_cons]
      omega
  | nothing | say | put =>
    constructor
    · intro f hf
      rcases List.mem_cons.1 hf with rfl | hf
      · exact hl frame List.mem_cons_self
      · exact hl f (List.mem_cons_of_mem frame hf)
    · have h1 := b.one_le_cost
      simp only [resume, Effect.frame?, Option.toList_none, List.nil_append, stackCost_cons]
      omega

structure Paced (program : Program) (e : Engine) : Prop where
  sound : e.Sound program
  modes : ∀ f ∈ e.stack, f.mode.Limited

variable {program : Program}

theorem start_paced (program : Program) : (start program).Paced program where
  sound := start_sound program
  modes := fun f hf => by
    rw [List.mem_singleton.1 hf]
    trivial

theorem step_cost {e : Engine} (hw : ∀ b ∈ program.walk, b.Limited) (h : e.Paced program) :
    e.step.isTerminal = true ∨
      e.step.Paced program ∧ stackCost e.step.stack < stackCost e.stack := by
  have hs := step_sound h.sound
  have hstep := e.stepsTo_step
  revert hs hstep
  generalize e.step = next
  intro hs hstep
  cases hstep with
  | stopped ha => exact .inl ha
  | finished => exact .inl rfl
  | failed => exact .inl rfl
  | @executed b frame below effect ha hsettle he =>
    obtain ⟨hb, hn⟩ := settle_nested h.sound.nested hsettle
    have hm := hn.mem_walk frame.walk List.mem_cons_self b (List.mem_of_getElem? hb)
    obtain ⟨hl, hc⟩ := settle_cost h.modes hsettle
    obtain ⟨hl', hc'⟩ := resume_cost hl hb (hw b hm) he
    exact .inr ⟨⟨hs, hl'⟩, Nat.lt_of_lt_of_le hc' hc⟩

theorem runFor_terminal {e : Engine} (hw : ∀ b ∈ program.walk, b.Limited) (h : e.Paced program)
    {n : ℕ} (hn : stackCost e.stack < n) : (runFor n e).isTerminal = true := by
  induction n generalizing e with
  | zero => omega
  | succ n ih =>
    cases ha : e.isTerminal with
    | true => rwa [runFor_of_terminal _ e ha]
    | false =>
      rw [runFor_succ ha]
      rcases step_cost hw h with ht | ⟨hp, hc⟩
      · rwa [runFor_of_terminal _ _ ht]
      · exact ih hp (by omega)

/-- A run without a limit ends if the engine stops, and makes no more steps than that takes. -/
theorem turns_unlimited {e : Engine} {n : ℕ} (h : (runFor n e).isTerminal = true) (steps : ℕ) :
    ∃ made ≤ n, (runFor made e).isTerminal = true ∧
      Flagged.Engine.turns none (e.progress steps) =
        Part.some ((runFor made e).progress (steps + made)) := by
  induction n generalizing e steps with
  | zero => exact ⟨0, Nat.le_refl 0, h, turns_of_stop (by rw [← runFor_zero e, h, Bool.true_or])⟩
  | succ n ih =>
    cases ha : e.isTerminal with
    | true => exact ⟨0, Nat.zero_le _, ha, turns_of_stop (by rw [ha, Bool.true_or])⟩
    | false =>
      rw [runFor_succ ha] at h
      obtain ⟨made, hm, ht, hr⟩ := ih h (steps + 1)
      refine ⟨made + 1, Nat.succ_le_succ hm, by rwa [runFor_succ ha], ?_⟩
      have hd : steps + (made + 1) = steps + 1 + made := by omega
      rw [turns_of_active (by simp [ha]), runFor_succ ha, hd, hr]

end Engine

/-- A program in which every block has limits runs to an end, finished or failed,
within one step more than it costs. -/
theorem Program.run_within_cost {program : Program} (h : ∀ b ∈ program.walk, b.Limited) :
    ∃ made after, (Flagged.Engine.start program).run none = Part.some (made, after, after.state) ∧
      after.state.isTerminal = true ∧ made ≤ Block.costAll program + 1 := by
  have hc : stackCost (Engine.start program).stack = Block.costAll program := by
    simp [Engine.start, stackCost, Frame.cost, Mode.cost]
  obtain ⟨made, hm, ht, hr⟩ := Engine.turns_unlimited
    (Engine.runFor_terminal h (Engine.start_paced program) (Nat.lt_succ_self _)) 0
  rw [hc] at hm
  rw [Nat.zero_add] at hr
  exact ⟨made, _, hr, (Engine.flagged_terminal _).trans ht, hm⟩

/-- A loop of two and a half rounds makes three. A loop inside it whose limit is
no number makes one, and a test there costs what is inside it. -/
theorem Program.run_within_cost_nested :
    let counted : Block := ⟨"n", "repeat", [("times", .number (.float (.nan 0)))],
      some [⟨"c", "change_var", [], none⟩]⟩
    let tested : Block := ⟨"i", "if", [], some [⟨"p", "print", [], none⟩]⟩
    let program : Program :=
      [⟨"r", "repeat", [("times", .text " 2.5 ")], some [counted, tested]⟩,
       ⟨"u", "repeat_until", [], some []⟩, ⟨"l", "repeat", [("times", .text "often")], none⟩]
    (∀ b ∈ program.walk, b.Limited) ∧ Block.costAll program = 15 ∧
      ∃ made after, (Flagged.Engine.start program).run none = Part.some (made, after, after.state) ∧
        after.state.isTerminal = true ∧ made ≤ 16 := by
  intro counted tested program
  have hl : ∀ b ∈ program.walk, b.Limited := by decide +kernel
  have hc : Block.costAll program = 15 := by decide +kernel
  obtain ⟨made, after, hr, ht, hm⟩ := run_within_cost hl
  rw [hc] at hm
  exact ⟨hl, hc, made, after, hr, ht, hm⟩

end BlockScript
