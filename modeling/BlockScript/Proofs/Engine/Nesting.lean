import BlockScript.Proofs.Engine.Correspondence

/-!
# How the frames of an engine are nested

The bottom frame of an engine walks the program and is left at its end. Every
other frame walks the blocks inside the block that the frame below it has just
passed, and there are some. This holds at the start and is kept by every step,
so whatever is executed is a block of the program.
-/

set_option autoImplicit false

namespace BlockScript

namespace Block

theorem mem_walk_self (b : Block) : b ∈ b.walk := by
  rw [walk_eq]
  exact List.mem_cons_self

end Block

namespace Program

theorem mem_walk_of_mem {program : Program} {b : Block} (h : b ∈ program) : b ∈ program.walk := by
  induction program with
  | nil => cases h
  | cons first rest ih =>
    rw [walk_cons, List.mem_append]
    rcases List.mem_cons.1 h with rfl | h
    · exact Or.inl b.mem_walk_self
    · exact Or.inr (ih h)

end Program

mutual

theorem Block.mem_walk_trans {b : Block} {inner outer : Block} (ho : outer ∈ b.walk)
    (hi : inner ∈ outer.body) : inner ∈ b.walk := by
  obtain ⟨id, type, params, children⟩ := b
  cases children with
  | none =>
    rw [Block.walk, List.mem_singleton] at ho
    subst ho
    cases hi
  | some bs =>
    rw [Block.walk, List.mem_cons] at ho ⊢
    rcases ho with rfl | ho
    · exact Or.inr (Program.mem_walk_of_mem hi)
    · exact Or.inr (Program.mem_walk_trans ho hi)

theorem Program.mem_walk_trans {program : Program} {inner outer : Block}
    (ho : outer ∈ program.walk) (hi : inner ∈ outer.body) : inner ∈ program.walk := by
  cases program with
  | nil => cases ho
  | cons b bs =>
    rw [Program.walk_cons, List.mem_append] at ho ⊢
    rcases ho with ho | ho
    · exact Or.inl (Block.mem_walk_trans ho hi)
    · exact Or.inr (Program.mem_walk_trans ho hi)

end

structure Walk where
  blocks : List Block
  position : Nat
  plain : Bool

/-- Walks, innermost first, of which the last is through the program and every
other is through the blocks inside the block just passed by the one below it. -/
inductive Nested (program : Program) : List Walk → Prop
  | left : Nested program []
  | bottom {position : Nat} : position ≤ program.length →
      Nested program [⟨program, position, true⟩]
  | inside {blocks outer : List Block} {position next : Nat} {plain plain' : Bool} {b : Block}
      {below : List Walk} :
      Nested program (⟨outer, next + 1, plain'⟩ :: below) → outer[next]? = some b →
      b.children = some blocks → blocks ≠ [] → position ≤ blocks.length →
      Nested program (⟨blocks, position, plain⟩ :: ⟨outer, next + 1, plain'⟩ :: below)

namespace Nested

variable {program : Program}

theorem tail {walk : Walk} {below : List Walk} (h : Nested program (walk :: below)) :
    Nested program below := by
  cases h with
  | bottom => exact .left
  | inside hb => exact hb

/-- The innermost walk may go anywhere in its list, and only the bottom one has to be plain. -/
theorem move {blocks : List Block} {i j : Nat} {plain plain' : Bool} {below : List Walk}
    (h : Nested program (⟨blocks, i, plain⟩ :: below)) (hj : j ≤ blocks.length)
    (hp : plain = true → plain' = true) : Nested program (⟨blocks, j, plain'⟩ :: below) := by
  cases h with
  | bottom =>
    rw [hp rfl]
    exact .bottom hj
  | inside hb ho hc hn => exact .inside hb ho hc hn hj

theorem mem_walk {stack : List Walk} (h : Nested program stack) :
    ∀ walk ∈ stack, ∀ b ∈ walk.blocks, b ∈ program.walk := by
  induction h with
  | left => intro walk hw; cases hw
  | bottom =>
    intro walk hw b hb
    rw [List.mem_singleton.1 hw] at hb
    exact Program.mem_walk_of_mem hb
  | @inside blocks outer position next plain plain' parent below hn ho hc _ _ ih =>
    intro walk hw b hb
    rcases List.mem_cons.1 hw with rfl | hw
    · have hp := ih _ List.mem_cons_self parent (List.mem_of_getElem? ho)
      refine Program.mem_walk_trans hp ?_
      rw [Block.body, hc]
      exact hb
    · exact ih walk hw b hb

end Nested

def Mode.isOnce : Mode → Bool
  | .once => true
  | _ => false

def Frame.walk (f : Frame) : Walk := ⟨f.blocks, f.position, f.mode.isOnce⟩

theorem Mode.isOnce_of_again? {mode mode' : Mode} {vars : Bindings VarName Number}
    (h : mode.again? vars = some mode') : mode.isOnce = false := by
  cases mode with
  | once => cases h
  | times finished limit => rfl
  | untilHolds condition => rfl

/-- The block to be executed is the one at the position of its frame, and the
frames around it are nested as before. -/
theorem settle_nested {program : Program} {vars : Bindings VarName Number} {stack : List Frame}
    (hn : Nested program (stack.map Frame.walk)) {b : Block} {frame : Frame} {below : List Frame}
    (h : settle vars stack = some (b, frame, below)) :
    frame.blocks[frame.position]? = some b ∧
      Nested program ((frame :: below).map Frame.walk) := by
  induction stack with
  | nil => cases h
  | cons f rest ih =>
    unfold settle at h
    split at h
    · next hb =>
      cases h
      exact ⟨hb, hn⟩
    · split at h
      · next mode first others hm hbs =>
        cases h
        refine ⟨by simp [hbs], ?_⟩
        refine hn.move (Nat.zero_le _) fun hp => ?_
        rw [Mode.isOnce_of_again? hm] at hp
        cases hp
      · exact ih hn.tail h

namespace Block

theorem children_of_hasChildren {b : Block} (h : b.hasChildren = true) :
    b.children = some b.body := by
  have hb := b.hasChildren_iff.1 h
  unfold body at hb ⊢
  cases hc : b.children with
  | none =>
    rw [hc] at hb
    exact absurd rfl hb
  | some bs => rfl

/-- Only a block with others inside opens a frame, and the frame is over those, from the first. -/
theorem eq_of_opens {b : Block} {vars : Bindings VarName Number} {frame : Frame}
    (h : b.effect vars = .ok (.opens frame)) :
    b.hasChildren = true ∧ frame.blocks = b.body ∧ frame.position = 0 := by
  unfold effect at h
  split at h
  · next kind hk =>
    cases hn : kind.nests with
    | false => cases frame?_of_effectOf hn h
    | true =>
      cases hc : b.hasChildren with
      | false => cases kind <;> simp_all [effectOf, Kind.nests]
      | true =>
        cases kind with
        | loop =>
          simp only [effectOf, hc, if_true, Except.ok.injEq, Effect.opens.injEq] at h
          subst h
          exact ⟨rfl, rfl, rfl⟩
        | loopUntil =>
          simp only [effectOf, hc, if_true] at h
          obtain ⟨condition, -, h⟩ := Except.exists_of_bind_eq_ok h
          cases hh : condition.holdsIn vars <;> simp [hh, pure, Except.pure] at h
          subst h
          exact ⟨rfl, rfl, rfl⟩
        | branch =>
          simp only [effectOf, hc, if_true] at h
          obtain ⟨condition, -, h⟩ := Except.exists_of_bind_eq_ok h
          cases hh : condition.holdsIn vars <;> simp [hh, pure, Except.pure] at h
          subst h
          exact ⟨rfl, rfl, rfl⟩
        | start | print | move | wait | setVar | changeVar => cases hn
  · cases h

end Block

/-- The frames after a block was executed are nested as before, with the frame
that the block opened, if any, inside the one that has just passed it. -/
theorem Nested.resume {program : Program} {frame : Frame} {below : List Frame} {b : Block}
    {vars : Bindings VarName Number} {effect : Effect}
    (hn : Nested program ((frame :: below).map Frame.walk))
    (hb : frame.blocks[frame.position]? = some b) (he : b.effect vars = .ok effect) :
    Nested program ((Engine.resume effect.frame? frame below).map Frame.walk) := by
  have hlt : frame.position < frame.blocks.length := (List.getElem?_eq_some_iff.1 hb).1
  have hmoved : Nested program
      (⟨frame.blocks, frame.position + 1, frame.mode.isOnce⟩ :: below.map Frame.walk) :=
    hn.move hlt id
  cases effect with
  | opens inner =>
    obtain ⟨hc, hbs, hp⟩ := Block.eq_of_opens he
    have hne := b.hasChildren_iff.1 hc
    refine .inside hmoved hb ?_ (hbs ▸ hne) ?_
    · rw [hbs]
      exact Block.children_of_hasChildren hc
    · rw [hp]
      exact Nat.zero_le _
  | nothing | say | put => exact hmoved

namespace Engine

structure Sound (program : Program) (e : Engine) : Prop where
  program_eq : e.program = program
  nested : Nested program (e.stack.map Frame.walk)
  current : ∀ id, e.current? = some id → ∃ b ∈ program.walk, b.id = id

variable {program : Program}

theorem start_sound (program : Program) : (start program).Sound program where
  program_eq := rfl
  nested := .bottom (Nat.zero_le _)
  current := nofun

theorem reset_sound {e : Engine} (h : e.Sound program) : e.reset.Sound program := by
  rw [reset, h.program_eq]
  exact start_sound program

theorem step_sound {e : Engine} (h : e.Sound program) : e.step.Sound program := by
  cases ha : e.isTerminal with
  | true =>
    have hs : e.step = e := by simp [step, advance, ha]
    rwa [hs]
  | false =>
    cases hs : settle e.store.vars e.stack with
    | none =>
      rw [step_of_settle_none ha hs]
      exact ⟨h.program_eq, .left, fun id hid => by cases hid⟩
    | some next =>
      obtain ⟨b, frame, below⟩ := next
      obtain ⟨hb, hn⟩ := settle_nested h.nested hs
      have hw : b ∈ program.walk :=
        hn.mem_walk frame.walk List.mem_cons_self b (List.mem_of_getElem? hb)
      cases he : b.effect e.store.vars with
      | error fault =>
        rw [step_of_fault ha hs he]
        refine ⟨h.program_eq, hn, ?_⟩
        intro id hid
        cases hid
        exact ⟨b, hw, rfl⟩
      | ok effect =>
        rw [step_of_effect ha hs he]
        refine ⟨h.program_eq, ?_, ?_⟩
        · exact hn.resume hb he
        · intro id hid
          cases hid
          exact ⟨b, hw, rfl⟩

end Engine

end BlockScript
