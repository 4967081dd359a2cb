import BlockScript.Proofs.Engine.Meaning
import BlockScript.Proofs.Failure

/-!
# What a stack still has to do

Every stack of frames has a structured meaning of its own: what is left of its
innermost frame, the rounds that frame still makes, and then the frames below.
One step of the engine takes exactly the first block off this meaning. From that
step alone it follows that the engine comes to an end as the structured meaning
says, and in no other way.
-/

set_option autoImplicit false

namespace BlockScript

open Reading

namespace Reading

theorem andThen_congr_left {p p' : Reading} (q : Reading) {s : Store} (h : p s = p' s) :
    p.andThen q s = p'.andThen q s := by
  funext t o s'
  simp only [andThen, h]

theorem andThen_skip (p : Reading) : p.andThen skip = p := by
  funext s t o s'
  apply propext
  constructor
  · rintro (⟨-, hp⟩ | ⟨t₁, s₁, -, hp, ⟨rfl, rfl, rfl⟩, rfl⟩)
    · exact hp
    · rwa [List.append_nil]
  · intro hp
    cases o with
    | done => exact Or.inr ⟨t, s', [], hp, ⟨rfl, rfl, rfl⟩, (List.append_nil t).symm⟩
    | failed id fault => exact Or.inl ⟨nofun, hp⟩

theorem perform_congr {b : Block} {next next' : Effect → Store → Reading} {s : Store}
    (h : ∀ effect, b.effect s.vars = .ok effect →
      next effect s (s.apply effect) = next' effect s (s.apply effect)) :
    perform b next s = perform b next' s := by
  funext t o s'
  unfold perform
  cases he : b.effect s.vars with
  | error fault => rfl
  | ok effect => simp only [h effect he]

end Reading

def Mode.rest (blocks : List Block) : Mode → Task
  | .once => .blocks []
  | .times finished limit => .times (limit.passes - (finished + 1 : ℕ)) blocks
  | .untilHolds condition => .untilHolds condition blocks

def Frame.left (f : Frame) : Reading :=
  andThen (Runs (.blocks (f.blocks.drop f.position))) (Runs (f.mode.rest f.blocks))

def remaining : List Frame → Reading
  | [] => skip
  | f :: below => f.left.andThen (remaining below)

def Frame.Proper (f : Frame) : Prop := f.blocks = [] → f.mode = .once

theorem Mode.rest_of_again_none {mode : Mode} {s : Store} (blocks : List Block)
    (h : mode.again? s.vars = none) : Runs (mode.rest blocks) s = skip s := by
  cases mode with
  | once => rw [Mode.rest, Runs.blocks_nil]
  | times finished limit =>
    have hk : limit.passes - (finished + 1 : ℕ) = 0 := by
      apply tsub_eq_zero_of_le
      rw [← not_lt, ← limit.exceeds_iff_lt_passes _ (Nat.le_add_left 1 finished)]
      simpa [Mode.again?] using h
    rw [Mode.rest, hk, Runs.times_zero]
  | untilHolds condition =>
    apply Runs.until_of_holds
    simpa [Mode.again?] using h

theorem Mode.rest_of_again {mode mode' : Mode} {s : Store} (blocks : List Block)
    (h : mode.again? s.vars = some mode') :
    Runs (mode.rest blocks) s = andThen (Runs (.blocks blocks)) (Runs (mode'.rest blocks)) s := by
  cases mode with
  | once => cases h
  | times finished limit =>
    simp only [Mode.again?, Option.ite_none_right_eq_some, Option.some.injEq] at h
    obtain ⟨hx, rfl⟩ := h
    rw [limit.exceeds_iff_lt_passes _ (Nat.le_add_left 1 finished)] at hx
    have hk : limit.passes - (finished + 1 : ℕ) ≠ 0 := (tsub_pos_of_lt hx).ne'
    rw [Mode.rest, Runs.times_pos _ _ hk, tsub_tsub]
    rfl
  | untilHolds condition =>
    simp only [Mode.again?, Option.ite_none_left_eq_some, Option.some.injEq] at h
    obtain ⟨hn, rfl⟩ := h
    exact Runs.until_of_not_holds _ _ _ (by simpa using hn)

namespace Block

theorem frame?_of_effectOf {b : Block} {vars : Bindings VarName Number} {kind : Kind}
    {effect : Effect} (hk : kind.nests = false) (h : b.effectOf vars kind = .ok effect) :
    effect.frame? = none := by
  cases kind with
  | start => cases h; rfl
  | print =>
    obtain ⟨v, -, h⟩ := Except.exists_of_bind_eq_ok h
    obtain ⟨text, -, h⟩ := Except.exists_of_bind_eq_ok h
    cases h; rfl
  | setVar =>
    obtain ⟨name, -, h⟩ := Except.exists_of_bind_eq_ok h
    obtain ⟨v, -, h⟩ := Except.exists_of_bind_eq_ok h
    obtain ⟨n, -, h⟩ := Except.exists_of_bind_eq_ok h
    obtain ⟨x, -, h⟩ := Except.exists_of_bind_eq_ok h
    cases h; rfl
  | changeVar =>
    obtain ⟨name, -, h⟩ := Except.exists_of_bind_eq_ok h
    obtain ⟨v, -, h⟩ := Except.exists_of_bind_eq_ok h
    obtain ⟨delta, -, h⟩ := Except.exists_of_bind_eq_ok h
    obtain ⟨x, -, h⟩ := Except.exists_of_bind_eq_ok h
    obtain ⟨sum, -, h⟩ := Except.exists_of_bind_eq_ok h
    cases h; rfl
  | wait =>
    obtain ⟨v, -, h⟩ := Except.exists_of_bind_eq_ok h
    obtain ⟨seconds, -, h⟩ := Except.exists_of_bind_eq_ok h
    cases h; rfl
  | move =>
    obtain ⟨v, -, h⟩ := Except.exists_of_bind_eq_ok h
    obtain ⟨direction, -, h⟩ := Except.exists_of_bind_eq_ok h
    cases h; rfl
  | loop => cases hk
  | loopUntil => cases hk
  | branch => cases hk

theorem inner_of_not_nests {b : Block} (vars : Bindings VarName Number)
    (h : ∀ kind, b.kind? = some kind → kind.nests = false) : b.inner vars = .blocks [] := by
  unfold inner
  split
  · split
    · next hk => exact absurd (h _ hk) nofun
    · next hk _ => exact absurd (h _ hk) nofun
    · next hk _ => exact absurd (h _ hk) nofun
    · rfl
  · rfl

theorem hasChildren_iff (b : Block) : b.hasChildren = true ↔ b.body ≠ [] := by
  simp [hasChildren]

def Follows (b : Block) (s : Store) (effect : Effect) : Prop :=
  match effect.frame? with
  | none => Runs (b.inner s.vars) (s.apply effect) = skip (s.apply effect)
  | some frame =>
    Runs (b.inner s.vars) (s.apply effect) = frame.left (s.apply effect) ∧ frame.blocks ≠ []

theorem follows_loop {b : Block} {s : Store} {effect : Effect} (hk : b.kind? = some .loop)
    (hc : b.hasChildren = true) (h : b.effectOf s.vars .loop = .ok effect) :
    b.Follows s effect := by
  simp only [effectOf, hc, if_true, Except.ok.injEq] at h
  subst h
  have hp : b.passes ≠ 0 := by
    rw [← b.passes_roundLimit]
    exact (zero_lt_one.trans_le b.roundLimit.one_le_passes).ne'
  refine ⟨?_, b.hasChildren_iff.mp hc⟩
  simp only [Frame.left, inner, hc, hk, if_true, Mode.rest, List.drop_zero, b.passes_roundLimit]
  rw [Runs.times_pos _ _ hp]
  rfl

theorem follows_loopUntil {b : Block} {s : Store} {effect : Effect}
    (hk : b.kind? = some .loopUntil) (hc : b.hasChildren = true)
    (h : b.effectOf s.vars .loopUntil = .ok effect) : b.Follows s effect := by
  simp only [effectOf, hc, if_true] at h
  obtain ⟨condition, hcond, h⟩ := Except.exists_of_bind_eq_ok h
  cases hh : condition.holdsIn s.vars with
  | true =>
    simp only [hh, pure, Except.pure, if_true, Except.ok.injEq] at h
    subst h
    simp only [Follows, Effect.frame?, Store.apply, inner, hc, hk, hcond, if_true]
    exact Runs.until_of_holds _ _ _ hh
  | false =>
    simp only [hh, pure, Except.pure, Bool.false_eq_true, if_false, Except.ok.injEq] at h
    subst h
    refine ⟨?_, b.hasChildren_iff.mp hc⟩
    simp only [Frame.left, inner, hc, hk, hcond, if_true, Mode.rest, List.drop_zero, Store.apply]
    exact Runs.until_of_not_holds _ _ _ hh

theorem follows_branch {b : Block} {s : Store} {effect : Effect} (hk : b.kind? = some .branch)
    (hc : b.hasChildren = true) (h : b.effectOf s.vars .branch = .ok effect) :
    b.Follows s effect := by
  simp only [effectOf, hc, if_true] at h
  obtain ⟨condition, hcond, h⟩ := Except.exists_of_bind_eq_ok h
  cases hh : condition.holdsIn s.vars with
  | true =>
    simp only [hh, pure, Except.pure, if_true, Except.ok.injEq] at h
    subst h
    refine ⟨?_, b.hasChildren_iff.mp hc⟩
    simp only [Frame.left, inner, hc, hk, hcond, hh, if_true, Mode.rest, List.drop_zero,
      Runs.blocks_nil, andThen_skip]
  | false =>
    simp only [hh, pure, Except.pure, Bool.false_eq_true, if_false, Except.ok.injEq] at h
    subst h
    simp only [Follows, Effect.frame?, inner, hc, hk, hcond, hh, if_true, Bool.false_eq_true,
      if_false, Runs.blocks_nil]

theorem follows_of_inner {b : Block} {s : Store} {effect : Effect} (hf : effect.frame? = none)
    (hi : b.inner s.vars = .blocks []) : b.Follows s effect := by
  simp only [Follows, hf, hi, Runs.blocks_nil]

/-- What the engine goes on with after a block is what the block executes inside. -/
theorem follows_effect {b : Block} {s : Store} {effect : Effect}
    (h : b.effect s.vars = .ok effect) : b.Follows s effect := by
  cases hk : b.kind? with
  | none =>
    simp only [Block.effect, hk, Except.ok.injEq] at h
    subst h
    exact follows_of_inner rfl (inner_of_not_nests _ (by simp [hk]))
  | some kind =>
    simp only [Block.effect, hk] at h
    cases hn : kind.nests with
    | false =>
      refine follows_of_inner (frame?_of_effectOf hn h) (inner_of_not_nests _ ?_)
      intro kind' hk'
      rw [hk, Option.some.injEq] at hk'
      rwa [← hk']
    | true =>
      cases hc : b.hasChildren with
      | false =>
        have he : effect = .nothing := by
          cases kind <;> simp_all [effectOf, Kind.nests]
        subst he
        exact follows_of_inner rfl (by simp [inner, hc])
      | true =>
        cases kind with
        | loop => exact follows_loop hk hc h
        | loopUntil => exact follows_loopUntil hk hc h
        | branch => exact follows_branch hk hc h
        | start | print | move | wait | setVar | changeVar => cases hn

end Block

/-- After a block, the stack does what the block executes inside and then goes
on with the next block of its frame. -/
theorem remaining_resume {b : Block} {s : Store} {effect : Effect}
    (h : b.effect s.vars = .ok effect) (frame : Frame) (below : List Frame) :
    remaining (Engine.resume effect.frame? frame below) (s.apply effect) =
      andThen (Runs (b.inner s.vars))
        (remaining ({ frame with position := frame.position + 1 } :: below)) (s.apply effect) := by
  have hf := Block.follows_effect h
  unfold Block.Follows at hf
  cases ho : effect.frame? with
  | none =>
    rw [ho] at hf
    rw [andThen_congr_left _ hf, skip_andThen]
    rfl
  | some inner =>
    rw [ho] at hf
    rw [andThen_congr_left _ hf.1]
    rfl

theorem remaining_frame {f : Frame} {b : Block} (hb : f.blocks[f.position]? = some b)
    (below : List Frame) (s : Store) :
    remaining (f :: below) s =
      perform b (fun effect _ => remaining (Engine.resume effect.frame? f below)) s := by
  obtain ⟨hlt, hget⟩ := List.getElem?_eq_some_iff.mp hb
  rw [remaining, Frame.left, List.drop_eq_getElem_cons hlt, hget, Runs.blocks_cons, andThen_assoc,
    perform_andThen]
  apply perform_congr
  intro effect he
  rw [remaining_resume he, andThen_assoc, remaining, Frame.left, andThen_assoc]

/-- One step of the engine takes the first block off what the stack has to do. -/
theorem remaining_settle {stack : List Frame} (hp : ∀ f ∈ stack, f.Proper) (s : Store) :
    remaining stack s =
      match settle s.vars stack with
      | none => skip s
      | some (b, frame, below) =>
        perform b (fun effect _ => remaining (Engine.resume effect.frame? frame below)) s := by
  induction stack with
  | nil => rfl
  | cons f below ih =>
    cases hb : f.blocks[f.position]? with
    | some b =>
      simp only [settle, hb]
      exact remaining_frame hb below s
    | none =>
      have hd : f.blocks.drop f.position = [] := by
        rwa [List.drop_eq_nil_iff, ← List.getElem?_eq_none_iff]
      cases ha : f.mode.again? s.vars with
      | none =>
        simp only [settle, hb, ha]
        rw [remaining, Frame.left, hd, Runs.blocks_nil, skip_andThen,
          andThen_congr_left _ (f.mode.rest_of_again_none f.blocks ha), skip_andThen]
        exact ih fun g hg => hp g (List.mem_cons_of_mem _ hg)
      | some mode =>
        cases hbs : f.blocks with
        | nil =>
          rw [hp f List.mem_cons_self hbs] at ha
          cases ha
        | cons b bs =>
          rw [hbs] at hb
          simp only [settle, hb, ha, hbs]
          rw [← remaining_frame (f := ⟨b :: bs, 0, mode⟩) rfl, remaining, Frame.left, hd,
            Runs.blocks_nil, skip_andThen, hbs,
            andThen_congr_left _ (f.mode.rest_of_again (b :: bs) ha)]
          rfl

end BlockScript
