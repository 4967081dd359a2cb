import BlockScript.Proofs.Engine.Nesting
import Mathlib.Data.PFun

/-!
# An engine that takes nothing for granted

The frames of this engine may carry a counter, a limit and a condition in any
combination, and the variable of a condition may be any value. Looking for the
next block goes on for as long as frames start again, so it need not end; a
condition that cannot be tested there, or a position outside its list, ends the
step without a state. From the start of a program none of this ever happens, and
what does happen is what the engine does.
-/

set_option autoImplicit false

namespace BlockScript

namespace Unchecked

structure Test where
  subject : Value
  operator : Value
  value : Value

def Test.holds (test : Test) (vars : Bindings VarName Number) : Except Fault Bool := do
  let name ← VarName.ofValue test.subject
  return (((vars.get? name).map Value.number).getD (.int 0)).holds test.operator test.value

structure Frame where
  blocks : List Block
  position : Nat
  finished? : Option Nat
  limit? : Option Number
  until? : Option Test

structure Engine where
  program : Program
  stack : List Frame
  store : Store
  status : Status

inductive Escape where
  | raised (fault : Fault)
  | outOfRange

def Frame.finish (frame : Frame) (below : List Frame) (vars : Bindings VarName Number) :
    Except Fault (Option (Frame × List Frame)) ⊕ List Frame :=
  match frame.until? with
  | none => .inr below
  | some test =>
    match test.holds vars with
    | .error fault => .inl (.error fault)
    | .ok true => .inr below
    | .ok false => .inr ({ frame with position := 0 } :: below)

def look (vars : Bindings VarName Number) :
    List Frame → Except Fault (Option (Frame × List Frame)) ⊕ List Frame
  | [] => .inl (.ok none)
  | frame :: below =>
    if frame.position < frame.blocks.length then .inl (.ok (some (frame, below)))
    else
      match frame.limit?, frame.finished? with
      | some limit, some finished =>
        if limit.exceeds (finished + 1) then
          .inr ({ frame with finished? := some (finished + 1), position := 0 } :: below)
        else { frame with finished? := some (finished + 1) }.finish below vars
      | _, _ => frame.finish below vars

def active (vars : Bindings VarName Number) :
    List Frame →. Except Fault (Option (Frame × List Frame)) :=
  PFun.fix fun stack => Part.some (look vars stack)

def testOf (b : Block) : Except Fault Test := do
  let subject ← b.param "condition_var"
  let operator ← b.param "operator"
  let value ← b.param "value"
  return ⟨subject, operator, value⟩

def opened (b : Block) (vars : Bindings VarName Number) : Kind → Except Fault (Option Frame)
  | .loop =>
    .ok (if b.hasChildren then some ⟨b.body, 0, some 0, some b.roundLimit, none⟩ else none)
  | .loopUntil =>
    if b.hasChildren then do
      let test ← testOf b
      return if ← test.holds vars then none else some ⟨b.body, 0, none, none, some test⟩
    else .ok none
  | .branch =>
    if b.hasChildren then do
      let test ← testOf b
      return if ← test.holds vars then some ⟨b.body, 0, none, none, none⟩ else none
    else .ok none
  | _ => .ok none

def execute (b : Block) (store : Store) : Except Fault (Store × Option Frame) :=
  match b.kind? with
  | none => .ok (store, none)
  | some kind =>
    if kind.nests then do return (store, ← opened b store.vars kind)
    else do return (store.apply (← b.effectOf store.vars kind), none)

namespace Engine

def start (program : Program) : Engine :=
  ⟨program, [⟨program, 0, none, none, none⟩], .empty, .ready⟩

def reset (e : Engine) : Engine := start e.program

def isTerminal (e : Engine) : Bool :=
  match e.status with
  | .finished | .failed _ _ => true
  | _ => false

def current? (e : Engine) : Option String :=
  match e.status with
  | .running id | .failed id _ => some id
  | _ => none

def perform (e : Engine) (frame : Frame) (below : List Frame) : Except Escape Engine :=
  match frame.blocks[frame.position]? with
  | none => .error .outOfRange
  | some b =>
    match execute b e.store with
    | .error fault => .ok { e with stack := frame :: below, status := .failed b.id fault }
    | .ok (store, inner?) =>
      .ok { e with
        stack := inner?.toList ++ { frame with position := frame.position + 1 } :: below
        store := store
        status := .running b.id }

def step (e : Engine) : Part (Except Escape Engine) :=
  if e.isTerminal then Part.some (.ok e)
  else
    (active e.store.vars e.stack).map fun
      | .error fault => .error (.raised fault)
      | .ok none => .ok { e with stack := [], status := .finished }
      | .ok (some (frame, below)) => e.perform frame below

def runFor : Nat → Engine → Part (Except Escape Engine)
  | 0, e => Part.some (.ok e)
  | n + 1, e =>
    if e.isTerminal then Part.some (.ok e)
    else
      e.step.bind fun
        | .error escape => Part.some (.error escape)
        | .ok next => runFor n next

/-- The states that steps, runs and returns to the start lead to. A run without
a limit that ends is one with a limit that it does not exceed. -/
inductive Reachable (program : Program) : Engine → Prop
  | start : Reachable program (start program)
  | step {e e' : Engine} : Reachable program e → .ok e' ∈ e.step → Reachable program e'
  | run {e e' : Engine} (n : Nat) : Reachable program e → .ok e' ∈ runFor n e →
      Reachable program e'
  | reset {e : Engine} : Reachable program e → Reachable program e.reset

end Engine

end Unchecked

def Condition.unchecked (condition : Condition) : Unchecked.Test :=
  ⟨condition.subject.toValue, condition.operator, condition.value⟩

def Frame.unchecked (f : Frame) : Unchecked.Frame :=
  match f.mode with
  | .once => ⟨f.blocks, f.position, none, none, none⟩
  | .times finished limit => ⟨f.blocks, f.position, some finished, some limit, none⟩
  | .untilHolds condition => ⟨f.blocks, f.position, none, none, some condition.unchecked⟩

def Engine.unchecked (e : Engine) : Unchecked.Engine :=
  ⟨e.program, e.stack.map Frame.unchecked, e.store, e.status⟩

theorem VarName.ofValue_toValue (name : VarName) : ofValue name.toValue = .ok name := by
  cases name <;> rfl

theorem VarName.toValue_of_ofValue {v : Value} {name : VarName} (h : ofValue v = .ok name) :
    name.toValue = v := by
  cases v <;> cases h <;> rfl

theorem Condition.unchecked_holds (condition : Condition) (vars : Bindings VarName Number) :
    condition.unchecked.holds vars = .ok (condition.holdsIn vars) := by
  rw [Unchecked.Test.holds, unchecked, VarName.ofValue_toValue]
  rfl

@[simp] theorem Frame.unchecked_blocks (f : Frame) : f.unchecked.blocks = f.blocks := by
  unfold unchecked
  split <;> rfl

@[simp] theorem Frame.unchecked_position (f : Frame) : f.unchecked.position = f.position := by
  unfold unchecked
  split <;> rfl

theorem Frame.unchecked_move (f : Frame) (n : Nat) :
    { f with position := n }.unchecked = { f.unchecked with position := n } := by
  unfold unchecked
  cases f.mode <;> rfl

namespace Unchecked

section Search

variable {vars : Bindings VarName Number}

theorem active_of_inl {stack : List Frame} {result : Except Fault (Option (Frame × List Frame))}
    (h : look vars stack = .inl result) : active vars stack = Part.some result :=
  Part.eq_some_iff.2 (PFun.fix_stop (by rw [h]; exact Part.mem_some _))

theorem active_of_inr {stack next : List Frame} (h : look vars stack = .inr next) :
    active vars stack = active vars next :=
  PFun.fix_fwd_eq (by rw [h]; exact Part.mem_some _)

theorem active_of_lt {frame : Frame} (h : frame.position < frame.blocks.length)
    (below : List Frame) : active vars (frame :: below) = Part.some (.ok (some (frame, below))) :=
  active_of_inl (by rw [look, if_pos h])

/-- One look at a frame that is at its end rewinds it or leaves it, as its mode says. -/
theorem look_of_end (vars : Bindings VarName Number) {f : BlockScript.Frame}
    (h : ¬ f.position < f.blocks.length) (below : List Frame) :
    look vars (f.unchecked :: below) =
      match f.mode.again? vars with
      | some mode => .inr ((⟨f.blocks, 0, mode⟩ : BlockScript.Frame).unchecked :: below)
      | none => .inr below := by
  have hu : ¬ f.unchecked.position < f.unchecked.blocks.length := by simpa using h
  rw [look, if_neg hu]
  cases hm : f.mode with
  | once => simp [BlockScript.Frame.unchecked, hm, Mode.again?, Frame.finish]
  | times finished limit =>
    cases hx : limit.exceeds (finished + 1) <;>
      simp [BlockScript.Frame.unchecked, hm, Mode.again?, Frame.finish, hx]
  | untilHolds condition =>
    cases hc : condition.holdsIn vars <;>
      simp [BlockScript.Frame.unchecked, hm, Mode.again?, Frame.finish, hc,
        Condition.unchecked_holds]

/-- The search for the next block ends: a frame that starts again has a first block. -/
theorem active_eq (vars : Bindings VarName Number) {stack : List BlockScript.Frame}
    (hp : ∀ f ∈ stack, f.Proper) :
    active vars (stack.map BlockScript.Frame.unchecked) =
      Part.some (.ok ((settle vars stack).map fun next =>
        (next.2.1.unchecked, next.2.2.map BlockScript.Frame.unchecked))) := by
  induction stack with
  | nil => exact active_of_inl rfl
  | cons f below ih =>
    have hbelow := ih fun g hg => hp g (List.mem_cons_of_mem f hg)
    rw [List.map_cons]
    by_cases h : f.position < f.blocks.length
    · rw [active_of_lt (by simpa using h), settle, List.getElem?_eq_getElem h]
      rfl
    · have hnone : f.blocks[f.position]? = none := List.getElem?_eq_none (by omega)
      have hl := look_of_end vars h (below.map BlockScript.Frame.unchecked)
      cases ha : f.mode.again? vars with
      | none =>
        rw [ha] at hl
        rw [active_of_inr hl, hbelow, settle, hnone, ha]
      | some mode =>
        rw [ha] at hl
        rw [active_of_inr hl]
        cases hbs : f.blocks with
        | nil =>
          rw [hp f List.mem_cons_self hbs] at ha
          cases ha
        | cons b bs =>
          rw [hbs] at hnone
          rw [active_of_lt (by simp), settle, hbs, hnone, ha]
          rfl

end Search

section Execution

/-- Making the test of a block tells whether it has a condition, and from then on the
test is known to be one. -/
theorem testOf_bind {α : Type} (b : Block) (vars : Bindings VarName Number)
    (next : Test → Bool → Except Fault α) :
    (do let test ← testOf b; let holds ← test.holds vars; next test holds) =
      (do let condition ← b.condition; next condition.unchecked (condition.holdsIn vars)) := by
  have hc : b.condition = (do
      let test ← testOf b
      return ⟨← VarName.ofValue test.subject, test.operator, test.value⟩) := by
    simp [Block.condition, testOf]
  rw [hc]
  cases testOf b with
  | error fault => rfl
  | ok test =>
    obtain ⟨subject, operator, value⟩ := test
    cases hn : VarName.ofValue subject with
    | error fault => simp [Test.holds, hn, bind, Except.bind]
    | ok name =>
      have ht : (⟨subject, operator, value⟩ : Test) =
          (⟨name, operator, value⟩ : Condition).unchecked := by
        rw [Condition.unchecked, VarName.toValue_of_ofValue hn]
      have hh := (⟨name, operator, value⟩ : Condition).unchecked_holds vars
      rw [← ht] at hh
      simp only [hn, bind, Except.bind, pure, Except.pure, hh, ← ht]

/-- A block opens the same frame, whether or not it is known to be a proper one. -/
theorem opened_eq (b : Block) (store : Store) {kind : Kind} (hk : kind.nests = true) :
    (do return (store, ← opened b store.vars kind)) =
      (b.effectOf store.vars kind).map fun effect =>
        (store.apply effect, effect.frame?.map BlockScript.Frame.unchecked) := by
  cases kind with
  | loop => cases hc : b.hasChildren <;> simp [opened, Block.effectOf, hc] <;> rfl
  | loopUntil =>
    cases hc : b.hasChildren with
    | false =>
      simp only [opened, Block.effectOf, hc]
      rfl
    | true =>
      simp only [opened, Block.effectOf, hc, if_true, bind_assoc]
      refine (testOf_bind b store.vars _).trans ?_
      cases b.condition with
      | error fault => rfl
      | ok condition => cases hh : condition.holdsIn store.vars <;> simp [hh] <;> rfl
  | branch =>
    cases hc : b.hasChildren with
    | false =>
      simp only [opened, Block.effectOf, hc]
      rfl
    | true =>
      simp only [opened, Block.effectOf, hc, if_true, bind_assoc]
      refine (testOf_bind b store.vars _).trans ?_
      cases b.condition with
      | error fault => rfl
      | ok condition => cases hh : condition.holdsIn store.vars <;> simp [hh] <;> rfl
  | start | print | move | wait | setVar | changeVar => cases hk

theorem execute_eq (b : Block) (store : Store) :
    execute b store = (b.effect store.vars).map fun effect =>
      (store.apply effect, effect.frame?.map BlockScript.Frame.unchecked) := by
  unfold execute Block.effect
  cases b.kind? with
  | none => rfl
  | some kind =>
    cases hn : kind.nests with
    | true =>
      dsimp only
      rw [if_pos hn]
      exact opened_eq b store hn
    | false =>
      dsimp only
      rw [if_neg (by simp [hn])]
      cases he : b.effectOf store.vars kind with
      | error fault => rfl
      | ok effect =>
        simp only [Except.map, Block.frame?_of_effectOf hn he, Option.map_none]
        rfl

end Execution

def Frame.walk (f : Frame) : Walk :=
  ⟨f.blocks, f.position, f.finished?.isNone && f.limit?.isNone && f.until?.isNone⟩

/-- Frames that are nested in the program, of which each carries at most one
reason to start again and the bottom one none, and whose conditions are all of
variables. -/
structure WellStacked (program : Program) (stack : List Frame) : Prop where
  nested : Nested program (stack.map Frame.walk)
  counted : ∀ f ∈ stack, f.finished?.isSome = f.limit?.isSome
  single : ∀ f ∈ stack, f.limit? = none ∨ f.until? = none
  testable : ∀ f ∈ stack, ∀ test ∈ f.until?, ∃ name, VarName.ofValue test.subject = .ok name

end Unchecked

theorem Frame.walk_unchecked (f : Frame) : f.unchecked.walk = f.walk := by
  unfold unchecked walk
  cases f.mode <;> rfl

theorem Nested.plain_of_empty {program : Program} {stack : List Walk} (h : Nested program stack) :
    ∀ walk ∈ stack, walk.blocks = [] → walk.plain = true := by
  induction h with
  | left => intro walk hw; cases hw
  | bottom =>
    intro walk hw _
    rw [List.mem_singleton.1 hw]
  | inside _ _ _ hne _ ih =>
    intro walk hw he
    rcases List.mem_cons.1 hw with rfl | hw
    · exact absurd he hne
    · exact ih walk hw he

namespace Engine

variable {program : Program} {e : Engine}

/-- Only the bottom frame of a program without blocks is empty, and it does not start again. -/
theorem Sound.proper (h : e.Sound program) : ∀ f ∈ e.stack, f.Proper := by
  intro f hf he
  have hp := h.nested.plain_of_empty f.walk (List.mem_map_of_mem hf) he
  cases hm : f.mode with
  | once => rfl
  | times finished limit => simp [Frame.walk, hm, Mode.isOnce] at hp
  | untilHolds condition => simp [Frame.walk, hm, Mode.isOnce] at hp

theorem Sound.wellStacked (h : e.Sound program) :
    Unchecked.WellStacked program e.unchecked.stack where
  nested := by
    have hw : Unchecked.Frame.walk ∘ Frame.unchecked = Frame.walk := funext Frame.walk_unchecked
    rw [unchecked, List.map_map, hw]
    exact h.nested
  counted := by
    simp only [unchecked, List.forall_mem_map]
    intro f _
    unfold Frame.unchecked
    cases f.mode <;> rfl
  single := by
    simp only [unchecked, List.forall_mem_map]
    intro f _
    unfold Frame.unchecked
    cases f.mode <;> simp
  testable := by
    simp only [unchecked, List.forall_mem_map]
    intro f _ test ht
    unfold Frame.unchecked at ht
    cases hm : f.mode with
    | once => simp [hm] at ht
    | times finished limit => simp [hm] at ht
    | untilHolds condition =>
      rw [hm] at ht
      cases ht
      exact ⟨condition.subject, VarName.ofValue_toValue _⟩

theorem perform_unchecked {b : Block} {frame : Frame} {below : List Frame}
    (ha : e.isTerminal = false) (hs : settle e.store.vars e.stack = some (b, frame, below))
    (hb : frame.blocks[frame.position]? = some b) :
    e.unchecked.perform frame.unchecked (below.map Frame.unchecked) = .ok e.step.unchecked := by
  have hu : frame.unchecked.blocks[frame.unchecked.position]? = some b := by simpa using hb
  have hx : Unchecked.execute b e.unchecked.store = _ := Unchecked.execute_eq b e.store
  rw [Unchecked.Engine.perform, hu]
  dsimp only
  rw [hx]
  cases he : b.effect e.store.vars with
  | error fault =>
    rw [step_of_fault ha hs he]
    rfl
  | ok effect =>
    rw [step_of_effect ha hs he]
    have hm := frame.unchecked_move (frame.position + 1)
    cases effect <;> simp [Except.map, unchecked, resume, Effect.frame?, hm]

/-- A step of a sound engine is a step, with a state, of the engine that takes
nothing for granted. -/
theorem step_unchecked (h : e.Sound program) :
    e.unchecked.step = Part.some (.ok e.step.unchecked) := by
  have ht : e.unchecked.isTerminal = e.isTerminal := rfl
  rw [Unchecked.Engine.step, ht]
  cases ha : e.isTerminal with
  | true => simp [step, advance, ha]
  | false =>
    have hact : Unchecked.active e.unchecked.store.vars e.unchecked.stack =
        Part.some (.ok ((settle e.store.vars e.stack).map fun next =>
          (next.2.1.unchecked, next.2.2.map Frame.unchecked))) :=
      Unchecked.active_eq e.store.vars h.proper
    rw [if_neg (by decide), hact, Part.map_some]
    cases hs : settle e.store.vars e.stack with
    | none =>
      rw [step_of_settle_none ha hs]
      rfl
    | some next =>
      obtain ⟨b, frame, below⟩ := next
      exact congrArg Part.some (perform_unchecked ha hs (settle_nested h.nested hs).1)

theorem runFor_sound (n : Nat) (h : e.Sound program) : (runFor n e).Sound program := by
  induction n generalizing e with
  | zero => exact h
  | succ n ih =>
    rw [runFor]
    split
    · exact h
    · exact ih (step_sound h)

theorem runFor_unchecked (n : Nat) (h : e.Sound program) :
    Unchecked.Engine.runFor n e.unchecked = Part.some (.ok (runFor n e).unchecked) := by
  induction n generalizing e with
  | zero => rfl
  | succ n ih =>
    have ht : e.unchecked.isTerminal = e.isTerminal := rfl
    rw [Unchecked.Engine.runFor, runFor, ht]
    split
    · rfl
    · rw [step_unchecked h, Part.bind_some]
      exact ih (step_sound h)

end Engine

namespace Unchecked

theorem Engine.Reachable.exists_sound {program : Program} {e : Engine}
    (h : e.Reachable program) : ∃ f : BlockScript.Engine, f.Sound program ∧ e = f.unchecked := by
  induction h with
  | start => exact ⟨.start program, BlockScript.Engine.start_sound program, rfl⟩
  | step _ hm ih =>
    obtain ⟨f, hf, rfl⟩ := ih
    rw [BlockScript.Engine.step_unchecked hf, Part.mem_some_iff] at hm
    exact ⟨f.step, BlockScript.Engine.step_sound hf, Except.ok.inj hm⟩
  | run n _ hm ih =>
    obtain ⟨f, hf, rfl⟩ := ih
    rw [BlockScript.Engine.runFor_unchecked n hf, Part.mem_some_iff] at hm
    exact ⟨f.runFor n, BlockScript.Engine.runFor_sound n hf, Except.ok.inj hm⟩
  | reset _ ih =>
    obtain ⟨f, hf, rfl⟩ := ih
    exact ⟨f.reset, BlockScript.Engine.reset_sound hf, rfl⟩

/-- Whatever steps, runs and returns to the start lead to, the frames are nested
in the program and proper, and the current block is one of the program. So the
search for the next block ends, without a condition that cannot be tested and at a
position inside its list, and a step always has a state: that of the engine. -/
theorem reachable_safe {program : Program} {e : Engine} (h : e.Reachable program) :
    WellStacked program e.stack ∧
    (∀ id, e.current? = some id → ∃ b ∈ program.walk, b.id = id) ∧
    (∃ next?, active e.store.vars e.stack = Part.some (.ok next?) ∧
      ∀ frame below, next? = some (frame, below) → frame.position < frame.blocks.length) ∧
    ∃ f : BlockScript.Engine, e = f.unchecked ∧ e.step = Part.some (.ok f.step.unchecked) := by
  obtain ⟨f, hf, rfl⟩ := h.exists_sound
  refine ⟨hf.wellStacked, hf.current, ⟨_, active_eq _ hf.proper, ?_⟩, f, rfl,
    BlockScript.Engine.step_unchecked hf⟩
  intro frame below hn
  obtain ⟨⟨b, inner, rest⟩, hs, hi⟩ := Option.map_eq_some_iff.1 hn
  cases hi
  have hb := (settle_nested hf.nested hs).1
  simpa using (List.getElem?_eq_some_iff.1 hb).1

theorem reachable_runFor (program : Program) (n : Nat) :
    ((BlockScript.Engine.start program).runFor n).unchecked.Reachable program := by
  refine .run n .start ?_
  have hr := BlockScript.Engine.runFor_unchecked n (BlockScript.Engine.start_sound program)
  rw [show Engine.start program = (BlockScript.Engine.start program).unchecked from rfl, hr]
  exact Part.mem_some _

/-- A loop with a condition inside a counted loop, when both are open. -/
theorem reachable_safe_countedUntil :
    let step : Block := ⟨"c", "change_var", [], none⟩
    let inner : Block := ⟨"b", "repeat_until", [("value", .int 1)], some [step, step]⟩
    let program : Program := [⟨"a", "repeat", [("times", .int 2)], some [inner]⟩]
    let e := ((BlockScript.Engine.start program).runFor 3).unchecked
    e.stack.length = 3 ∧ e.current? = some "c" ∧ WellStacked program e.stack := by
  intro step inner program e
  exact ⟨by decide +kernel, by decide +kernel, (reachable_safe (reachable_runFor program 3)).1⟩

end Unchecked

end BlockScript
