import BlockScript.Proofs.Engine.Unchecked

/-!
# An engine with separate flags

The engine has one status. An engine may as well keep a current block, two flags
and an error text, and write each of them on its own as it goes through a step:
some before the block is executed, some after it, and some only on the way out.
A caller gets a copy of these fields after every call and goes by nothing else.
Whatever calls are made, the fields are those of the engine with one status. So
they never contradict one another, nor the blocks that have been executed.
-/

set_option autoImplicit false

namespace BlockScript

theorem Text.append_ne_empty {s : String} (h : s ≠ "") (t : String) : s ++ t ≠ "" :=
  fun he => h (String.append_eq_empty_iff.1 he).1

open Text in
theorem Fault.message_ne_empty (fault : Fault) : fault.message ≠ "" := by
  cases fault with
  | notNumber shown =>
    exact append_ne_empty (append_ne_empty (s := "Expected a number, got ") (by decide) _) _
  | tooManyDigits => exact append_ne_empty (by decide) _
  | integerTooLarge =>
    have h : "int too large to convert to float" ≠ "" := by decide
    exact h
  | notName kind =>
    exact append_ne_empty (append_ne_empty (s := "unhashable type: '") (by decide) _) _
  | missingParameter block type parameter =>
    iterate 5 refine append_ne_empty ?_ _
    exact append_ne_empty (s := "Block '") (by decide) _

structure RunState where
  vars : Bindings Value Value
  console : List String
  current? : Option String
  isRunning : Bool
  isFinished : Bool
  error? : Option String

def RunState.isTerminal (s : RunState) : Bool := s.isFinished || s.error?.isSome

namespace Flagged

structure Engine where
  program : Program
  store : Store
  current? : Option String
  isRunning : Bool
  isFinished : Bool
  error? : Option String
  stack : List Frame

namespace Engine

def start (program : Program) : Engine :=
  ⟨program, .empty, none, false, false, none, [⟨program, 0, .once⟩]⟩

def reset (e : Engine) : Engine :=
  { e with
    store := .empty
    current? := none
    isRunning := false
    isFinished := false
    error? := none
    stack := [⟨e.program, 0, .once⟩] }

def state (e : Engine) : RunState where
  vars := e.store.vars.map fun (name, n) => (name.toValue, .number n)
  console := e.store.console.toList
  current? := e.current?
  isRunning := e.isRunning
  isFinished := e.isFinished
  error? := e.error?

def perform (e : Engine) (b : Block) (frame : Frame) (below : List Frame) : Engine :=
  let e := { e with stack := frame :: below, current? := some b.id }
  match b.effect e.store.vars with
  | .error fault =>
    let e := { e with error? := some fault.message }
    { e with isRunning := false }
  | .ok effect =>
    { e with
      store := e.store.apply effect
      stack := BlockScript.Engine.resume effect.frame? frame below }

def next (e : Engine) : Engine :=
  if e.isFinished || e.error?.isSome then e
  else
    let e := { e with isRunning := true }
    match settle e.store.vars e.stack with
    | none =>
      let e := { e with stack := [], isFinished := true }
      let e := { e with isRunning := false }
      { e with current? := none }
    | some (b, frame, below) => e.perform b frame below

def step (e : Engine) : Engine × RunState := (e.next, e.next.state)

/-- One turn of a run: its number of steps so far, the engine, and the state
shown last, by which alone the run decides whether to go on. -/
def turn (limit : Option Int) :
    Nat × Engine × RunState → (Nat × Engine × RunState) ⊕ (Nat × Engine × RunState)
  | (steps, e, shown) =>
    if shown.isTerminal then .inl (steps, e, shown)
    else if limit.any (· ≤ (steps : Int)) then .inl (steps, e, shown)
    else .inr (steps + 1, e.step)

def turns (limit : Option Int) : Nat × Engine × RunState →. Nat × Engine × RunState :=
  PFun.fix fun x => Part.some (turn limit x)

def run (limit : Option Int) (e : Engine) : Part (Nat × Engine × RunState) :=
  turns limit (0, e, e.state)

/-- The engines that steps, runs and resets lead to, with the number of steps
since the last reset. -/
inductive Reached (program : Program) : Nat → Engine → Prop
  | start : Reached program 0 (start program)
  | step {n : Nat} {e : Engine} : Reached program n e → Reached program (n + 1) e.step.1
  | run {n steps : Nat} {e after : Engine} {shown : RunState} (limit : Option Int) :
      Reached program n e → (steps, after, shown) ∈ e.run limit →
      Reached program (n + steps) after
  | reset {n : Nat} {e : Engine} : Reached program n e → Reached program 0 e.reset

end Engine

end Flagged

namespace Engine

def flagged (e : Engine) : Flagged.Engine :=
  ⟨e.program, e.store, e.current?, e.isRunning, e.isFinished, e.fault?.map Fault.message, e.stack⟩

variable {e : Engine}

theorem flagged_terminal (e : Engine) : e.flagged.state.isTerminal = e.isTerminal := by
  obtain ⟨program, stack, store, status⟩ := e
  cases status <;> rfl

theorem flags_of_active (h : e.isTerminal = false) : e.isFinished = false ∧ e.fault? = none := by
  obtain ⟨program, stack, store, status⟩ := e
  cases status with
  | ready | running => exact ⟨rfl, rfl⟩
  | finished | failed => cases h

/-- A step sets every field as the status after it says. The flags that it does
not touch on its way are those of an engine that goes on. -/
theorem next_flagged {e' : Engine} (h : e.StepsTo e') : e.flagged.next = e'.flagged := by
  have ht : (e.flagged.isFinished || e.flagged.error?.isSome) = e.isTerminal := flagged_terminal e
  rw [Flagged.Engine.next, ht]
  cases h with
  | stopped ha => rw [ha, if_pos rfl]
  | finished ha hs =>
    obtain ⟨-, hf⟩ := flags_of_active ha
    rw [ha, if_neg Bool.false_ne_true]
    simp only [flagged, hs, hf]
    rfl
  | failed ha hs he =>
    obtain ⟨hn, -⟩ := flags_of_active ha
    rw [ha, if_neg Bool.false_ne_true]
    simp only [flagged, hs, Flagged.Engine.perform, he, hn]
    rfl
  | executed ha hs he =>
    obtain ⟨hn, hf⟩ := flags_of_active ha
    rw [ha, if_neg Bool.false_ne_true]
    simp only [flagged, hs, Flagged.Engine.perform, he, hn, hf]
    rfl

theorem step_flagged (e : Engine) : e.flagged.step = (e.step.flagged, e.step.flagged.state) := by
  rw [Flagged.Engine.step, next_flagged e.stepsTo_step]

theorem runFor_step (n : Nat) (e : Engine) : (runFor n e).step = runFor (n + 1) e := by
  rw [runFor_add]
  cases ha : (runFor n e).isTerminal with
  | true => rw [step_of_terminal ha, runFor_of_terminal 1 _ ha]
  | false => rw [runFor_succ ha, runFor_zero]

def progress (steps : Nat) (e : Engine) : Nat × Flagged.Engine × RunState :=
  (steps, e.flagged, e.flagged.state)

/-- One turn of a run is one step of the engine, unless it has stopped or the
limit is reached. -/
theorem turn_progress (limit : Option Int) (steps : Nat) (e : Engine) :
    Flagged.Engine.turn limit (e.progress steps) =
      if e.isTerminal || limit.any (· ≤ (steps : Int)) then .inl (e.progress steps)
      else .inr (e.step.progress (steps + 1)) := by
  have ht : e.flagged.state.isTerminal = e.isTerminal := flagged_terminal e
  simp only [Flagged.Engine.turn, progress, ht, step_flagged]
  cases e.isTerminal <;> rfl

theorem turns_of_stop {limit : Option Int} {steps : Nat}
    (h : (e.isTerminal || limit.any (· ≤ (steps : Int))) = true) :
    Flagged.Engine.turns limit (e.progress steps) = Part.some (e.progress steps) := by
  refine Part.eq_some_iff.2 (PFun.fix_stop ?_)
  rw [turn_progress, if_pos h]
  exact Part.mem_some _

theorem turns_of_active {limit : Option Int} {steps : Nat}
    (h : ¬ (e.isTerminal || limit.any (· ≤ (steps : Int))) = true) :
    Flagged.Engine.turns limit (e.progress steps) =
      Flagged.Engine.turns limit (e.step.progress (steps + 1)) := by
  refine PFun.fix_fwd_eq ?_
  rw [turn_progress, if_neg h]
  exact Part.mem_some _

theorem active_of_not_stop {limit : Option Int} {steps : Nat}
    (h : ¬ (e.isTerminal || limit.any (· ≤ (steps : Int))) = true) : e.isTerminal = false := by
  rw [Bool.or_eq_true, not_or, Bool.not_eq_true] at h
  exact h.1

/-- However a run ends, it has made some number of steps of the engine, and then
the engine has stopped or the limit is reached. -/
theorem exists_runFor_of_mem_turns {limit : Option Int} {steps : Nat}
    {y : Nat × Flagged.Engine × RunState}
    (h : y ∈ Flagged.Engine.turns limit (e.progress steps)) :
    ∃ n, y = (runFor n e).progress (steps + n) ∧
      ((runFor n e).isTerminal || limit.any (· ≤ ((steps + n : Nat) : Int))) = true := by
  -- The induction is on the turns that the run has still to make.
  refine PFun.fixInduction (C := fun x => ∀ (e : Engine) (steps : Nat), x = e.progress steps →
    ∃ n, y = (runFor n e).progress (steps + n) ∧
      ((runFor n e).isTerminal || limit.any (· ≤ ((steps + n : Nat) : Int))) = true)
    h ?_ e steps rfl
  intro x hy ih e steps hx
  subst hx
  by_cases hs : (e.isTerminal || limit.any (· ≤ (steps : Int))) = true
  · have hm : y ∈ Flagged.Engine.turns limit (e.progress steps) := hy
    rw [turns_of_stop hs] at hm
    exact ⟨0, Part.mem_some_iff.1 hm, hs⟩
  · have hr : Sum.inr (e.step.progress (steps + 1)) ∈
        Part.some (Flagged.Engine.turn limit (e.progress steps)) := by
      rw [turn_progress, if_neg hs]
      exact Part.mem_some _
    obtain ⟨n, hn, hd⟩ := ih _ hr e.step (steps + 1) rfl
    refine ⟨n + 1, ?_⟩
    rw [runFor_succ (active_of_not_stop hs), Nat.add_comm n 1, ← Nat.add_assoc]
    exact ⟨hn, hd⟩

theorem turns_within {limit : Int} {steps n : Nat} (h : limit.toNat = steps + n) (e : Engine) :
    ∃ made ≤ n, Flagged.Engine.turns (some limit) (e.progress steps) =
      Part.some ((runFor n e).progress (steps + made)) := by
  induction n generalizing e steps with
  | zero =>
    have hl : limit ≤ steps := by omega
    refine ⟨0, le_refl 0, turns_of_stop ?_⟩
    simp [hl]
  | succ n ih =>
    cases ha : e.isTerminal with
    | true =>
      refine ⟨0, Nat.zero_le _, ?_⟩
      rw [runFor_of_terminal _ e ha]
      exact turns_of_stop (by rw [ha, Bool.true_or])
    | false =>
      have hl : ¬ limit ≤ steps := by omega
      have hn : limit.toNat = steps + 1 + n := by omega
      obtain ⟨made, hm, he⟩ := ih hn e.step
      refine ⟨made + 1, by omega, ?_⟩
      have hd : steps + (made + 1) = steps + 1 + made := by omega
      rw [turns_of_active (by simp [ha, hl]), runFor_succ ha, hd, he]

/-- What is executed in some steps and in some more is executed in all of them. -/
theorem executions_add (a b : Nat) (e : Engine) :
    executions (a + b) e = executions a e ++ executions b (runFor a e) := by
  induction a generalizing e with
  | zero => rw [Nat.zero_add, executions, runFor_zero, List.nil_append]
  | succ a ih =>
    cases ha : e.isTerminal with
    | true => simp only [executions_of_terminal ha, runFor_of_terminal _ e ha, List.append_nil]
    | false =>
      rw [Nat.succ_add, runFor_succ ha, executions, executions, if_neg (by simp [ha]),
        if_neg (by simp [ha])]
      cases hs : settle e.store.vars e.stack with
      | none =>
        have ht : e.step.isTerminal = true := by rw [step_of_settle_none ha hs]; rfl
        simp only [executions_of_terminal ht, runFor_of_terminal a _ ht, List.append_nil]
      | some next => rw [ih, List.cons_append]

def Tells (e : Engine) (steps : Nat) (executed : List Execution) : Prop :=
  match e.status with
  | .ready => steps = 0
  | .running id => 0 < steps ∧ ∃ last, executed.getLast? = some last ∧ last.block.id = id
  | .finished => e.stack = []
  | .failed id fault => ∃ last, executed.getLast? = some last ∧ last.block.id = id ∧
      last.block.effect last.before.vars = .error fault

theorem executions_one {b : Block} {frame : Frame} {below : List Frame}
    (ha : e.isTerminal = false) (hs : settle e.store.vars e.stack = some (b, frame, below)) :
    executions 1 e = [⟨b, e.store⟩] := by
  rw [executions, if_neg (by simp [ha]), hs, executions]

theorem tells_step {e' : Engine} (hs : e.StepsTo e') {steps : Nat} {executed : List Execution}
    (h : e.Tells steps executed) : e'.Tells (steps + 1) (executed ++ executions 1 e) := by
  cases hs with
  | stopped ha =>
    rw [executions_of_terminal ha, List.append_nil]
    obtain ⟨program, stack, store, status⟩ := e
    cases status with
    | ready | running => cases ha
    | finished | failed => exact h
  | finished ha hs => rfl
  | failed ha hs he =>
    rw [executions_one ha hs]
    exact ⟨_, List.getLast?_concat, rfl, he⟩
  | executed ha hs he =>
    rw [executions_one ha hs]
    exact ⟨Nat.succ_pos steps, _, List.getLast?_concat, rfl⟩

theorem tells_runFor (program : Program) (n : Nat) :
    (runFor n (start program)).Tells n (executions n (start program)) := by
  induction n with
  | zero => exact rfl
  | succ n ih =>
    have h := tells_step (stepsTo_step _) ih
    rwa [runFor_step, ← executions_add] at h

end Engine

namespace Flagged.Engine

/-- What the fields of an engine say, of one another and of the steps and blocks
since the last reset. -/
structure Coherent (program : Program) (steps : Nat) (e : Engine) : Prop where
  ends_one_way : ¬ (e.state.isFinished = true ∧ e.state.error? ≠ none)
  finished : e.state.isFinished = true →
    e.state.current? = none ∧ e.state.isRunning = false ∧ e.stack = []
  failed : ∀ message, e.state.error? = some message →
    message ≠ "" ∧ e.state.isRunning = false ∧
    ∃ last fault, ((BlockScript.Engine.start program).executions steps).getLast? = some last ∧
      last.block.effect last.before.vars = .error fault ∧ message = fault.message ∧
      e.state.current? = some last.block.id
  running_iff : e.state.isRunning = true ↔ 0 < steps ∧ e.state.isTerminal = false
  running : e.state.isRunning = true →
    ∃ last, ((BlockScript.Engine.start program).executions steps).getLast? = some last ∧
      e.state.current? = some last.block.id
  values : ∀ binding ∈ e.state.vars,
    (∃ n : Int, binding.2 = .number (.int n)) ∨ ∃ x : Binary64, binding.2 = .number (.float x)
  names : ∀ binding ∈ e.state.vars, binding.1 = .null ∨ (∃ b, binding.1 = .bool b) ∨
    (∃ n, binding.1 = .number n) ∨ ∃ s, binding.1 = .text s

theorem exists_of_mem_vars {e : Engine} {binding : Value × Value} (h : binding ∈ e.state.vars) :
    ∃ (name : VarName) (n : Number), binding = (name.toValue, .number n) := by
  obtain ⟨⟨name, n⟩, -, rfl⟩ := List.mem_map.1 h
  exact ⟨name, n, rfl⟩

theorem value_of_mem_vars {e : Engine} {binding : Value × Value} (h : binding ∈ e.state.vars) :
    (∃ n : Int, binding.2 = .number (.int n)) ∨ ∃ x : Binary64, binding.2 = .number (.float x) := by
  obtain ⟨name, n, rfl⟩ := exists_of_mem_vars h
  cases n with
  | int n => exact .inl ⟨n, rfl⟩
  | float x => exact .inr ⟨x, rfl⟩

theorem name_of_mem_vars {e : Engine} {binding : Value × Value} (h : binding ∈ e.state.vars) :
    binding.1 = .null ∨ (∃ b, binding.1 = .bool b) ∨
      (∃ n, binding.1 = .number n) ∨ ∃ s, binding.1 = .text s := by
  obtain ⟨name, n, rfl⟩ := exists_of_mem_vars h
  cases name <;> simp [VarName.toValue]

theorem coherent_of_tells {program : Program} {steps : Nat} {e : BlockScript.Engine}
    (h : e.Tells steps ((BlockScript.Engine.start program).executions steps)) :
    e.flagged.Coherent program steps := by
  obtain ⟨p, stack, store, status⟩ := e
  cases status with
  | ready =>
    have hn : ¬ (0 < steps) := Nat.not_lt.2 (Nat.le_of_eq h)
    exact {
      ends_one_way := nofun
      finished := nofun
      failed := nofun
      running_iff := iff_of_false Bool.false_ne_true fun hb => hn hb.1
      running := nofun
      values := fun _ => value_of_mem_vars
      names := fun _ => name_of_mem_vars }
  | running id =>
    obtain ⟨hn, last, hl, rfl⟩ := h
    exact {
      ends_one_way := nofun
      finished := nofun
      failed := nofun
      running_iff := iff_of_true rfl ⟨hn, rfl⟩
      running := fun _ => ⟨last, hl, rfl⟩
      values := fun _ => value_of_mem_vars
      names := fun _ => name_of_mem_vars }
  | finished =>
    have hs : stack = [] := h
    exact {
      ends_one_way := fun hb => hb.2 rfl
      finished := fun _ => ⟨rfl, rfl, hs⟩
      failed := nofun
      running_iff := iff_of_false Bool.false_ne_true fun hb => nomatch hb.2
      running := nofun
      values := fun _ => value_of_mem_vars
      names := fun _ => name_of_mem_vars }
  | failed id fault =>
    obtain ⟨last, hl, rfl, he⟩ := h
    refine {
      ends_one_way := nofun
      finished := nofun
      failed := ?_
      running_iff := iff_of_false Bool.false_ne_true fun hb => nomatch hb.2
      running := nofun
      values := fun _ => value_of_mem_vars
      names := fun _ => name_of_mem_vars }
    intro message hm
    cases hm
    exact ⟨fault.message_ne_empty, rfl, last, fault, hl, he, rfl, rfl⟩

/-- Whatever calls were made, the fields are those of the engine after as many
steps as there were since the last reset. -/
theorem Reached.eq_flagged {program : Program} {steps : Nat} {e : Engine}
    (h : Reached program steps e) :
    e = ((BlockScript.Engine.start program).runFor steps).flagged := by
  induction h with
  | start => rfl
  | step _ ih =>
    rw [ih, BlockScript.Engine.step_flagged, BlockScript.Engine.runFor_step]
  | run limit _ hm ih =>
    rw [ih] at hm
    obtain ⟨made, hk, -⟩ := BlockScript.Engine.exists_runFor_of_mem_turns hm
    rw [BlockScript.Engine.progress, Nat.zero_add] at hk
    cases hk
    rw [BlockScript.Engine.runFor_add]
  | reset _ ih =>
    have hp := BlockScript.Engine.start_sound program
    rw [ih, Engine.reset, BlockScript.Engine.flagged,
      (BlockScript.Engine.runFor_sound _ hp).program_eq]
    rfl

/-- Steps, runs and resets in any order keep the fields of the engine coherent,
and agree with the engine that has one status. Once the engine has stopped, no
step and no run changes anything or shows anything else, and a reset always
leads back to the start. A run with a limit always ends. -/
theorem reached_coherent {program : Program} {steps : Nat} {e : Engine}
    (h : Reached program steps e) :
    e = ((BlockScript.Engine.start program).runFor steps).flagged ∧
    e.Coherent program steps ∧
    (e.state.isTerminal = true →
      e.step = (e, e.state) ∧ ∀ limit, e.run limit = Part.some (0, e, e.state)) ∧
    e.reset = start program ∧
    ∀ limit : Int, ∃ made ≤ limit.toNat, ∃ after,
      e.run (some limit) = Part.some (made, after, after.state) ∧
      after = ((BlockScript.Engine.start program).runFor (steps + limit.toNat)).flagged := by
  have hr : Reached program 0 e.reset := .reset h
  have he := h.eq_flagged
  refine ⟨he, ?_, ?_, hr.eq_flagged, ?_⟩
  · rw [he]
    exact coherent_of_tells (BlockScript.Engine.tells_runFor program steps)
  · generalize BlockScript.Engine.runFor steps _ = f at he
    subst he
    intro ht
    rw [BlockScript.Engine.flagged_terminal] at ht
    constructor
    · rw [BlockScript.Engine.step_flagged, BlockScript.Engine.step_of_terminal ht]
    · intro limit
      exact BlockScript.Engine.turns_of_stop (by rw [ht, Bool.true_or])
  · intro limit
    obtain ⟨made, hm, hw⟩ := BlockScript.Engine.turns_within (Nat.zero_add limit.toNat).symm
      (BlockScript.Engine.runFor steps (.start program))
    rw [Nat.zero_add, ← BlockScript.Engine.runFor_add] at hw
    rw [he]
    exact ⟨made, hm, _, hw, rfl⟩

/-- A block that fails in a run after a reset, with a step left over. -/
theorem reached_coherent_failed :
    let program : Program :=
      [⟨"a", "set_var", [("value", .bool true)], none⟩,
       ⟨"b", "change_var", [("value", .text "one")], none⟩]
    let e := (start program).step.1.step.1.reset.step.1.step.1
    e.error? = some "Expected a number, got 'one'." ∧ e.current? = some "b" ∧
      e.isRunning = false ∧ e.step = (e, e.state) := by
  intro program e
  have h : Reached program 2 e := .step (.step (.reset (.step (.step .start))))
  obtain ⟨-, hc, ht, -⟩ := reached_coherent h
  have hm : e.error? = some "Expected a number, got 'one'." := by decide +kernel
  exact ⟨hm, by decide +kernel, (hc.failed _ hm).2.1, (ht (by decide +kernel)).1⟩

end Flagged.Engine

end BlockScript
