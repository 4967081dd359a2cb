import BlockScript.Proofs.Bindings
import BlockScript.Proofs.Engine.Cost

/-!
# Interrupted runs

A run that stops at its limit leaves the engine between two steps, wherever that
is: before the first block of a frame that was just opened, at the end of a round,
or above frames that have all come to their end. Nothing of the run is kept but
the engine, so a second run goes on as the first one would have. Each step of a
run does one thing at most: it executes one block, and appends one line to the
console or gives one variable a value, or does neither.
-/

set_option autoImplicit false

namespace BlockScript

def Event.isExecution : Event → Bool
  | .executing _ _ => true
  | _ => false

namespace Engine

theorem countP_leaving (before after : Nat) :
    (leaving before after).countP Event.isExecution = 0 := by
  rw [leaving, List.countP_map, List.countP_eq_zero]
  exact fun _ _ => Bool.false_ne_true

theorem countP_eventsOf (b : Block) (opened : Option Frame) (depth : Nat) :
    (eventsOf b opened depth).countP Event.isExecution = 1 := by
  unfold eventsOf
  cases opened with
  | some inner => rfl
  | none =>
    dsimp only
    split <;> rfl

theorem countP_perform (e : Engine) (b : Block) (frame : Frame) (below : List Frame) :
    (e.perform b frame below).2.countP Event.isExecution = 1 := by
  unfold perform
  split
  · rfl
  · exact countP_eventsOf b _ _

/-- A step executes one block, or none if the engine stops or has stopped. -/
theorem countP_advance_le (e : Engine) : e.advance.2.countP Event.isExecution ≤ 1 := by
  unfold advance
  split
  · exact Nat.zero_le 1
  · split
    · rw [List.countP_append, countP_leaving]
      exact Nat.zero_le 1
    · rw [List.countP_append, countP_leaving, Nat.zero_add]
      exact Nat.le_of_eq (countP_perform e _ _ _)

end Engine

structure RunState.SmallStep (before after : RunState) : Prop where
  console : before.console <+: after.console
  oneLine : after.console.length ≤ before.console.length + 1
  names : before.vars.keys <+: after.vars.keys
  /-- A variable has a new value, or is new, at one place at most. -/
  oneValue : ∃ place, ∀ i : Nat, i ≠ place → after.vars[i]? = before.vars[i]?
  oneOfThem : after.console = before.console ∨ after.vars = before.vars

theorem RunState.smallStep_of_lines {before after : RunState} {fresh : List String}
    (hv : after.vars = before.vars) (hc : after.console = before.console ++ fresh)
    (hl : fresh.length ≤ 1) : before.SmallStep after where
  console := hc ▸ List.prefix_append _ _
  oneLine := by
    rw [hc, List.length_append]
    exact Nat.add_le_add_left hl _
  names := hv ▸ List.prefix_rfl
  oneValue := ⟨0, fun _ _ => hv ▸ rfl⟩
  oneOfThem := .inr hv

namespace Engine

theorem keys_flagged_vars (e : Engine) :
    e.flagged.state.vars.keys = e.store.vars.keys.map VarName.toValue := by
  simp [Flagged.Engine.state, flagged, Bindings.keys]

theorem smallStep_of_put {e e' : Engine} {name : VarName} {n : Number}
    (hv : e'.store.vars = e.store.vars.put name n) (hc : e'.store.console = e.store.console) :
    e.flagged.state.SmallStep e'.flagged.state := by
  have hlines : e'.flagged.state.console = e.flagged.state.console := congrArg Array.toList hc
  obtain ⟨place, hp⟩ := e.store.vars.exists_getElem?_put name n
  exact {
    console := hlines ▸ List.prefix_rfl
    oneLine := hlines ▸ Nat.le_succ _
    names := by
      rw [keys_flagged_vars, keys_flagged_vars, hv]
      exact (e.store.vars.keys_prefix_put name n).map _
    oneValue := by
      refine ⟨place, fun i hi => ?_⟩
      simp only [Flagged.Engine.state, flagged, List.getElem?_map, hv, hp i hi]
    oneOfThem := .inl hlines }

theorem StepsTo.smallStep {e e' : Engine} (h : e.StepsTo e') :
    e.flagged.state.SmallStep e'.flagged.state := by
  have hsame : ∀ e' : Engine, e'.store = e.store →
      e.flagged.state.SmallStep e'.flagged.state := by
    intro e' hs
    refine @RunState.smallStep_of_lines _ _ [] ?_ ?_ (Nat.zero_le 1)
    · simp only [Flagged.Engine.state, flagged, hs]
    · simp only [Flagged.Engine.state, flagged, hs, List.append_nil]
  cases h with
  | stopped => exact hsame _ rfl
  | finished => exact hsame _ rfl
  | failed => exact hsame _ rfl
  | @executed b frame below effect =>
    cases effect with
    | nothing | opens => exact hsame _ rfl
    | say line => exact RunState.smallStep_of_lines rfl Array.toList_push (Nat.le_refl 1)
    | put name n => exact smallStep_of_put rfl rfl

end Engine

namespace Flagged.Engine

def result (limit : Option Int) (e : Engine) : Part (Engine × RunState) :=
  (e.run limit).map Prod.snd

def GoesOn (limit : Option Int) : Nat × Engine × RunState → Nat × Engine × RunState → Prop :=
  Relation.ReflTransGen fun x y => turn limit x = .inr y

end Flagged.Engine

namespace Engine

open Flagged.Engine (result GoesOn turn)

variable (e : Engine)

theorem result_limited (n : Nat) :
    e.flagged.result (some n) = Part.some ((runFor n e).flagged, (runFor n e).flagged.state) := by
  have hn : (n : Int).toNat = 0 + n := by omega
  obtain ⟨made, -, hr⟩ := turns_within hn e
  change (Flagged.Engine.turns _ (e.progress 0)).map Prod.snd = _
  rw [hr, Part.map_some]
  rfl

theorem iterate_next_flagged (n : Nat) :
    Flagged.Engine.next^[n] e.flagged = (runFor n e).flagged := by
  induction n with
  | zero => rfl
  | succ n ih =>
    rw [Function.iterate_succ_apply', ih, next_flagged (stepsTo_step _), runFor_step]

/-- A run without a limit ends if the engine stops at all, and shows how it stopped. -/
theorem mem_result_unlimited_iff (y : Flagged.Engine × RunState) :
    y ∈ e.flagged.result none ↔ ∃ n, (runFor n e).isTerminal = true ∧
      y = ((runFor n e).flagged, (runFor n e).flagged.state) := by
  have he : e.flagged.result none = (Flagged.Engine.turns none (e.progress 0)).map Prod.snd := rfl
  rw [he, Part.mem_map_iff]
  constructor
  · rintro ⟨x, hx, rfl⟩
    obtain ⟨n, rfl, hs⟩ := exists_runFor_of_mem_turns hx
    rw [Option.any_none, Bool.or_false] at hs
    exact ⟨n, hs, rfl⟩
  · rintro ⟨n, hn, rfl⟩
    obtain ⟨made, hm, ht, hr⟩ := turns_unlimited hn 0
    -- The run ends at the first stop, and the steps from there on change nothing.
    obtain ⟨rest, rfl⟩ := Nat.exists_eq_add_of_le hm
    rw [runFor_add, runFor_of_terminal rest _ ht, hr]
    exact ⟨_, Part.mem_some _, rfl⟩

/-- Steps made before do not show in how a run without a limit ends, nor in whether it does. -/
theorem result_unlimited_runFor (a : Nat) :
    (runFor a e).flagged.result none = e.flagged.result none := by
  ext y
  rw [mem_result_unlimited_iff, mem_result_unlimited_iff]
  constructor
  · rintro ⟨n, hn, rfl⟩
    rw [← runFor_add] at hn ⊢
    exact ⟨a + n, hn, rfl⟩
  · rintro ⟨n, hn, rfl⟩
    have hs : runFor n (runFor a e) = runFor n e := by
      rw [← runFor_add, Nat.add_comm, runFor_add, runFor_of_terminal a _ hn]
    exact ⟨n, by rwa [hs], by rw [hs]⟩

variable {e}

theorem eq_of_turn_inr {limit : Option Int} {steps : Nat} {y : Nat × Flagged.Engine × RunState}
    (h : turn limit (e.progress steps) = .inr y) : y = e.step.progress (steps + 1) := by
  rw [turn_progress] at h
  split at h
  · cases h
  · exact (Sum.inr.inj h).symm

theorem exists_runFor_of_goesOn {limit : Option Int} {x : Nat × Flagged.Engine × RunState}
    (h : GoesOn limit (e.progress 0) x) : ∃ n, x = (runFor n e).progress n := by
  induction h with
  | refl => exact ⟨0, rfl⟩
  | tail _ ht ih =>
    obtain ⟨n, rfl⟩ := ih
    exact ⟨n + 1, by rw [eq_of_turn_inr ht, runFor_step]⟩

end Engine

namespace Flagged.Engine

/-- A run can be interrupted anywhere. A run with a limit makes as many steps, of
which those after a stop change nothing. So two such runs, one after the other,
leave and show what one run with the sum of the limits does, and a run without a
limit ends the same, if it ends, when one with a limit comes before it. On the way
each step executes at most one block and changes little of what is shown. -/
theorem runs_interrupted {program : Program} {steps : Nat} {e : Engine}
    (h : Reached program steps e) :
    (∀ a : Nat, e.result (some a) = Part.some (next^[a] e, (next^[a] e).state)) ∧
    (∀ a b : Nat, ∃ after shown last, e.result (some a) = Part.some (after, shown) ∧
      after.result (some b) = Part.some last ∧ e.result (some (a + b : Nat)) = Part.some last) ∧
    (∀ a : Nat, ∃ after shown, e.result (some a) = Part.some (after, shown) ∧
      after.result none = e.result none) ∧
    ∀ (limit : Option Int) (x y : Nat × Engine × RunState),
      GoesOn limit (0, e, e.state) x → turn limit x = .inr y →
      x.2.2.SmallStep y.2.2 ∧
      ∃ f : BlockScript.Engine, x.2.1 = f.flagged ∧ y.2.1 = f.advance.1.flagged ∧
        f.advance.2.countP Event.isExecution ≤ 1 := by
  have he := h.eq_flagged
  generalize BlockScript.Engine.runFor steps _ = f at he
  subst he
  refine ⟨fun a => ?_, fun a b => ?_, fun a => ?_, fun limit x y hx hy => ?_⟩
  · rw [f.result_limited, BlockScript.Engine.iterate_next_flagged]
  · refine ⟨_, _, _, f.result_limited a, BlockScript.Engine.result_limited _ b, ?_⟩
    rw [f.result_limited, BlockScript.Engine.runFor_add]
  · exact ⟨_, _, f.result_limited a, f.result_unlimited_runFor a⟩
  · obtain ⟨n, rfl⟩ := BlockScript.Engine.exists_runFor_of_goesOn hx
    rw [BlockScript.Engine.eq_of_turn_inr hy]
    exact ⟨(BlockScript.Engine.stepsTo_step _).smallStep, _, rfl, rfl,
      BlockScript.Engine.countP_advance_le _⟩

/-- A loop interrupted before its first block and again before its second round. -/
theorem runs_interrupted_loop :
    let program : Program :=
      [⟨"r", "repeat", [("times", .number (.int 2))],
        some [⟨"p", "print", [("message", .text "score")], none⟩, ⟨"c", "change_var", [], none⟩]⟩]
    let e := (start program).step.1
    Reached program 1 e ∧ e.stack.length = 2 ∧
      ∃ after shown last, e.result (some 2) = Part.some (after, shown) ∧
        after.result (some 3) = Part.some last ∧ e.result (some 5) = Part.some last ∧
        last.2.console = ["> score", "> 1"] ∧ last.2.isFinished = true := by
  intro program e
  have h : Reached program 1 e := .step .start
  obtain ⟨hn, hs, -⟩ := runs_interrupted h
  obtain ⟨after, shown, last, ha, hb, hl⟩ := hs 2 3
  have he : last = (next^[5] e, (next^[5] e).state) := Part.some_injective (hl.symm.trans (hn 5))
  refine ⟨h, by decide +kernel, after, shown, last, ha, hb, hl, ?_⟩
  rw [he]
  decide +kernel

end Flagged.Engine

end BlockScript
