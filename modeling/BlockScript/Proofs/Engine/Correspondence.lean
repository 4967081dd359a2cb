import BlockScript.Proofs.Engine.Agenda

/-!
# The engine and the structured meaning

The engine stops exactly as the structured meaning of its program says: with
the same variables and console, after executing the same blocks in the same
order, and at the same failing block. It runs on forever exactly when the
program has no structured outcome.
-/

set_option autoImplicit false

namespace BlockScript

open Reading

def Outcome.lastReport : Outcome → List (Option String)
  | .done => [none]
  | .failed _ _ => []

namespace Engine

def outcome? (e : Engine) : Option Outcome :=
  match e.status with
  | .finished => some .done
  | .failed id fault => some (.failed id fault)
  | _ => none

def executions : Nat → Engine → List Execution
  | 0, _ => []
  | n + 1, e =>
    if e.isTerminal then []
    else
      match settle e.store.vars e.stack with
      | none => []
      | some (b, _, _) => ⟨b, e.store⟩ :: executions n e.step

def reports : Nat → Engine → List (Option String)
  | 0, _ => []
  | n + 1, e => if e.isTerminal then [] else e.step.current? :: reports n e.step

/-- An engine that has not stopped and whose frames, if they start again, are not empty. -/
structure Going (e : Engine) : Prop where
  active : e.isTerminal = false
  proper : ∀ f ∈ e.stack, f.Proper

theorem isTerminal_iff (e : Engine) : e.isTerminal = true ↔ ∃ o, e.outcome? = some o := by
  unfold isTerminal outcome?
  cases e.status <;> simp

theorem step_of_terminal {e : Engine} (h : e.isTerminal = true) : e.step = e := by
  simp [step, advance, h]

theorem step_of_settle_none {e : Engine} (ha : e.isTerminal = false)
    (h : settle e.store.vars e.stack = none) :
    e.step = { e with stack := [], status := .finished } := by
  simp [step, advance, ha, h]

theorem step_of_fault {e : Engine} {b : Block} {frame : Frame} {below : List Frame}
    {fault : Fault} (ha : e.isTerminal = false)
    (h : settle e.store.vars e.stack = some (b, frame, below))
    (he : b.effect e.store.vars = .error fault) :
    e.step = { e with stack := frame :: below, status := .failed b.id fault } := by
  simp [step, advance, perform, ha, h, he]

theorem step_of_effect {e : Engine} {b : Block} {frame : Frame} {below : List Frame}
    {effect : Effect} (ha : e.isTerminal = false)
    (h : settle e.store.vars e.stack = some (b, frame, below))
    (he : b.effect e.store.vars = .ok effect) :
    e.step = { e with
      stack := resume effect.frame? frame below
      store := e.store.apply effect
      status := .running b.id } := by
  simp [step, advance, perform, ha, h, he]

/-- All that a step can lead to. -/
inductive StepsTo (e : Engine) : Engine → Prop
  | stopped : e.isTerminal = true → StepsTo e e
  | finished : e.isTerminal = false → settle e.store.vars e.stack = none →
      StepsTo e { e with stack := [], status := .finished }
  | failed {b : Block} {frame : Frame} {below : List Frame} {fault : Fault} :
      e.isTerminal = false → settle e.store.vars e.stack = some (b, frame, below) →
      b.effect e.store.vars = .error fault →
      StepsTo e { e with stack := frame :: below, status := .failed b.id fault }
  | executed {b : Block} {frame : Frame} {below : List Frame} {effect : Effect} :
      e.isTerminal = false → settle e.store.vars e.stack = some (b, frame, below) →
      b.effect e.store.vars = .ok effect →
      StepsTo e { e with
        stack := resume effect.frame? frame below
        store := e.store.apply effect
        status := .running b.id }

theorem stepsTo_step (e : Engine) : e.StepsTo e.step := by
  cases ha : e.isTerminal with
  | true =>
    rw [step_of_terminal ha]
    exact .stopped ha
  | false =>
    cases hs : settle e.store.vars e.stack with
    | none =>
      rw [step_of_settle_none ha hs]
      exact .finished ha hs
    | some next =>
      obtain ⟨b, frame, below⟩ := next
      cases he : b.effect e.store.vars with
      | error fault =>
        rw [step_of_fault ha hs he]
        exact .failed ha hs he
      | ok effect =>
        rw [step_of_effect ha hs he]
        exact .executed ha hs he

theorem settle_proper {vars : Bindings VarName Number} {stack below : List Frame} {b : Block}
    {frame : Frame} (hp : ∀ f ∈ stack, f.Proper)
    (h : settle vars stack = some (b, frame, below)) :
    frame.blocks ≠ [] ∧ ∀ f ∈ below, f.Proper := by
  induction stack with
  | nil => cases h
  | cons f rest ih =>
    have hr : ∀ g ∈ rest, g.Proper := fun g hg => hp g (List.mem_cons_of_mem _ hg)
    unfold settle at h
    split at h
    · next hb =>
      cases h
      exact ⟨List.ne_nil_of_mem (List.mem_of_getElem? hb), hr⟩
    · split at h
      · next hbs =>
        cases h
        exact ⟨by rw [hbs]; exact List.cons_ne_nil _ _, hr⟩
      · exact ih hr h

theorem step_going {e : Engine} {b : Block} {frame : Frame} {below : List Frame}
    {effect : Effect} (hg : e.Going) (h : settle e.store.vars e.stack = some (b, frame, below))
    (he : b.effect e.store.vars = .ok effect) : e.step.Going := by
  obtain ⟨hf, hb⟩ := settle_proper hg.proper h
  rw [step_of_effect hg.active h he]
  refine ⟨rfl, ?_⟩
  intro f hm
  simp only [resume, List.mem_append, Option.mem_toList, List.mem_cons] at hm
  rcases hm with ho | rfl | hm
  · have hw := Block.follows_effect he
    unfold Block.Follows at hw
    rw [Option.mem_def.mp ho] at hw
    exact fun hn => absurd hn hw.2
  · exact fun hn => absurd hn hf
  · exact hb f hm

theorem start_going (program : Program) : (start program).Going := by
  refine ⟨rfl, ?_⟩
  intro f hm hn
  rw [List.mem_singleton.mp hm]

def Ends (e : Engine) (t : List Execution) (o : Outcome) (s : Store) : Prop :=
  ∃ n, (runFor n e).outcome? = some o ∧ (runFor n e).store = s ∧ executions n e = t

theorem runFor_succ {e : Engine} (ha : e.isTerminal = false) (n : Nat) :
    runFor (n + 1) e = runFor n e.step := by
  simp [runFor, ha]

theorem executions_of_terminal {e : Engine} (h : e.isTerminal = true) (n : Nat) :
    executions n e = [] := by
  cases n <;> simp [executions, h]

theorem reports_of_terminal {e : Engine} (h : e.isTerminal = true) (n : Nat) :
    reports n e = [] := by
  cases n <;> simp [reports, h]

theorem remaining_of_ends {n : Nat} {e : Engine} (hg : e.Going) {o : Outcome}
    (ho : (runFor n e).outcome? = some o) :
    remaining e.stack e.store (executions n e) o (runFor n e).store := by
  induction n generalizing e with
  | zero =>
    have ht := (isTerminal_iff e).mpr ⟨o, ho⟩
    rw [hg.active] at ht
    cases ht
  | succ n ih =>
    rw [runFor_succ hg.active] at ho ⊢
    rw [remaining_settle hg.proper]
    cases hs : settle e.store.vars e.stack with
    | none =>
      have hstep := step_of_settle_none hg.active hs
      rw [hstep, runFor_of_terminal _ _ rfl] at ho ⊢
      simp only [executions, hg.active, hs]
      exact ⟨rfl, (Option.some.inj ho).symm, rfl⟩
    | some next =>
      obtain ⟨b, frame, below⟩ := next
      simp only [executions, hg.active, hs, Reading.perform]
      cases he : b.effect e.store.vars with
      | error fault =>
        have hstep := step_of_fault hg.active hs he
        rw [hstep, runFor_of_terminal _ _ rfl] at ho ⊢
        rw [executions_of_terminal rfl]
        exact ⟨rfl, (Option.some.inj ho).symm, rfl⟩
      | ok effect =>
        have hrec := ih (step_going hg hs he) ho
        refine ⟨_, rfl, ?_⟩
        have hstep := step_of_effect hg.active hs he
        rw [hstep] at hrec ⊢
        exact hrec

-- The blocks executed bound the number of steps, so the induction is on them.
theorem ends_of_remaining {t : List Execution} {e : Engine} (hg : e.Going) {o : Outcome}
    {s : Store} (h : remaining e.stack e.store t o s) : e.Ends t o s := by
  induction t generalizing e with
  | nil =>
    rw [remaining_settle hg.proper] at h
    cases hs : settle e.store.vars e.stack with
    | none =>
      rw [hs] at h
      obtain ⟨-, rfl, rfl⟩ := h
      refine ⟨1, ?_⟩
      rw [runFor_succ hg.active, runFor_zero, step_of_settle_none hg.active hs]
      exact ⟨rfl, rfl, by simp [executions, hg.active, hs]⟩
    | some next =>
      rw [hs] at h
      simp only [Reading.perform] at h
      split at h
      · cases h.1
      · obtain ⟨u, hu, -⟩ := h
        cases hu
  | cons x t ih =>
    rw [remaining_settle hg.proper] at h
    cases hs : settle e.store.vars e.stack with
    | none =>
      rw [hs] at h
      cases h.1
    | some next =>
      obtain ⟨b, frame, below⟩ := next
      rw [hs] at h
      simp only [Reading.perform] at h
      cases he : b.effect e.store.vars with
      | error fault =>
        rw [he] at h
        obtain ⟨hx, rfl, rfl⟩ := h
        refine ⟨1, ?_⟩
        rw [runFor_succ hg.active, runFor_zero, step_of_fault hg.active hs he, hx]
        exact ⟨rfl, rfl, by simp [executions, hg.active, hs]⟩
      | ok effect =>
        rw [he] at h
        obtain ⟨u, hu, hr⟩ := h
        cases hu
        have hstep := step_of_effect hg.active hs he
        obtain ⟨n, ho, hst, ht⟩ := ih (step_going hg hs he) (by rw [hstep]; exact hr)
        refine ⟨n + 1, ?_⟩
        rw [runFor_succ hg.active]
        exact ⟨ho, hst, by simp [executions, hg.active, hs, ht]⟩

/-- The engine stops as what its stack has to do says, and in no other way. -/
theorem ends_iff {e : Engine} (hg : e.Going) (t : List Execution) (o : Outcome) (s : Store) :
    e.Ends t o s ↔ remaining e.stack e.store t o s := by
  constructor
  · rintro ⟨n, ho, rfl, rfl⟩
    exact remaining_of_ends hg ho
  · exact ends_of_remaining hg

theorem start_ends_iff (program : Program) (t : List Execution) (o : Outcome) (s : Store) :
    (start program).Ends t o s ↔ Runs (.blocks program) .empty t o s := by
  rw [ends_iff (start_going program)]
  simp only [start, remaining, Frame.left, Mode.rest, List.drop_zero, Runs.blocks_nil,
    andThen_skip]

/-- A run reports every block it executes, and nothing once it has finished. -/
theorem reports_of_ends {n : Nat} {e : Engine} (ha : e.isTerminal = false) {o : Outcome}
    (ho : (runFor n e).outcome? = some o) :
    reports n e = (executions n e).map (fun x => some x.block.id) ++ o.lastReport := by
  induction n generalizing e with
  | zero =>
    have ht := (isTerminal_iff e).mpr ⟨o, ho⟩
    rw [ha] at ht
    cases ht
  | succ n ih =>
    rw [runFor_succ ha] at ho
    simp only [reports, executions, ha, Bool.false_eq_true, if_false]
    cases hs : settle e.store.vars e.stack with
    | none =>
      rw [step_of_settle_none ha hs, runFor_of_terminal _ _ rfl] at ho
      rw [step_of_settle_none ha hs, reports_of_terminal rfl, ← Option.some.inj ho]
      rfl
    | some next =>
      obtain ⟨b, frame, below⟩ := next
      cases he : b.effect e.store.vars with
      | error fault =>
        rw [step_of_fault ha hs he, runFor_of_terminal _ _ rfl] at ho
        rw [step_of_fault ha hs he, reports_of_terminal rfl, executions_of_terminal rfl,
          ← Option.some.inj ho]
        rfl
      | ok effect =>
        have hstep := step_of_effect ha hs he
        rw [ih (by rw [hstep]; rfl) ho]
        rw [hstep]
        rfl

theorem isFinished_iff (e : Engine) : e.isFinished = true ↔ e.outcome? = some .done := by
  unfold isFinished outcome?
  cases e.status <;> simp

theorem status_failed_iff (e : Engine) (id : String) (fault : Fault) :
    e.status = .failed id fault ↔ e.outcome? = some (.failed id fault) := by
  unfold outcome?
  cases e.status <;> simp

theorem reports_iff_runs (program : Program) (o : Outcome) (s : Store) (ids : List String) :
    (∃ n, (runFor n (start program)).outcome? = some o ∧ (runFor n (start program)).store = s ∧
      reports n (start program) = ids.map some ++ o.lastReport) ↔
    ∃ t, Runs (.blocks program) .empty t o s ∧ t.map (fun x => x.block.id) = ids := by
  constructor
  · rintro ⟨n, ho, rfl, hr⟩
    refine ⟨executions n (start program), (start_ends_iff _ _ _ _).mp ⟨n, ho, rfl, rfl⟩, ?_⟩
    rw [reports_of_ends rfl ho, List.append_cancel_right_eq] at hr
    apply List.map_injective_iff.mpr (Option.some_injective String)
    rw [← hr, List.map_map]
    rfl
  · rintro ⟨t, ht, rfl⟩
    obtain ⟨n, ho, hs, rfl⟩ := (start_ends_iff _ _ _ _).mpr ht
    refine ⟨n, ho, hs, ?_⟩
    rw [reports_of_ends rfl ho, List.map_map]
    rfl

/-- The engine implements the structured meaning: it finishes, fails or runs on
forever exactly as that meaning says, with the same variables and console, and
it reports the blocks in the order in which they are executed there. -/
theorem runs_structured_meaning (program : Program) :
    (∀ vars console ids,
      (∃ n, (runFor n (start program)).isFinished = true ∧
        (runFor n (start program)).store = ⟨vars, console⟩ ∧
        reports n (start program) = ids.map some ++ [none]) ↔
      ∃ t, Runs (.blocks program) .empty t .done ⟨vars, console⟩ ∧
        t.map (fun x => x.block.id) = ids) ∧
    (∀ id fault vars console ids,
      (∃ n, (runFor n (start program)).status = .failed id fault ∧
        (runFor n (start program)).store = ⟨vars, console⟩ ∧
        reports n (start program) = ids.map some) ↔
      ∃ t, Runs (.blocks program) .empty t (.failed id fault) ⟨vars, console⟩ ∧
        t.map (fun x => x.block.id) = ids) ∧
    ((∀ n, (runFor n (start program)).isTerminal = false) ↔
      ∀ t o s, ¬ Runs (.blocks program) .empty t o s) := by
  refine ⟨?_, ?_, ?_⟩
  · intro vars console ids
    simp only [isFinished_iff]
    exact reports_iff_runs program .done ⟨vars, console⟩ ids
  · intro id fault vars console ids
    simp only [status_failed_iff]
    have h := reports_iff_runs program (.failed id fault) ⟨vars, console⟩ ids
    simpa only [Outcome.lastReport, List.append_nil] using h
  · constructor
    · intro h t o s hr
      obtain ⟨n, ho, -⟩ := (start_ends_iff program t o s).mpr hr
      have ht := (isTerminal_iff _).mpr ⟨o, ho⟩
      rw [h n] at ht
      cases ht
    · intro h n
      rw [← Bool.not_eq_true, isTerminal_iff]
      rintro ⟨o, ho⟩
      exact h _ _ _ ((start_ends_iff program _ o _).mp ⟨n, ho, rfl, rfl⟩)

end Engine

end BlockScript
