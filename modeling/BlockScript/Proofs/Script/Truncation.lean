import BlockScript.Proofs.Script.Budget
import Mathlib.Data.ENat.Basic

/-!
# A budget only cuts a run short

Two runs of the same script under different budgets do the same until the
smaller budget is used up. So every script has a threshold: below it a run is
cut off, and what it has put out is the beginning of every longer run; from the
threshold on the budget makes no difference at all.
-/

set_option autoImplicit false

namespace BlockScript.Script

variable {α β : Type}

def Extends (s : State) (result : Result α) : Prop :=
  s.output.toList <+: result.state.output.toList

/-- A part of a run under two budgets, the smaller first. It comes to the same,
unless the smaller budget cuts it off; then all that it has put out is put out
under the larger budget too. -/
def CutShort (s : State) (short long : Result α) : Prop :=
  Extends s long ∧
    (short = long ∨ ∃ cut, short = .error .runaway cut ∧ Extends cut long)

theorem Result.ending_state (result : Result α) : result.ending.state = result.state := by
  cases result <;> rfl

theorem Extends.refl {s : State} {result : Result α} (h : result.state.output = s.output) :
    Extends s result := by
  unfold Extends
  exact h ▸ List.prefix_rfl

theorem Extends.bind {s : State} {run : Run α} {next : α → Run β} (h : Extends s (run s))
    (hn : ∀ a s', Extends s' (next a s')) : Extends s ((run >>= next) s) := by
  rw [Run.bind_apply]
  cases hr : run s with
  | error stop s' =>
    rw [hr] at h
    exact h
  | ok a s' =>
    rw [hr] at h
    exact List.IsPrefix.trans h (hn a s')

theorem runSimple_extends (number : Nat) (statement : Simple) (s : State) :
    Extends s (runSimple number statement s) := by
  rw [runSimple_apply]
  cases statement.change s.vars with
  | error fault => exact .refl rfl
  | ok change =>
    cases change with
    | nothing => exact .refl rfl
    | say line => simp [Extends, Result.state, State.apply]
    | put name d => exact .refl rfl

theorem roundCount_extends (number : Nat) (count : Operand) (s : State) :
    Extends s (roundCount number count s) := by
  rw [roundCount_apply]
  split <;> exact .refl rfl

theorem repeatBody_of_used_up {budget : Int} {count : Number} {fuel finished : Nat} {s : State}
    (hc : count.exceeds finished = true) (h : fuel = 0 ∨ budget < s.steps) (body : Run Unit) :
    repeatBody budget count body fuel finished s = .error .runaway s := by
  cases fuel with
  | zero =>
    rw [repeatBody, if_pos hc]
    rfl
  | succ fuel =>
    have hs : budget < s.steps := by simpa using h
    rw [repeatBody, if_pos hc]
    change (if budget < (s.steps : Int) then _ else _ : Run Unit) s = _
    rw [if_pos hs]
    rfl

namespace CutShort

variable {b b' : Int}

theorem same {s : State} {result : Result α} (h : Extends s result) : CutShort s result result :=
  ⟨h, Or.inl rfl⟩

theorem bind {s : State} {run run' : Run α} {next next' : α → Run β}
    (h : CutShort s (run s) (run' s)) (hn : ∀ a s', CutShort s' (next a s') (next' a s')) :
    CutShort s ((run >>= next) s) ((run' >>= next') s) := by
  refine ⟨Extends.bind h.1 fun a s' => (hn a s').1, ?_⟩
  obtain ⟨-, heq | ⟨cut, hcut, hlong⟩⟩ := h
  · rw [Run.bind_apply, Run.bind_apply, heq]
    cases run' s with
    | ok a s' => exact (hn a s').2
    | error stop s' => exact Or.inl rfl
  · right
    refine ⟨cut, by rw [Run.bind_apply, hcut], ?_⟩
    rw [Run.bind_apply]
    cases hr : run' s with
    | ok a s' =>
      rw [hr] at hlong
      exact List.IsPrefix.trans hlong (hn a s').1
    | error stop s' =>
      rw [hr] at hlong
      exact hlong

theorem enter (hb : b ≤ b') (number : Nat) (text : List Char) (s : State) :
    CutShort s (enter b number text s) (enter b' number text s) := by
  by_cases h : b < (s.steps + 1 : Nat)
  · rw [enter_of_lt h]
    by_cases h' : b' < (s.steps + 1 : Nat)
    · rw [enter_of_lt h']
      exact same (.refl rfl)
    · rw [enter_of_le (by omega)]
      exact ⟨.refl rfl, Or.inr ⟨_, rfl, .refl rfl⟩⟩
  · rw [enter_of_le (by omega), enter_of_le (by omega)]
    exact same (.refl rfl)

theorem runInline (hb : b ≤ b') (number : Nat) (inline : Inline) (s : State) :
    CutShort s (runInline b number inline s) (runInline b' number inline s) := by
  rw [runInline_eq, runInline_eq]
  exact bind (enter hb number _ s) fun _ s' => same (runSimple_extends number _ s')

theorem repeatBody (hb : b ≤ b') {count : Number} {body body' : Run Unit}
    (hbody : ∀ s, CutShort s (body s) (body' s)) {fuel fuel' : Nat} (hf : fuel ≤ fuel')
    (finished : Nat) (s : State) :
    CutShort s (repeatBody b count body fuel finished s)
      (repeatBody b' count body' fuel' finished s) := by
  -- Fuel that runs out counts as a budget that is used up, so it need not be enough.
  induction fuel' generalizing fuel finished s with
  | zero =>
    cases hc : count.exceeds finished with
    | false =>
      rw [repeatBody_of_not_exceeds hc, repeatBody_of_not_exceeds hc]
      exact same (.refl rfl)
    | true =>
      rw [repeatBody_of_used_up hc (Or.inl (by omega)), repeatBody_of_used_up hc (Or.inl rfl)]
      exact same (.refl rfl)
  | succ fuel' ih =>
    cases hc : count.exceeds finished with
    | false =>
      rw [repeatBody_of_not_exceeds hc, repeatBody_of_not_exceeds hc]
      exact same (.refl rfl)
    | true =>
      by_cases hs' : b' < s.steps
      · rw [repeatBody_of_used_up hc (Or.inr (by omega)), repeatBody_of_used_up hc (Or.inr hs')]
        exact same (.refl rfl)
      · rw [repeatBody_succ hc (by omega) body']
        by_cases hs : fuel = 0 ∨ b < s.steps
        · rw [repeatBody_of_used_up hc hs]
          have hlong : Extends s ((body' >>= fun _ =>
              Script.repeatBody b' count body' fuel' (finished + 1)) s) :=
            Extends.bind (hbody s).1 fun _ s' => (ih (Nat.zero_le fuel') (finished + 1) s').1
          exact ⟨hlong, Or.inr ⟨s, rfl, hlong⟩⟩
        · obtain ⟨fuel, rfl⟩ : ∃ n, fuel = n + 1 := Nat.exists_eq_succ_of_ne_zero (by omega)
          rw [repeatBody_succ hc (by omega) body]
          exact bind (hbody s) fun _ s' => ih (by omega) (finished + 1) s'

theorem headed (hb : b ≤ b') (number : Nat) (header : Header) (isEmpty : Bool)
    {body body' : Run Unit} (hbody : ∀ s, CutShort s (body s) (body' s)) (s : State) :
    CutShort s (headed b number header isEmpty body s)
      (headed b' number header isEmpty body' s) := by
  cases header with
  | rounds count =>
    refine bind (same (roundCount_extends number count s)) fun n s' => ?_
    cases isEmpty with
    | true => exact same (.refl rfl)
    | false => exact repeatBody hb hbody (by omega) 0 s'
  | test subject operator value =>
    refine bind (same (.refl rfl)) fun holds s' => ?_
    cases holds with
    | false => exact same (.refl rfl)
    | true => exact hbody s'

theorem act (hb : b ≤ b') (line : Line) (rest : List Line) {inside inside' : Run Unit}
    (hi : ∀ s, CutShort s (inside s) (inside' s)) (s : State) :
    CutShort s (act b line rest inside s) (act b' line rest inside' s) := by
  unfold Script.act
  cases classifyChars line.text with
  | error fault => exact same (.refl rfl)
  | ok statement =>
    cases statement with
    | simple statement => exact same (runSimple_extends line.number statement s)
    | block header inline =>
      cases inline with
      | some inline => exact headed hb line.number header false (runInline hb line.number inline) s
      | none => exact headed hb line.number header _ hi s

end CutShort

theorem runLines_cutShort {b b' : Int} (hb : b ≤ b') (floor : Nat) (lines : List Line)
    (s : State) : CutShort s (runLines b floor lines s) (runLines b' floor lines s) := by
  induction floor, lines using runLines.induct generalizing s with
  | case1 floor =>
    rw [runLines, runLines]
    exact .same (.refl rfl)
  | case2 floor line rest hs ih =>
    rw [runLines, runLines, if_pos hs, if_pos hs]
    exact ih s
  | case3 floor line rest hs hf =>
    rw [runLines, runLines, if_neg hs, if_neg hs, if_pos hf, if_pos hf]
    exact .same (.refl rfl)
  | case4 floor line rest hs hf ih₁ ih₂ ih₃ =>
    rw [Bool.not_eq_true] at hs
    rw [runLines_line b rest hs hf, runLines_line b' rest hs hf]
    refine .bind (.enter hb line.number line.text s) fun _ s₁ => ?_
    refine .bind (.act hb line rest (fun s => .bind (ih₃ s) fun _ _ => .same (.refl rfl)) s₁)
      fun _ s₂ => ?_
    unfold Line.onward
    split
    · exact ih₂ s₂
    · exact ih₁ s₂

def cutMarker : String := s!"Runtime Error: {runawayMessage}"

namespace Ending

theorem closing_of_runaway {ending : Ending} (h : ending.stop = some .runaway) :
    ending.closing = [cutMarker] := by
  rw [closing, h]
  rfl

/-- Only a run that its budget cuts off does not end with the finish marker. -/
theorem getLast?_output (ending : Ending) :
    ending.output.getLast? = some cutMarker ↔ ending.stop = some .runaway := by
  have hm : finishMarker ≠ cutMarker := by decide
  unfold output closing
  cases ending.stop with
  | none => simp [hm]
  | some stop =>
    cases stop with
    | runaway => simp [cutMarker]
    | failed line cause => simp [hm]

end Ending

theorem run_eq_of_le {b b' : Int} (hb : b ≤ b') {source : String}
    (h : (run b source).stop ≠ some .runaway) : run b' source = run b source := by
  have hc := runLines_cutShort hb 0 (Line.ofSource source) initial
  rw [run_eq] at h ⊢
  rw [run_eq]
  obtain ⟨-, heq | ⟨cut, hcut, -⟩⟩ := hc
  · rw [heq]
  · rw [hcut] at h
    exact absurd rfl h

/-- What a run has put out when it is cut off is put out under a larger budget too. -/
theorem output_prefix_of_le {b b' : Int} (hb : b ≤ b') {source : String}
    (h : (run b source).stop = some .runaway) :
    (run b source).output.dropLast <+: (run b' source).output := by
  have hp : (run b source).state.output.toList <+: (run b' source).state.output.toList := by
    have hc := runLines_cutShort hb 0 (Line.ofSource source) initial
    rw [run_eq, run_eq, Result.ending_state, Result.ending_state]
    obtain ⟨-, heq | ⟨cut, hcut, hlong⟩⟩ := hc
    · exact heq ▸ List.prefix_rfl
    · rw [hcut]
      exact hlong
  rw [Ending.output, Ending.closing_of_runaway h, List.dropLast_concat]
  exact hp.trans (List.prefix_append _ _)

/-- The least budget that suffices, if there is one, is where runs stop being cut off. -/
theorem exists_runaway_iff (source : String) :
    ∃ threshold : ℕ∞, ∀ m : ℕ, (run m source).stop = some .runaway ↔ (m : ℕ∞) < threshold := by
  by_cases hex : ∃ m : ℕ, (run m source).stop ≠ some .runaway
  · classical
    refine ⟨(Nat.find hex : ℕ), fun m => ?_⟩
    rw [Nat.cast_lt]
    constructor
    · intro h
      by_contra hle
      have hb : ((Nat.find hex : ℕ) : Int) ≤ m := by omega
      rw [run_eq_of_le hb (Nat.find_spec hex)] at h
      exact Nat.find_spec hex h
    · intro hlt
      exact not_not.1 (Nat.find_min hex hlt)
  · refine ⟨⊤, fun m => iff_of_true ?_ (ENat.natCast_lt_top m)⟩
    exact not_not.1 (not_exists.1 hex m)

/-- The budget only truncates. Every source has a threshold, which may be
infinite: exactly below it a run ends with the line that says it was cut off;
from it on all runs end alike, in every respect; and but for its last line, the
output of a run that was cut off is where the output of every longer run starts. -/
theorem exists_threshold (source : String) :
    ∃ threshold : ℕ∞, ∀ m : ℕ,
      ((run m source).output.getLast? = some cutMarker ↔ (m : ℕ∞) < threshold) ∧
      (∀ m' : ℕ, threshold ≤ m → threshold ≤ m' → run m source = run m' source) ∧
      (∀ m' : ℕ, m ≤ m' → (m : ℕ∞) < threshold →
        (run m source).output.dropLast <+: (run m' source).output) := by
  obtain ⟨threshold, ht⟩ := exists_runaway_iff source
  refine ⟨threshold, fun m => ⟨?_, ?_, ?_⟩⟩
  · rw [Ending.getLast?_output, ht]
  · intro m' hm hm'
    have h : (run m source).stop ≠ some .runaway := by simpa [ht] using hm
    have h' : (run m' source).stop ≠ some .runaway := by simpa [ht] using hm'
    rcases Nat.le_total m m' with hle | hle
    · exact (run_eq_of_le (by omega) h).symm
    · exact run_eq_of_le (by omega) h'
  · intro m' hle hm
    exact output_prefix_of_le (by omega) ((ht m).2 hm)

end BlockScript.Script
