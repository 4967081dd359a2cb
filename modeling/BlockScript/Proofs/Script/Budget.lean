import BlockScript.Proofs.Script.Process

/-!
# The step budget contains every run

Every line that is executed counts before it does anything, and a loop only
goes round over something that counts. So the count bounds the rounds of every
loop, whatever its own count says, the output never outgrows the count, and a
round never starts with the budget used up.
-/

set_option autoImplicit false

namespace BlockScript.Script

variable {α β : Type}

def Stop.excess : Stop → Nat
  | .runaway => 1
  | .failed _ _ => 0

/-- A part of a run counts at least so many steps and passes the budget by one
at most, and then only to stop. Its lines of output are paid for by its steps and
by steps counted for it before; what stops a run pays without saying anything. -/
def Contained (budget : Int) (least credit : Nat) (s : State) : Result α → Prop
  | .ok _ s' =>
    s.steps + least ≤ s'.steps ∧ (s.steps < s'.steps → (s'.steps : Int) ≤ budget) ∧
      s'.output.size + s.steps ≤ s.output.size + s'.steps + credit
  | .error stop s' =>
    s.steps ≤ s'.steps ∧ (s'.steps : Int) ≤ max (s.steps : Int) budget + stop.excess ∧
      s'.output.size + s.steps + 1 ≤ s.output.size + s'.steps + credit

namespace Contained

variable {budget : Int} {s : State}

theorem bind {run : Run α} {next : α → Run β} {l m c d : Nat}
    (h : Contained budget l c s (run s))
    (hn : ∀ a s', run s = .ok a s' → Contained budget m d s' (next a s')) :
    Contained budget (l + m) (c + d) s ((run >>= next) s) := by
  rw [Run.bind_apply]
  cases hr : run s with
  | error stop s' =>
    rw [hr] at h
    simp only [Contained] at h ⊢
    omega
  | ok a s' =>
    have h' := hn a s' hr
    rw [hr] at h
    dsimp only
    cases hx : next a s' with
    | ok b s'' =>
      rw [hx] at h'
      simp only [Contained] at h h' ⊢
      omega
    | error stop s'' =>
      rw [hx] at h'
      simp only [Contained] at h h' ⊢
      omega

theorem weaken {r : Result α} {l m c d : Nat} (h : Contained budget l c s r) (hl : m ≤ l)
    (hc : c ≤ d) : Contained budget m d s r := by
  cases r <;> simp only [Contained] at h ⊢ <;> omega

theorem unchanged (a : α) : Contained budget 0 0 s (.ok a s) := by
  simp only [Contained]
  omega

/-- A text that is entered pays for one line of output of what follows it. -/
theorem enter {number : Nat} {text : List Char} {next : Unit → Run α} {l : Nat}
    (h : ((s.entered number text).steps : Int) ≤ budget →
      Contained budget l 1 (s.entered number text) (next () (s.entered number text))) :
    Contained budget (l + 1) 0 s ((enter budget number text >>= next) s) := by
  rw [Run.bind_apply]
  by_cases hb : budget < (s.steps + 1 : Nat)
  · rw [enter_of_lt hb]
    simp only [Contained, Stop.excess]
    omega
  · have hle : ((s.steps + 1 : Nat) : Int) ≤ budget := by omega
    have hn := h hle
    rw [enter_of_le hle]
    dsimp only
    cases hx : next () (s.entered number text) with
    | ok a s' =>
      rw [hx] at hn
      simp only [Contained, State.entered] at hn ⊢
      omega
    | error stop s' =>
      rw [hx] at hn
      simp only [Contained, State.entered] at hn ⊢
      omega

theorem runSimple (number : Nat) (statement : Simple) :
    Contained budget 0 1 s (runSimple number statement s) := by
  rw [runSimple_apply]
  cases statement.change s.vars with
  | error fault =>
    simp only [Contained, Stop.excess]
    omega
  | ok change =>
    cases change <;> simp only [Contained, State.apply, Array.size_push] <;> omega

/-- A statement on the line of its header counts, so every round over it does. -/
theorem runInline (number : Nat) (inline : Inline) :
    Contained budget 1 0 s (runInline budget number inline s) := by
  rw [runInline_eq]
  exact enter fun _ => runSimple number inline.statement

/-- Rounds that count stay within the budget: there is fuel for all of them, and
none of them starts with the budget used up. -/
theorem repeatBody {count : Number} {body : Run Unit}
    (hb : ∀ s, Contained budget 1 0 s (body s)) (fuel finished : Nat) {s : State}
    (hs : (s.steps : Int) ≤ budget) (hf : budget < fuel + s.steps) :
    Contained budget 0 0 s (repeatBody budget count body fuel finished s) := by
  induction fuel generalizing finished s with
  | zero => omega
  | succ fuel ih =>
    cases hc : count.exceeds finished with
    | false =>
      rw [repeatBody_of_not_exceeds hc]
      exact unchanged ()
    | true =>
      rw [repeatBody_succ hc hs]
      refine weaken (bind (hb s) fun _ s' hr => ih (finished + 1) ?_ ?_) (Nat.zero_le _)
        (Nat.le_refl _)
      · have h := hb s
        rw [hr] at h
        exact h.2.1 (by have := h.1; omega)
      · have h := hb s
        rw [hr] at h
        have := h.1
        omega

theorem roundCount (number : Nat) (count : Operand) :
    Contained budget 0 1 s (roundCount number count s) := by
  rw [roundCount_apply]
  split <;> simp only [Contained, Stop.excess] <;> omega

theorem headed {number : Nat} {header : Header} {isEmpty : Bool} {body : Run Unit}
    (hs : (s.steps : Int) ≤ budget)
    (hb : ∀ s, Contained budget (if isEmpty then 0 else 1) 0 s (body s)) :
    Contained budget 0 1 s (headed budget number header isEmpty body s) := by
  cases header with
  | rounds count =>
    refine bind (m := 0) (d := 0) (roundCount number count) fun n s' hr => ?_
    have hs' : s' = s := by
      rw [roundCount_apply] at hr
      split at hr <;> cases hr
      rfl
    subst hs'
    cases isEmpty with
    | true => exact unchanged ()
    | false => exact repeatBody hb _ _ hs (by omega)
  | test subject operator value =>
    refine weaken (bind (m := 0) (d := 0) (unchanged _) fun holds s' hr => ?_) (Nat.le_refl _)
      (Nat.zero_le _)
    cases holds with
    | false => exact unchanged ()
    | true => exact weaken (hb s') (Nat.zero_le _) (Nat.le_refl _)

theorem discard {run : Run α} {l c : Nat} (h : Contained budget l c s (run s)) :
    Contained budget l c s ((do let _ ← run) s) :=
  bind (m := 0) (d := 0) h fun _ _ _ => unchanged ()

theorem act {line : Line} {rest : List Line} {inside : Run Unit}
    (hs : (s.steps : Int) ≤ budget)
    (hi : ∀ s, Contained budget (Line.hasBody line.indent rest).toNat 0 s (inside s)) :
    Contained budget 0 1 s (act budget line rest inside s) := by
  unfold Script.act
  cases classifyChars line.text with
  | error fault =>
    change Contained budget 0 1 s (EStateM.Result.error (Stop.failed _ _) s)
    simp only [Contained, Stop.excess]
    omega
  | ok statement =>
    cases statement with
    | simple statement => exact runSimple line.number statement
    | block header inline =>
      cases inline with
      | some inline => exact headed hs fun s => runInline line.number inline
      | none =>
        apply headed hs
        intro s
        have h := hi s
        cases hb : Line.hasBody line.indent rest with
        | false => rwa [hb] at h
        | true => rwa [hb] at h

end Contained

/-- Every part of a run is contained, and it counts if it has a line to execute. -/
theorem runLines_contained (budget : Int) (floor : Nat) (lines : List Line) (s : State) :
    Contained budget (Line.anyFrom floor lines).toNat 0 s (runLines budget floor lines s) := by
  induction floor, lines using runLines.induct generalizing s with
  | case1 floor =>
    rw [runLines]
    exact .unchanged []
  | case2 floor line rest hs ih =>
    rw [runLines, if_pos hs, Line.anyFrom_of_skippable hs]
    exact ih s
  | case3 floor line rest hs hf =>
    rw [Bool.not_eq_true] at hs
    rw [runLines, if_neg (by simp [hs]), if_pos hf, Line.anyFrom_of_lt hs hf]
    exact .unchanged (line :: rest)
  | case4 floor line rest hs hf ih₁ ih₂ ih₃ =>
    rw [Bool.not_eq_true] at hs
    rw [runLines_line budget rest hs hf, Line.anyFrom_of_ge hs hf]
    refine .enter (l := 0) fun he => ?_
    refine .weaken (.bind (m := 0) (d := 0) (.act he fun s => .discard (ih₃ s)) fun _ s' _ => ?_)
      (Nat.le_refl _) (Nat.le_refl _)
    have honward : ∀ s, Contained budget 0 0 s (runLines budget floor (line.onward rest) s) := by
      intro s
      unfold Line.onward
      split
      · exact .weaken (ih₂ s) (Nat.zero_le _) (Nat.le_refl _)
      · exact .weaken (ih₁ s) (Nat.zero_le _) (Nat.le_refl _)
    exact honward s'

namespace Process

variable {budget : Int} {s : State} (exhausted : Process Unit → Process Unit)

theorem bind_eq {run : Run α} {p : Process α} {next : α → Run β} {q : α → Process β}
    (hp : p s = some (run s))
    (hq : ∀ a s', run s = .ok a s' → q a s' = some (next a s')) :
    (p >>= q) s = some ((run >>= next) s) := by
  change Process.bind p q s = _
  rw [Run.bind_apply]
  unfold Process.bind
  rw [hp]
  cases hr : run s with
  | ok a s' => exact hq a s' hr
  | error stop s' => rfl

/-- The loop without a bound makes the rounds of the loop with one, and what it
would do with the budget used up does not matter. -/
theorem whileBelow_eq {count : Number} {body : Run Unit} {p : Process Unit}
    (hp : ∀ s, p s = some (body s)) (hb : ∀ s, Contained budget 1 0 s (body s))
    (fuel finished : Nat) (hs : (s.steps : Int) ≤ budget) (hf : budget < fuel + s.steps) :
    whileBelow count (guarded exhausted budget p) finished s =
      some (repeatBody budget count body fuel finished s) := by
  induction fuel generalizing finished s with
  | zero => omega
  | succ fuel ih =>
    cases hc : count.exceeds finished with
    | false => rw [whileBelow_of_not_exceeds hc, repeatBody_of_not_exceeds hc]
    | true =>
      rw [whileBelow_of_exceeds hc, repeatBody_succ hc hs]
      apply bind_eq
      · rw [guarded, if_neg (by omega), hp s]
      · intro a s' hr
        have h := hb s
        rw [hr] at h
        have hlt := h.1
        exact ih (finished + 1) (h.2.1 (by omega)) (by omega)

theorem headed_eq {number : Nat} {header : Header} {isEmpty : Bool} {body : Run Unit}
    {p : Process Unit} (hs : (s.steps : Int) ≤ budget) (hp : ∀ s, p s = some (body s))
    (hb : ∀ s, Contained budget (if isEmpty then 0 else 1) 0 s (body s)) :
    headed exhausted budget number header isEmpty p s =
      some (Script.headed budget number header isEmpty body s) := by
  cases header with
  | rounds count =>
    refine bind_eq rfl fun n s' hr => ?_
    have hs' : s' = s := by
      rw [roundCount_apply] at hr
      split at hr <;> cases hr
      rfl
    subst hs'
    cases isEmpty with
    | true => rfl
    | false => exact whileBelow_eq exhausted hp hb _ _ hs (by omega)
  | test subject operator value =>
    refine bind_eq rfl fun holds s' _ => ?_
    cases holds with
    | false => rfl
    | true => exact hp s'

theorem act_eq {line : Line} {rest : List Line} {inside : Run Unit} {p : Process Unit}
    (hs : (s.steps : Int) ≤ budget) (hp : ∀ s, p s = some (inside s))
    (hi : ∀ s, Contained budget (Line.hasBody line.indent rest).toNat 0 s (inside s)) :
    act exhausted budget line rest p s = some (Script.act budget line rest inside s) := by
  unfold act Script.act
  cases classifyChars line.text with
  | error fault => rfl
  | ok statement =>
    cases statement with
    | simple statement => rfl
    | block header inline =>
      cases inline with
      | some inline => exact headed_eq exhausted hs (fun _ => rfl) fun s => .runInline _ _
      | none =>
        apply headed_eq exhausted hs hp
        intro s
        have h := hi s
        cases hb : Line.hasBody line.indent rest with
        | false => rwa [hb] at h
        | true => rwa [hb] at h

/-- The interpreter without a bound on rounds always ends, and it ends as a run
does, whatever it would do in a round that starts with the budget used up. -/
theorem lines_eq (budget : Int) (floor : Nat) (lines : List Line) (s : State) :
    Process.lines exhausted budget floor lines s = some (runLines budget floor lines s) := by
  induction floor, lines using runLines.induct generalizing s with
  | case1 floor => rw [Process.lines, runLines]; rfl
  | case2 floor line rest hs ih =>
    rw [Process.lines, runLines, if_pos hs, if_pos hs]
    exact ih s
  | case3 floor line rest hs hf =>
    rw [Process.lines, runLines, if_neg hs, if_neg hs, if_pos hf, if_pos hf]
    rfl
  | case4 floor line rest hs hf ih₁ ih₂ ih₃ =>
    rw [Process.lines, if_neg hs, if_neg hf, runLines_line budget rest (by simpa using hs) hf]
    refine bind_eq rfl fun _ s₁ he => bind_eq ?_ fun _ s₂ _ => ?_
    · have hs₁ : (s₁.steps : Int) ≤ budget := by
        by_cases hb : budget < (s.steps + 1 : Nat)
        · rw [enter_of_lt hb] at he
          cases he
        · rw [enter_of_le (by omega)] at he
          cases he
          exact Int.not_lt.mp hb
      exact act_eq exhausted hs₁ (fun s => bind_eq (ih₃ s) fun _ _ _ => rfl)
        fun s => .discard (runLines_contained budget _ _ s)
    · unfold Line.onward
      split
      · exact ih₂ s₂
      · exact ih₁ s₂

end Process

theorem steps_lt_of_round {budget : Int} {line : Line} {rest after : List Line} {s s' : State}
    (hb : Line.hasBody line.indent rest = true)
    (h : runLines budget (line.indent + 1) rest s = .ok after s') : s.steps < s'.steps := by
  have hc := runLines_contained budget (line.indent + 1) rest s
  rw [h, show Line.anyFrom (line.indent + 1) rest = true from hb] at hc
  exact hc.1

theorem steps_lt_of_inline {budget : Int} {number : Nat} {inline : Inline} {s s' : State}
    (h : runInline budget number inline s = .ok () s') : s.steps < s'.steps := by
  have hc : Contained budget 1 0 s (runInline budget number inline s) := .runInline number inline
  rw [h] at hc
  exact hc.1

theorem steps_le_state (budget : Int) (floor : Nat) (lines : List Line) (s : State) :
    s.steps ≤ (Result.state (runLines budget floor lines s)).steps := by
  have hc := runLines_contained budget floor lines s
  cases hr : runLines budget floor lines s with
  | ok after s' =>
    rw [hr] at hc
    exact Nat.le_trans (Nat.le_add_right _ _) hc.1
  | error stop s' =>
    rw [hr] at hc
    exact hc.1

theorem run_eq (budget : Int) (source : String) :
    run budget source = Result.ending (runLines budget 0 (Line.ofSource source) initial) := by
  unfold run Result.ending
  cases runLines budget 0 (Line.ofSource source) initial <;> rfl

theorem run_steps_le (budget : Int) (source : String) :
    ((run budget source).state.steps : Int) ≤ max budget 0 + 1 := by
  have hc := runLines_contained budget 0 (Line.ofSource source) initial
  rw [run_eq]
  cases hr : runLines budget 0 (Line.ofSource source) initial with
  | ok after s' =>
    rw [hr] at hc
    simp only [Contained, initial, Result.ending] at hc ⊢
    omega
  | error stop s' =>
    rw [hr] at hc
    have he : stop.excess ≤ 1 := by cases stop <;> simp [Stop.excess]
    simp only [Contained, initial, Result.ending] at hc ⊢
    omega

theorem Ending.output_length (ending : Ending) :
    ending.output.length = ending.state.output.size + ending.closing.length := by
  rw [output, List.length_append, Array.length_toList]

theorem run_output_length_le (budget : Int) (source : String) :
    ((run budget source).output.length : Int) ≤ max budget 0 + 2 := by
  have hc := runLines_contained budget 0 (Line.ofSource source) initial
  rw [run_eq, Ending.output_length]
  cases hr : runLines budget 0 (Line.ofSource source) initial with
  | ok after s' =>
    rw [hr] at hc
    simp only [Contained, initial, List.size_toArray, List.length_singleton] at hc
    simp only [Result.ending, Ending.closing, List.length_singleton]
    omega
  | error stop s' =>
    rw [hr] at hc
    have hl : (Result.ending (EStateM.Result.error stop s' : Result (List Line))).closing.length +
        stop.excess = 2 := by cases stop <;> rfl
    simp only [Contained, initial, List.size_toArray, List.length_singleton] at hc
    change ((s'.output.size + _ : Nat) : Int) ≤ _
    omega

/-- Runaway containment. The interpreter without a bound on rounds ends, and as
the run does, whatever it would do in a round that starts with the budget used
up: no round ever does. Rounds count, the count never goes down and stays within
one of the budget, and so does the number of lines put out, but for the two that
open and close the output. -/
theorem run_contained (budget : Int) (source : String) :
    (∀ exhausted, Process.lines exhausted budget 0 (Line.ofSource source) initial =
      some (runLines budget 0 (Line.ofSource source) initial)) ∧
    (∀ (line : Line) (rest after : List Line) (s s' : State),
      Line.hasBody line.indent rest = true →
      runLines budget (line.indent + 1) rest s = .ok after s' → s.steps < s'.steps) ∧
    (∀ (number : Nat) (inline : Inline) (s s' : State),
      runInline budget number inline s = .ok () s' → s.steps < s'.steps) ∧
    (∀ (floor : Nat) (lines : List Line) (s : State),
      s.steps ≤ (Result.state (runLines budget floor lines s)).steps) ∧
    ((run budget source).state.steps : Int) ≤ max budget 0 + 1 ∧
    ((run budget source).output.length : Int) ≤ max budget 0 + 2 := by
  refine ⟨?_, ?_, ?_, ?_, run_steps_le budget source, run_output_length_le budget source⟩
  · intro exhausted
    exact Process.lines_eq exhausted budget 0 _ initial
  · intro line rest after s s' hb h
    exact steps_lt_of_round hb h
  · intro number inline s s' h
    exact steps_lt_of_inline h
  · exact steps_le_state budget

end BlockScript.Script
