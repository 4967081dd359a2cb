import BlockScript.Proofs.Script.Indentation
import BlockScript.Proofs.Script.Truncation

/-!
# One script after another

Lines that follow a script and start at the margin belong to no body of it. So
the tree of two scripts, one after the other, is the one tree after the other,
and running both is running the first and going on with the second where the
first has ended. Going on means: with its variables and its count of steps, with
its output in front, and with line numbers that count its lines too. If the first
does not come to its end, nothing of the second is executed.
-/

set_option autoImplicit false

namespace BlockScript

namespace Text

theorem exists_splitOn (separator : Char) (cs : List Char) :
    ∃ part parts, splitOn separator cs = part :: parts := by
  induction cs with
  | nil => exact ⟨[], [], rfl⟩
  | cons c cs ih =>
    obtain ⟨part, parts, hp⟩ := ih
    by_cases hc : c = separator <;> simp [splitOn, hc, hp]

theorem splitOn_append_separator (separator : Char) (cs rest : List Char) :
    splitOn separator (cs ++ separator :: rest) =
      splitOn separator cs ++ splitOn separator rest := by
  induction cs with
  | nil => simp [splitOn]
  | cons c cs ih =>
    rw [List.cons_append, splitOn, splitOn, ih]
    by_cases hc : c = separator
    · simp [hc]
    · obtain ⟨part, parts, hp⟩ := exists_splitOn separator cs
      simp [hc, hp]

end Text

section Boundary

variable {α : Type} {p : α → Bool} {more : List α} (h : ∀ a ∈ more.head?, p a = false)

include h

theorem takeWhile_append_of_head (part : List α) :
    (part ++ more).takeWhile p = part.takeWhile p := by
  induction part with
  | nil => cases more <;> simp_all
  | cons a part ih => by_cases ha : p a <;> simp [ha, ih]

theorem dropWhile_append_of_head (part : List α) :
    (part ++ more).dropWhile p = part.dropWhile p ++ more := by
  induction part with
  | nil => cases more <;> simp_all
  | cons a part ih => by_cases ha : p a <;> simp [ha, ih]

end Boundary

namespace Script

variable {α β γ δ : Type}

def AtMargin (lines : List Line) : Prop := ∀ line ∈ lines.head?, line.indent = 0

theorem forest_append (lines : List Line) {more : List Line} (h : AtMargin more) :
    forest (lines ++ more) = forest lines ++ forest more := by
  have hstop : ∀ indent : Nat, ∀ line ∈ more.head?, decide (indent < line.indent) = false := by
    intro indent line hl
    simp [h line hl]
  induction lines using forest.induct with
  | case1 => simp [forest]
  | case2 line rest fault hc ih => simp [forest, hc, ih]
  | case3 line rest statement hc ih => simp [forest, hc, ih]
  | case4 line rest header inline hc ih => simp [forest, hc, ih]
  | case5 line rest header hc ihBody ihRest =>
    rw [List.cons_append, forest, hc, forest, hc]
    simp only [takeWhile_append_of_head (hstop line.indent),
      dropWhile_append_of_head (hstop line.indent), ihRest, List.cons_append]

theorem evalAll_append (budget : Int) (nodes more : List Node) :
    evalAll budget (nodes ++ more) = (do evalAll budget nodes; evalAll budget more) := by
  induction nodes with
  | nil => simp [evalAll]
  | cons node nodes ih => simp [evalAll, ih]

def runAll (budget : Int) (lines : List Line) : Run Unit := do
  let _ ← runLines budget 0 lines

theorem evalAll_forest (budget : Int) (lines : List Line) :
    evalAll budget (forest (Line.visible lines)) = Process.ofRun (runAll budget lines) := by
  funext s
  have h := Process.lines_eq id budget 0 lines s
  rw [lines_eq_evalAll, Line.takeWhile_belongs_zero] at h
  change Process.bind (evalAll _ _) _ s = _ at h
  change _ = some (EStateM.bind _ _ s)
  unfold Process.bind at h
  unfold EStateM.bind
  cases he : evalAll budget (forest (Line.visible lines)) s with
  | none => simp [he] at h
  | some result =>
    rw [he] at h
    cases result with
    | ok _ s' => rw [← Option.some.inj h]; rfl
    | error stop s' => rw [← Option.some.inj h]

/-- Lines at the margin are executed after all others, if these come to an end. -/
theorem runAll_append (budget : Int) (lines : List Line) {more : List Line}
    (h : AtMargin (Line.visible more)) :
    runAll budget (lines ++ more) = (do runAll budget lines; runAll budget more) := by
  have he := evalAll_forest budget (lines ++ more)
  rw [Line.visible_append, forest_append _ h, evalAll_append, evalAll_forest, evalAll_forest,
    ← Process.ofRun_bind] at he
  funext s
  exact (Option.some.inj (congrFun he s)).symm

theorem run_eq_runAll (budget : Int) (source : String) :
    run budget source = Result.ending (runAll budget (Line.ofSource source) initial) := by
  rw [run_eq, runAll, Run.bind_apply]
  cases runLines budget 0 (Line.ofSource source) initial <;> rfl

def Line.shift (offset : Nat) (line : Line) : Line := { line with number := line.number + offset }

def Stop.shift (offset : Nat) : Stop → Stop
  | .runaway => .runaway
  | .failed line cause => .failed (line + offset) cause

def State.after (before : State) (offset : Nat) (s : State) : State :=
  { s with
    output := before.output ++ s.output
    visited := before.visited ++ s.visited.map fun visit => (visit.1 + offset, visit.2) }

def Result.after (before : State) (offset : Nat) (f : α → β) : Result α → Result β
  | .ok a s => .ok (f a) (before.after offset s)
  | .error stop s => .error (stop.shift offset) (before.after offset s)

/-- The second part of a run does what the first one does, but for line numbers,
and whatever was put out before. -/
def Moves (before : State) (offset : Nat) (f : α → β) (run : Run α) (moved : Run β) : Prop :=
  ∀ s, moved (before.after offset s) = Result.after before offset f (run s)

namespace Moves

variable {before : State} {offset : Nat} {budget : Int}

theorem pure (f : α → β) (a : α) : Moves before offset f (Pure.pure a) (Pure.pure (f a)) :=
  fun _ => rfl

theorem bind {f : α → β} {g : γ → δ} {run : Run α} {moved : Run β} {next : α → Run γ}
    {next' : β → Run δ} (h : Moves before offset f run moved)
    (hn : ∀ a, Moves before offset g (next a) (next' (f a))) :
    Moves before offset g (run >>= next) (moved >>= next') := by
  intro s
  rw [Run.bind_apply, Run.bind_apply, h s]
  cases run s with
  | ok a s' => exact hn a s'
  | error stop s' => rfl

theorem enter (number : Nat) (text : List Char) :
    Moves before offset id (enter budget number text)
      (Script.enter budget (number + offset) text) := by
  intro s
  by_cases hb : budget < (s.steps + 1 : Nat)
  · rw [enter_of_lt hb, enter_of_lt (s := before.after offset s) hb]
    rfl
  · have hle : ((s.steps + 1 : Nat) : Int) ≤ budget := Int.not_lt.mp hb
    rw [enter_of_le hle, enter_of_le (s := before.after offset s) hle]
    simp [Result.after, State.after, State.entered]

theorem runSimple (number : Nat) (statement : Simple) :
    Moves before offset id (runSimple number statement)
      (Script.runSimple (number + offset) statement) := by
  intro s
  have hv : (before.after offset s).vars = s.vars := rfl
  rw [runSimple_apply, runSimple_apply, hv]
  cases statement.change s.vars with
  | error fault => rfl
  | ok change => cases change <;> simp [Result.after, State.after, State.apply]

theorem roundCount (number : Nat) (count : Operand) :
    Moves before offset id (roundCount number count)
      (Script.roundCount (number + offset) count) := by
  intro s
  have hv : (before.after offset s).vars = s.vars := rfl
  rw [roundCount_apply, roundCount_apply, hv]
  cases (resolve s.vars count).toValue.toNumber <;> rfl

theorem runInline (number : Nat) (inline : Inline) :
    Moves before offset id (runInline budget number inline)
      (Script.runInline budget (number + offset) inline) := by
  rw [runInline_eq, runInline_eq]
  exact bind (enter number _) fun _ => runSimple number inline.statement

theorem repeatBody {count : Number} {body body' : Run Unit}
    (hb : Moves before offset id body body') (fuel finished : Nat) :
    Moves before offset id (repeatBody budget count body fuel finished)
      (Script.repeatBody budget count body' fuel finished) := by
  induction fuel generalizing finished with
  | zero =>
    intro s
    by_cases hc : count.exceeds finished
    · rw [repeatBody_of_used_up hc (Or.inl rfl), repeatBody_of_used_up hc (Or.inl rfl)]
      rfl
    · rw [Bool.not_eq_true] at hc
      rw [repeatBody_of_not_exceeds hc, repeatBody_of_not_exceeds hc]
      rfl
  | succ fuel ih =>
    intro s
    by_cases hc : count.exceeds finished
    · by_cases hs : budget < s.steps
      · rw [repeatBody_of_used_up hc (Or.inr hs),
          repeatBody_of_used_up (s := before.after offset s) hc (Or.inr hs)]
        rfl
      · have hle : (s.steps : Int) ≤ budget := Int.not_lt.mp hs
        rw [repeatBody_succ hc hle, repeatBody_succ (s := before.after offset s) hc hle]
        exact bind hb (fun _ => ih (finished + 1)) s
    · rw [Bool.not_eq_true] at hc
      rw [repeatBody_of_not_exceeds hc, repeatBody_of_not_exceeds hc]
      rfl

theorem headed (number : Nat) (header : Header) (isEmpty : Bool) {body body' : Run Unit}
    (hb : Moves before offset id body body') :
    Moves before offset id (headed budget number header isEmpty body)
      (Script.headed budget (number + offset) header isEmpty body') := by
  cases header with
  | rounds count =>
    refine bind (roundCount number count) fun n => ?_
    cases isEmpty with
    | true => exact pure id ()
    | false => exact repeatBody hb _ 0
  | test subject operator value =>
    have ht : Moves before offset id (testHolds subject operator value)
        (testHolds subject operator value) := fun _ => rfl
    refine bind ht fun holds => ?_
    cases holds with
    | true => exact hb
    | false => exact pure id ()

end Moves

namespace Line

theorem numbered_shift (offset n : Nat) (raws : List (List Char)) :
    numbered (n + offset) raws = (numbered n raws).map (shift offset) := by
  induction raws generalizing n with
  | nil => rfl
  | cons raw raws ih =>
    rw [numbered, numbered, Nat.add_right_comm, ih]
    rfl

theorem isWithin_comp_shift (indent offset : Nat) :
    isWithin indent ∘ shift offset = isWithin indent := rfl

theorem afterBody_shift (indent offset : Nat) (rest : List Line) :
    afterBody indent (rest.map (shift offset)) = (afterBody indent rest).map (shift offset) := by
  rw [afterBody, afterBody, List.dropWhile_map, isWithin_comp_shift]

theorem hasBody_shift (indent offset : Nat) (rest : List Line) :
    hasBody indent (rest.map (shift offset)) = hasBody indent rest := by
  rw [hasBody, hasBody, List.takeWhile_map, isWithin_comp_shift, List.any_map]
  rfl

theorem onward_shift (offset : Nat) (line : Line) (rest : List Line) :
    (line.shift offset).onward (rest.map (shift offset)) =
      (line.onward rest).map (shift offset) := by
  have ht : (line.shift offset).text = line.text := rfl
  unfold onward
  rw [ht]
  split
  · exact afterBody_shift line.indent offset rest
  · rfl

end Line

theorem Moves.act {before : State} {offset : Nat} {budget : Int} (line : Line) (rest : List Line)
    {inside inside' : Run Unit} (hi : Moves before offset id inside inside') :
    Moves before offset id (act budget line rest inside)
      (Script.act budget (line.shift offset) (rest.map (Line.shift offset)) inside') := by
  have ht : (line.shift offset).text = line.text := rfl
  have hb : Line.hasBody (line.shift offset).indent (rest.map (Line.shift offset)) =
      Line.hasBody line.indent rest := Line.hasBody_shift line.indent offset rest
  unfold Script.act
  rw [ht, hb]
  cases classifyChars line.text with
  | error fault => exact fun _ => rfl
  | ok statement =>
    cases statement with
    | simple statement => exact runSimple line.number statement
    | block header inline =>
      cases inline with
      | some inline => exact headed line.number header false (runInline line.number inline)
      | none => exact headed line.number header _ hi

/-- Lines that stand further down are executed alike, with their own numbers. -/
theorem runLines_moves (before : State) (offset : Nat) (budget : Int) (floor : Nat)
    (lines : List Line) :
    Moves before offset (List.map (Line.shift offset)) (runLines budget floor lines)
      (runLines budget floor (lines.map (Line.shift offset))) := by
  induction floor, lines using runLines.induct with
  | case1 floor =>
    rw [List.map_nil, runLines]
    exact .pure (List.map (Line.shift offset)) []
  | case2 floor line rest hs ih =>
    have hs' : (line.shift offset).isSkippable = true := hs
    rw [List.map_cons, runLines, runLines, if_pos hs, if_pos hs']
    exact ih
  | case3 floor line rest hs hf =>
    have hs' : ¬ (line.shift offset).isSkippable = true := hs
    have hf' : (line.shift offset).indent < floor := hf
    rw [List.map_cons, runLines, runLines, if_neg hs, if_neg hs', if_pos hf, if_pos hf']
    exact .pure (List.map (Line.shift offset)) (line :: rest)
  | case4 floor line rest hs hf ih₁ ih₂ ih₃ =>
    have hs' : line.isSkippable = false := by simpa using hs
    rw [List.map_cons, runLines_line budget rest hs' hf,
      @runLines_line budget _ (line.shift offset) _ hs' hf, Line.onward_shift]
    refine .bind (.enter line.number line.text) fun _ => ?_
    refine .bind (.act line rest (.bind ih₃ fun _ => .pure id ())) fun _ => ?_
    unfold Line.onward
    split
    · exact ih₂
    · exact ih₁

theorem runAll_moves (before : State) (offset : Nat) (budget : Int) (lines : List Line) :
    Moves before offset id (runAll budget lines)
      (runAll budget (lines.map (Line.shift offset))) :=
  .bind (runLines_moves before offset budget 0 lines) fun _ => .pure id ()

theorem atMargin_shift {lines : List Line} (h : AtMargin (Line.visible lines)) (offset : Nat) :
    AtMargin (Line.visible (lines.map (Line.shift offset))) := by
  have hv : Line.visible (lines.map (Line.shift offset)) =
      (Line.visible lines).map (Line.shift offset) := List.filter_map
  intro line hl
  rw [hv, List.head?_map, Option.mem_map] at hl
  obtain ⟨line', hl', rfl⟩ := hl
  exact h line' hl'

def lineCount (source : String) : Nat := (rawLines source).length

theorem ofSource_append (s t : String) :
    Line.ofSource (s ++ "\n" ++ t) =
      Line.ofSource s ++ (Line.ofSource t).map (Line.shift (lineCount s)) := by
  have ht : (s ++ "\n" ++ t).toList = s.toList ++ '\n' :: t.toList := by
    simp [String.toList_append]
  rw [Line.ofSource, ht, Text.splitOn_append_separator, Line.numbered_append,
    Line.numbered_shift]
  rfl

def runFrom (budget : Int) (vars : Bindings String Datum) (steps : Nat) (source : String) :
    Ending :=
  Result.ending (runAll budget (Line.ofSource source) ⟨vars, #[], steps, #[]⟩)

def Ending.shift (offset : Nat) (ending : Ending) : Ending :=
  { ending with stop := ending.stop.map (Stop.shift offset) }

theorem ending_after (before : State) (offset : Nat) (result : Result Unit) :
    (Result.ending (Result.after before offset id result)).output =
        before.output.toList ++ (result.ending.shift offset).output ∧
      (Result.ending (Result.after before offset id result)).state.vars =
        (result.ending.shift offset).state.vars ∧
      (Result.ending (Result.after before offset id result)).state.steps =
        (result.ending.shift offset).state.steps ∧
      (Result.ending (Result.after before offset id result)).stop =
        (result.ending.shift offset).stop := by
  cases result with
  | ok | error =>
    simp [Result.after, Result.ending, State.after, Ending.output, Ending.shift, Ending.closing]

/-- Scripts compose in sequence, and a failure keeps everything after it from
being executed. The second script has to come to the margin before anything else.
If the first one fails or is cut off, the run of both is the run of the first. If
not, the run of both goes on where the first has ended: it puts out what the
first one has put out, but for the finish marker, and then what the second does
from the variables and the count of steps that the first one leaves; the lines of
the second are counted from the end of the first. -/
theorem run_in_sequence (budget : Int) (s t : String) (ht : AtMargin (visibleLines t)) :
    let first := run budget s
    let both := run budget (s ++ "\n" ++ t)
    (first.stop ≠ none → both = first) ∧
    (first.stop = none →
      let rest := (runFrom budget first.state.vars first.state.steps t).shift (lineCount s)
      ∃ printed, first.output = printed ++ [finishMarker] ∧
        both.output = printed ++ rest.output ∧ both.state.vars = rest.state.vars ∧
        both.state.steps = rest.state.steps ∧ both.stop = rest.stop) := by
  intro first both
  have hboth : both = Result.ending ((do
      runAll budget (Line.ofSource s)
      runAll budget ((Line.ofSource t).map (Line.shift (lineCount s)))) initial) := by
    rw [← runAll_append budget _ (atMargin_shift ht _), ← ofSource_append, ← run_eq_runAll]
  have hfirst : first = Result.ending (runAll budget (Line.ofSource s) initial) :=
    run_eq_runAll budget s
  rw [Run.bind_apply] at hboth
  cases hr : runAll budget (Line.ofSource s) initial with
  | error stop σ =>
    rw [hr] at hboth hfirst
    refine ⟨fun _ => hboth.trans hfirst.symm, fun h => ?_⟩
    rw [hfirst] at h
    cases h
  | ok a σ =>
    rw [hr] at hboth hfirst
    refine ⟨fun h => absurd (by rw [hfirst]; rfl) h, fun _ => ?_⟩
    -- The state that the first script leaves, seen as one that the second starts from.
    have hσ : σ = σ.after (lineCount s) ⟨σ.vars, #[], σ.steps, #[]⟩ := by simp [State.after]
    have hmoved := runAll_moves σ (lineCount s) budget (Line.ofSource t)
      ⟨σ.vars, #[], σ.steps, #[]⟩
    rw [← hσ] at hmoved
    dsimp only at hboth
    rw [hmoved] at hboth
    have hvars : first.state.vars = σ.vars := by rw [hfirst]; rfl
    have hsteps : first.state.steps = σ.steps := by rw [hfirst]; rfl
    rw [hvars, hsteps, hboth]
    exact ⟨σ.output.toList, by rw [hfirst]; rfl, ending_after σ (lineCount s) _⟩

/-- A loop is still open where the first script ends, and the second one starts
with lines that are skipped and fails in its last line, the eighth of both. -/
theorem run_in_sequence_open_loop :
    let s := "n = 1\nfor i in range(2):\n  n += 1\n  # more"
    let t := "    # margin\n\nprint(n)\n  print(n"
    AtMargin (visibleLines t) ∧ (run 100 s).stop = none ∧
      (run 100 (s ++ "\n" ++ t)).output = [startMarker, "> 3",
        "Error on line 8: Expected ')' to close print call: print(n", finishMarker] := by
  intro s t
  have hmargin : AtMargin (visibleLines t) := by
    change ∀ line ∈ (visibleLines t).head?, line.indent = 0
    decide +kernel
  have hstop : (run 100 s).stop = none := by decide +kernel
  obtain ⟨printed, hfirst, hboth, -⟩ := (run_in_sequence 100 s t hmargin).2 hstop
  have hprinted : (run 100 s).output = [startMarker] ++ [finishMarker] := by decide +kernel
  refine ⟨hmargin, hstop, ?_⟩
  rw [hboth, List.append_cancel_right (hfirst.symm.trans hprinted)]
  decide +kernel

end Script

end BlockScript
