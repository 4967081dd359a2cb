import BlockScript.Proofs.Script.Budget

/-!
# The indentation tree of a script

A header without a body on its own line owns the lines after it that are
indented further; every other line stands alone. The tree is read off the lines
once, and its evaluator follows it without looking at indentation again. A run
of the script, which reads the lines anew in every round, does what the
evaluator does.
-/

set_option autoImplicit false

namespace BlockScript.Script

inductive Action where
  | fails (fault : LineFault)
  | simple (statement : Simple)
  | inline (header : Header) (body : Inline)

inductive Node where
  | leaf (line : Line) (action : Action)
  | owner (line : Line) (header : Header) (body : List Node)

def Line.visible (lines : List Line) : List Line := lines.filter (!·.isSkippable)

def forest (lines : List Line) : List Node :=
  match lines with
  | [] => []
  | line :: rest =>
    match classifyChars line.text with
    | .error fault => .leaf line (.fails fault) :: forest rest
    | .ok (.simple statement) => .leaf line (.simple statement) :: forest rest
    | .ok (.block header (some inline)) => .leaf line (.inline header inline) :: forest rest
    | .ok (.block header none) =>
      .owner line header (forest (rest.takeWhile (line.indent < ·.indent))) ::
        forest (rest.dropWhile (line.indent < ·.indent))
termination_by lines.length
decreasing_by
  all_goals
    have h₁ := (List.takeWhile_sublist (line.indent < ·.indent) (l := rest)).length_le
    have h₂ := (List.dropWhile_sublist (line.indent < ·.indent) (l := rest)).length_le
    simp only [List.length_cons]
    omega

noncomputable def Header.eval (number : Nat) (isEmpty : Bool) (body : Process Unit) :
    Header → Process Unit
  | .rounds count => do
    let count ← Process.ofRun (roundCount number count)
    if isEmpty then pure () else Process.whileBelow count body 0
  | .test subject operator value => do
    if ← Process.ofRun (testHolds subject operator value) then body

noncomputable def Action.eval (budget : Int) (number : Nat) : Action → Process Unit
  | .fails fault => Process.ofRun (throw (.failed number (.line fault)))
  | .simple statement => Process.ofRun (runSimple number statement)
  | .inline header body =>
    header.eval number false (Process.ofRun (runInline budget number body))

mutual

noncomputable def Node.eval (budget : Int) : Node → Process Unit
  | .leaf line action => do
    Process.ofRun (enter budget line.number line.text)
    action.eval budget line.number
  | .owner line header body => do
    Process.ofRun (enter budget line.number line.text)
    header.eval line.number body.isEmpty (evalAll budget body)

noncomputable def evalAll (budget : Int) : List Node → Process Unit
  | [] => pure ()
  | node :: rest => do
    node.eval budget
    evalAll budget rest

end

noncomputable def runForest (budget : Int) (source : String) : Option Ending :=
  (evalAll budget (forest (Line.visible (Line.ofSource source))) initial).map Result.ending

namespace Process

theorem guarded_id (budget : Int) (body : Process Unit) : guarded id budget body = body := by
  funext s
  unfold guarded
  split <;> rfl

theorem headed_id (budget : Int) (number : Nat) (header : Header) (isEmpty : Bool)
    (body : Process Unit) :
    headed id budget number header isEmpty body = header.eval number isEmpty body := by
  cases header with
  | rounds count => simp only [headed, Header.eval, guarded_id]
  | test subject operator value => rfl

end Process

namespace Line

theorem numbered_append (n : Nat) (raws more : List (List Char)) :
    numbered n (raws ++ more) = numbered n raws ++ numbered (n + raws.length) more := by
  induction raws generalizing n with
  | nil => rfl
  | cons raw raws ih =>
    rw [List.cons_append, numbered, ih, numbered, List.length_cons, Nat.add_right_comm,
      Nat.add_assoc]
    rfl

theorem visible_append (lines more : List Line) :
    visible (lines ++ more) = visible lines ++ visible more := List.filter_append lines more

theorem visible_cons_of_skippable {line : Line} (h : line.isSkippable = true)
    (rest : List Line) : visible (line :: rest) = visible rest := by
  simp [visible, h]

theorem visible_cons {line : Line} (h : line.isSkippable = false) (rest : List Line) :
    visible (line :: rest) = line :: visible rest := by
  simp [visible, h]

variable {floor d : Nat}

theorem belongs_mono (h : floor ≤ d) {line : Line} (hl : belongs d line = true) :
    belongs floor line = true := by
  simp only [belongs, Bool.or_eq_true, decide_eq_true_eq] at hl ⊢
  exact hl.imp id fun hd => Nat.le_trans h hd

/-- The body of a line is the run of visible lines that are indented further. -/
theorem takeWhile_visible (h : floor ≤ d) (lines : List Line) :
    (visible (lines.takeWhile (belongs floor))).takeWhile (d < ·.indent) =
      visible (lines.takeWhile (belongs (d + 1))) := by
  induction lines with
  | nil => rfl
  | cons line rest ih =>
    cases hs : line.isSkippable with
    | true => simpa [belongs, visible, hs] using ih
    | false =>
      by_cases hd : d < line.indent
      · have hf : floor ≤ line.indent := by omega
        have hd' : d + 1 ≤ line.indent := hd
        simpa [belongs, visible, hs, hf, hd, hd'] using ih
      · have hd' : ¬ d + 1 ≤ line.indent := hd
        by_cases hf : floor ≤ line.indent <;> simp [belongs, visible, hs, hf, hd, hd']

/-- What follows the body of a line, read before or after lines are skipped. -/
theorem dropWhile_visible (h : floor ≤ d) (lines : List Line) :
    (visible (lines.takeWhile (belongs floor))).dropWhile (d < ·.indent) =
      visible ((lines.dropWhile (belongs (d + 1))).takeWhile (belongs floor)) := by
  induction lines with
  | nil => rfl
  | cons line rest ih =>
    cases hs : line.isSkippable with
    | true => simpa [belongs, visible, hs] using ih
    | false =>
      by_cases hd : d < line.indent
      · have hf : floor ≤ line.indent := by omega
        have hd' : d + 1 ≤ line.indent := hd
        simpa [belongs, visible, hs, hf, hd, hd'] using ih
      · have hd' : ¬ d + 1 ≤ line.indent := hd
        by_cases hf : floor ≤ line.indent <;> simp [belongs, visible, hs, hf, hd, hd']

theorem dropWhile_dropWhile (h : floor ≤ d) (lines : List Line) :
    (lines.dropWhile (belongs (d + 1))).dropWhile (belongs floor) =
      lines.dropWhile (belongs floor) := by
  induction lines with
  | nil => rfl
  | cons line rest ih =>
    cases hb : belongs (d + 1) line with
    | true =>
      have hf : belongs floor line = true := belongs_mono (by omega) hb
      rw [List.dropWhile_cons_of_pos hb, List.dropWhile_cons_of_pos hf, ih]
    | false => rw [List.dropWhile_cons_of_neg (by simp [hb])]

theorem takeWhile_belongs_zero (lines : List Line) : lines.takeWhile (belongs 0) = lines := by
  induction lines with
  | nil => rfl
  | cons line rest ih => rw [List.takeWhile_cons_of_pos (by simp [belongs]), ih]

end Line

theorem forest_isEmpty (lines : List Line) : (forest lines).isEmpty = lines.isEmpty := by
  cases lines with
  | nil => rw [forest]; rfl
  | cons line rest =>
    rw [forest]
    split <;> rfl

theorem hasBody_eq (indent : Nat) (rest : List Line) :
    Line.hasBody indent rest =
      !(forest (Line.visible (rest.takeWhile (Line.belongs (indent + 1))))).isEmpty := by
  rw [forest_isEmpty, Line.hasBody, Line.isWithin_eq]
  generalize rest.takeWhile (Line.belongs (indent + 1)) = lines
  induction lines with
  | nil => rfl
  | cons line rest ih =>
    cases hs : line.isSkippable with
    | true => simpa [Line.visible, hs] using ih
    | false => simp [Line.visible, hs]

/-- Reading lines as a process and evaluating their tree come to the same. -/
theorem lines_eq_evalAll (budget : Int) (floor : Nat) (lines : List Line) :
    Process.lines id budget floor lines = (do
      evalAll budget (forest (Line.visible (lines.takeWhile (Line.belongs floor))))
      pure (lines.dropWhile (Line.belongs floor))) := by
  induction floor, lines using runLines.induct with
  | case1 floor =>
    rw [Process.lines]
    simp [Line.visible, forest, evalAll]
  | case2 floor line rest hs ih =>
    rw [Process.lines, if_pos hs, ih]
    simp [Line.belongs, Line.visible, hs]
  | case3 floor line rest hs hf =>
    have hn : ¬ floor ≤ line.indent := by omega
    rw [Process.lines, if_neg hs, if_pos hf]
    simp [Line.belongs, Line.visible, hs, hn, forest, evalAll]
  | case4 floor line rest hs hf ih₁ ih₂ ih₃ =>
    have hn : floor ≤ line.indent := Nat.not_lt.mp hf
    have hb : Line.belongs floor line = true := by simp [Line.belongs, hn]
    have hv : Line.visible (line :: rest.takeWhile (Line.belongs floor)) =
        line :: Line.visible (rest.takeWhile (Line.belongs floor)) := by
      simp [Line.visible, hs]
    rw [Process.lines, if_neg hs, if_neg hf, List.takeWhile_cons_of_pos hb,
      List.dropWhile_cons_of_pos hb, hv, forest, ih₃]
    unfold Process.act Line.onward
    cases classifyChars line.text with
    | error fault => simp [evalAll, Node.eval, Action.eval, ih₁]
    | ok statement =>
      cases statement with
      | simple statement => simp [evalAll, Node.eval, Action.eval, ih₁]
      | block header inline =>
        cases inline with
        | some inline => simp [evalAll, Node.eval, Action.eval, Process.headed_id, ih₁]
        | none =>
          rw [Line.afterBody, Line.isWithin_eq, Line.dropWhile_dropWhile hn rest] at ih₂
          simp [evalAll, Node.eval, Process.headed_id, Line.takeWhile_visible hn,
            Line.dropWhile_visible hn, hasBody_eq, ih₂, Line.afterBody, Line.isWithin_eq]

/-- The evaluator has no bound on rounds, but it always ends, and as the run does. -/
theorem exists_evalAll (budget : Int) (source : String) :
    ∃ result, evalAll budget (forest (Line.visible (Line.ofSource source))) initial = some result ∧
      run budget source = Result.ending result := by
  have h := Process.lines_eq id budget 0 (Line.ofSource source) initial
  rw [lines_eq_evalAll, Line.takeWhile_belongs_zero] at h
  change Process.bind (evalAll _ _) _ initial = _ at h
  unfold Process.bind at h
  cases he : evalAll budget (forest (Line.visible (Line.ofSource source))) initial with
  | none =>
    rw [he] at h
    cases h
  | some result =>
    rw [he] at h
    refine ⟨result, rfl, ?_⟩
    rw [run_eq]
    cases result with
    | ok _ s => rw [← Option.some.inj h]; rfl
    | error stop s => rw [← Option.some.inj h]; rfl

/-- A run does what the evaluator of the indentation tree does: it ends in the
same way and leaves the same variables, output and count. -/
theorem run_eq_runForest (budget : Int) (source : String) :
    runForest budget source = some (run budget source) := by
  obtain ⟨result, he, hr⟩ := exists_evalAll budget source
  rw [runForest, he, hr]
  rfl

end BlockScript.Script
