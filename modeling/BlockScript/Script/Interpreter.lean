import BlockScript.Script.Line
import BlockScript.Script.Machine

/-!
# Running scripts

Lines are executed from the top. A header without a body on its own line owns
the lines after it that are indented further; execution goes on after them,
however often they were executed. A run ends at the last line, at the first line
that fails, or when it takes more steps than its budget.
-/

set_option autoImplicit false

namespace BlockScript.Script

def runLines (budget : Int) (floor : Nat) (lines : List Line) : Run (List Line) :=
  match lines with
  | [] => pure []
  | line :: rest =>
    if line.isSkippable then runLines budget floor rest
    else if line.indent < floor then pure (line :: rest)
    else do
      countStep budget
      visit line.number line.text
      match classifyChars line.text with
      | .error fault => throw (.failed line.number (.line fault))
      | .ok (.simple statement) =>
        runSimple line.number statement
        runLines budget floor rest
      | .ok (.block (.rounds count) (some inline)) =>
        let count ← roundCount line.number count
        rounds budget count (runInline budget line.number inline)
        runLines budget floor rest
      | .ok (.block (.rounds count) none) =>
        let count ← roundCount line.number count
        if Line.hasBody line.indent rest then
          rounds budget count (do let _ ← runLines budget (line.indent + 1) rest)
        runLines budget floor (Line.afterBody line.indent rest)
      | .ok (.block (.test subject operator value) (some inline)) =>
        if ← testHolds subject operator value then
          runInline budget line.number inline
        runLines budget floor rest
      | .ok (.block (.test subject operator value) none) =>
        if ← testHolds subject operator value then
          let _ ← runLines budget (line.indent + 1) rest
        runLines budget floor (Line.afterBody line.indent rest)
termination_by lines.length
decreasing_by
  all_goals
    have := Line.afterBody_length_le line.indent rest
    simp only [List.length_cons]
    omega

def startMarker : String := "> Starting execution..."

def finishMarker : String := "> Execution finished."

def defaultBudget : Int := 2000

structure Ending where
  state : State
  stop : Option Stop
  deriving Repr

def initial : State := ⟨[], #[startMarker], 0, #[]⟩

def run (budget : Int) (source : String) : Ending :=
  match runLines budget 0 (Line.ofSource source) initial with
  | .ok _ state => ⟨state, none⟩
  | .error stop state => ⟨state, some stop⟩

def runawayMessage : String := "Infinite loop detected (max steps reached)"

namespace Ending

def closing (ending : Ending) : List String :=
  match ending.stop with
  | none => [finishMarker]
  | some .runaway => [s!"Runtime Error: {runawayMessage}"]
  | some (.failed line cause) => [s!"Error on line {line}: {cause.message}", finishMarker]

def output (ending : Ending) : List String := ending.state.output.toList ++ ending.closing

end Ending

end BlockScript.Script
