import BlockScript.Engine.Step
import BlockScript.Files.Path
import BlockScript.Script.Interpreter

/-!
# The log of a command

Loading, stepping and running leave notes. Warnings are always shown, the other
notes only on demand.
-/

set_option autoImplicit false

namespace BlockScript.Command

inductive Level where
  | debug
  | warning
  deriving DecidableEq, Repr

structure Note where
  level : Level
  source : String
  text : String
  deriving DecidableEq, Repr

namespace Note

def render (note : Note) : String :=
  match note.level with
  | .debug => s!"DEBUG {note.source}: {note.text}\n"
  | .warning => s!"WARNING {note.source}: {note.text}\n"

def isShown (verbose : Bool) (note : Note) : Bool := verbose || note.level == .warning

def renderAll (verbose : Bool) (notes : List Note) : String :=
  String.join ((notes.filter (isShown verbose)).map render)

def loaded (program : Program) (path : Path) : Note :=
  ⟨.debug, "loader", s!"Loaded {program.length} top-level block(s) from {path.toText}"⟩

def bindingsText (vars : Bindings VarName Number) : Except Fault String := do
  let parts ← vars.mapM fun (name, n) => do
    let left ← name.toValue.literal
    return left ++ ": " ++ (← n.literal)
  return "\x7b" ++ ", ".intercalate parts ++ "\x7d"

def ofEvent : Event → List Note
  | .left depth => [⟨.debug, "runtime", s!"Popped frame, stack depth {depth}"⟩]
  | .executing id type => [⟨.debug, "runtime", s!"Executing block '{id}' ({type})"⟩]
  | .ignored type => [⟨.debug, "runtime", s!"Ignoring unknown block type '{type}'"⟩]
  | .opened blocks depth =>
    [⟨.debug, "runtime", s!"Pushed frame over {blocks} block(s), stack depth {depth}"⟩]
  | .failed id type fault =>
    [⟨.warning, "runtime", s!"Block '{id}' ({type}) failed: {fault.message}"⟩]
  | .finished vars =>
    match bindingsText vars with
    | .ok text => [⟨.debug, "runtime", s!"Program finished with variables {text}"⟩]
    | .error _ => []

def ofVisit (visit : Nat × String) : Note :=
  ⟨.debug, "interpreter", s!"line {visit.1}: {visit.2}"⟩

def ofEnding (ending : Script.Ending) : List Note :=
  let visits := ending.state.visited.toList.map ofVisit
  match ending.stop with
  | none => visits
  | some .runaway =>
    visits ++ [⟨.warning, "interpreter",
      s!"Script stopped after {ending.state.steps} steps: {Script.runawayMessage}"⟩]
  | some (.failed line cause) =>
    visits ++ [⟨.warning, "interpreter", s!"Script aborted on line {line}: {cause.message}"⟩]

end Note

end BlockScript.Command
