import BlockScript.Command.Arguments
import BlockScript.Command.Log
import BlockScript.Files.Folder
import BlockScript.Script.Generate
import BlockScript.Storage

/-!
# Performing commands

A command turns the octets of its input file into a report: what it prints, its
notes, how it ended, and a file it asks to be written. The engine may run
forever, so stepping has a limit from outside; a report made before the limit
does not depend on it.
-/

set_option autoImplicit false

namespace BlockScript.Command

structure Report where
  out : String
  notes : Array Note
  deriving Repr

namespace Report

def empty : Report := ⟨"", #[]⟩

def print (report : Report) (line : String) : Report :=
  { report with out := report.out ++ line ++ "\n" }

def write (report : Report) (text : String) : Report := { report with out := report.out ++ text }

def add (report : Report) (notes : List Note) : Report :=
  { report with notes := notes.foldl Array.push report.notes }

end Report

inductive Lacking where
  | path
  | budget
  deriving DecidableEq, Repr

def Lacking.message : Lacking → String
  | .path => "'list' object has no attribute 'parent'"
  | .budget => "'>' not supported between instances of 'int' and 'list'"

/-- How a command ended. -/
inductive Verdict where
  | done
  /-- It ran to its end, and what it ran has failed; the text says so if the
  output does not. -/
  | failed (error : Option String)
  | writes (path : Path) (text : String)
  | lacks (what : Lacking)
  deriving DecidableEq, Repr

def jsonName : VarName → Except Fault String
  | .null => .ok "null"
  | .bool b => .ok (if b then "true" else "false")
  | .number n => Json.writeNumber n
  | .text s => .ok s

def optionalText (s : Option String) : Value := (s.map Value.text).getD .null

def stateRecord (e : Engine) : Except Fault Value := do
  let vars ← e.store.vars.mapM fun (name, n) => do
    return (← jsonName name, Value.number n)
  return .record
    [("variables", .record vars),
     ("consoleOutput", .list (e.store.console.toList.map .text)),
     ("currentBlockId", optionalText e.current?),
     ("isRunning", .bool e.isRunning),
     ("isFinished", .bool e.isFinished),
     ("error", optionalText (e.fault?.map Fault.message))]

def stepLines (json : Bool) (shown : Nat) (e : Engine) : Except Fault (List String) :=
  if json then do return [← Json.writeLine (← stateRecord e)]
  else
    let heading := (e.current?.map fun id => s!"[{id}]").toList
    let fresh := (e.store.console.extract shown e.store.console.size).toList
    .ok (heading ++ fresh.map fun line => s!"    {line}")

def stepAll (json : Bool) : Nat → Nat → Engine → Report → Report × Except Fault Engine
  | 0, _, e, report => (report, .ok e)
  | limit + 1, shown, e, report =>
    if e.isTerminal then (report, .ok e)
    else
      let (next, events) := e.advance
      let report := report.add (events.flatMap Note.ofEvent)
      match stepLines json shown next with
      | .error fault => (report, .error fault)
      | .ok lines =>
        let shown := next.store.console.size
        stepAll json limit shown next (lines.foldl Report.print report)

def variablesLine (e : Engine) : Except Fault String := do
  let parts ← e.store.vars.mapM fun (name, n) => do
    let left ← name.toValue.bare
    return left ++ "=" ++ (← n.literal)
  let shown := if parts.isEmpty then "(none)" else ", ".intercalate parts
  return s!"variables: {shown}"

def stepProgram (json : Bool) (limit : Nat) (program : Program) (report : Report) :
    Report × Verdict :=
  match stepAll json limit 0 (.start program) report with
  | (report, .error fault) => (report, .failed (some fault.message))
  | (report, .ok e) =>
    let verdict :=
      match e.fault? with
      | some fault => .failed (some fault.message)
      | none => .done
    if json then (report, verdict)
    else
      match variablesLine e with
      | .error fault => (report, .failed (some fault.message))
      | .ok line => (report.print line, verdict)

def tellsFailure (line : String) : Bool :=
  Text.startsWith "Runtime Error:".toList line.toList ||
    Text.startsWith "Error on line".toList line.toList

def printOutput (output : List String) (report : Report) : Report × Verdict :=
  (output.foldl Report.print report, if output.any tellsFailure then .failed none else .done)

def runScript (budget : Option Int) (source : String) (report : Report) : Report × Verdict :=
  if budget.isNone && (Script.Line.ofSource source).any (!·.isSkippable) then
    (report, .lacks .budget)
  else
    let ending := Script.run (budget.getD 0) source
    printOutput ending.output (report.add (Note.ofEnding ending))

def perform (limit : Nat) (request : Request) (octets : Option (List UInt8)) :
    Report × Verdict :=
  let path := request.input
  let settings := request.settings
  match request.verb with
  | .run =>
    match Storage.loadScript path octets with
    | .error fault => (.empty, .failed (some fault.message))
    | .ok source => runScript settings.maxSteps source .empty
  | verb =>
    match Storage.loadProgram path settings.validate octets with
    | .error fault => (.empty, .failed (some fault.message))
    | .ok program =>
      let report := Report.empty.add [Note.loaded program path]
      match verb with
      | .step => stepProgram settings.json limit program report
      | _ =>
        match program.toScript with
        | .error fault => (report, .failed (some fault.message))
        | .ok script =>
          match verb, settings.output with
          | .convert, .screen => (report.write script, .done)
          | .convert, .file target => (report, .writes target script)
          | .convert, .unnamed => (report, .lacks .path)
          | _, _ => runScript settings.maxSteps script report

inductive Ending where
  | exit (code : Nat)
  | broken (fault : FileFault)
  | lacking (what : Lacking)
  deriving DecidableEq, Repr

structure Outcome where
  ending : Ending
  out : String
  err : String
  folder : Folder
  deriving Repr

def conclude (verbose : Bool) (folder : Folder) (performed : Report × Verdict) : Outcome :=
  let (report, verdict) := performed
  let log := Note.renderAll verbose report.notes.toList
  match verdict with
  | .done => ⟨.exit 0, report.out, log, folder⟩
  | .failed none => ⟨.exit 1, report.out, log, folder⟩
  | .failed (some message) => ⟨.exit 1, report.out, s!"{log}error: {message}\n", folder⟩
  | .writes target text =>
    match folder.write target (Utf8.encode text) with
    | .ok after => ⟨.exit 0, report.out, log, after⟩
    | .error .holdsNull =>
      ⟨.exit 1, report.out, s!"{log}error: {FileFault.holdsNull.message}\n", folder⟩
    | .error fault => ⟨.broken fault, report.out, log, folder⟩
  | .lacks what => ⟨.lacking what, report.out, log, folder⟩

def runIn (limit : Nat) (args : List String) (folder : Folder) : Outcome :=
  match read args with
  | .error halt => ⟨.exit halt.exit, halt.out, halt.err, folder⟩
  | .ok request =>
    match folder.read request.input with
    | .error fault => ⟨.broken fault, "", "", folder⟩
    | .ok octets => conclude request.settings.verbose folder (perform limit request octets)

end BlockScript.Command
