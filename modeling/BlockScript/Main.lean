import BlockScript.Command.Perform

/-!
# The command line tool

Reads the arguments and the input file, performs the command, and prints what it
reports.
-/

set_option autoImplicit false

open BlockScript BlockScript.Command

def readInput (path : Path) : IO (Option (List UInt8)) := do
  try
    let octets ← IO.FS.readBinFile path.toText
    return some octets.toList
  catch _ => return none

def writeOutput (path : Path) (text : String) : IO Unit := do
  IO.FS.createDirAll path.parent.toText
  IO.FS.writeFile path.toText text

def stepLimit : Nat := Nat.pow 2 62

def finish (out err : String) (code : Nat) : IO UInt32 := do
  IO.print out
  IO.eprint err
  return code.toUInt32

def main (args : List String) : IO UInt32 := do
  match read args with
  | .error halt => finish halt.out halt.err halt.exit
  | .ok request =>
    let (report, verdict) := perform stepLimit request (← readInput request.input)
    let log := Note.renderAll request.settings.verbose report.notes.toList
    match verdict with
    | .done => finish report.out log 0
    | .failed none => finish report.out log 1
    | .failed (some message) => finish report.out s!"{log}error: {message}\n" 1
    | .writes target text =>
      writeOutput target text
      finish report.out log 0
    | .lacks what => finish report.out s!"{log}{what.message}\n" 1
