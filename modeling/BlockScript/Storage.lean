import BlockScript.Block.Decode
import BlockScript.Block.Validation
import BlockScript.Files.Path
import BlockScript.Json.Reader
import BlockScript.Json.Writer
import BlockScript.Text.Utf8

/-!
# Stored programs and scripts

Files hold UTF-8 text. Every kind of line end becomes a line feed, and byte order
marks at the front are dropped. A program is stored as JSON; loading it decodes
the text, the JSON and the blocks, and validates the program if asked to. The
first of these that fails is what is reported.
-/

set_option autoImplicit false

namespace BlockScript

inductive LoadFault where
  | notFound (path : Path)
  | notText (fault : Utf8.DecodeFault)
  | notJson (path : Path) (problem : Json.Located)
  | notProgram (path : Path) (fault : Malformed)
  | invalid (violation : Violation)
  deriving DecidableEq, Repr

def LoadFault.message : LoadFault → String
  | .notFound path => s!"Input file not found: '{path.toText}'."
  | .notText fault => fault.message
  | .notJson path problem =>
    match problem.complaint with
    | .digits count => (Json.Complaint.digits count).message
    | complaint =>
      s!"Invalid JSON in '{path.toText}' at line {problem.line}, column {problem.column}: " ++
        s!"{complaint.message}."
  | .notProgram path fault => s!"Malformed block program in '{path.toText}': {fault.message}"
  | .invalid violation => violation.message

namespace Storage

def unifyLineEnds : List Char → List Char
  | [] => []
  | '\r' :: '\n' :: rest => '\n' :: unifyLineEnds rest
  | c :: rest => (if c = '\r' then '\n' else c) :: unifyLineEnds rest

def byteOrderMark : Char := Char.ofNat 0xfeff

def readText (path : Path) : Option (List UInt8) → Except LoadFault String
  | none => .error (.notFound path)
  | some octets =>
    match Utf8.decode octets with
    | .error fault => .error (.notText fault)
    | .ok text => .ok (String.ofList ((unifyLineEnds text).dropWhile (· == byteOrderMark)))

section

variable (hold : Nat → List Char)

def loadScriptBy (path : Path) (octets : Option (List UInt8)) : Except LoadFault String := do
  let text ← readText path octets
  return String.ofList (text.toList.flatMap fun c => hold c.toNat)

def parseProgram (path : Path) (validate : Bool) (text : String) : Except LoadFault Program :=
  match Json.readBy hold text with
  | .error problem => .error (.notJson path problem)
  | .ok data =>
    match Program.ofValue data with
    | .error fault => .error (.notProgram path fault)
    | .ok program =>
      if validate then
        match program.validate with
        | .error violation => .error (.invalid violation)
        | .ok () => .ok program
      else .ok program

def loadProgramBy (path : Path) (validate : Bool) (octets : Option (List UInt8)) :
    Except LoadFault Program := do
  parseProgram hold path validate (← readText path octets)

end

def loadScript (path : Path) (octets : Option (List UInt8)) : Except LoadFault String :=
  readText path octets

def loadProgram (path : Path) (validate : Bool) (octets : Option (List UInt8)) :
    Except LoadFault Program :=
  loadProgramBy Json.plainHold path validate octets

def programText (program : Program) : Except Fault String := do
  return (← Json.writeTree program.toValue) ++ "\n"

end Storage

end BlockScript
