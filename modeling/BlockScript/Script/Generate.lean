import BlockScript.Block.Edit
import BlockScript.Value.Basic

/-!
# Scripts from block programs

Each block becomes one line, indented by its depth. Before them come a fixed
opening and one assignment of zero for every variable of the program, so that
no line reads a variable that has no value yet.
-/

set_option autoImplicit false

namespace BlockScript

namespace Script.Generate

def opening : String := "# Generated Python Code\nimport time\n\n# Setup\navatar = Avatar()\n"

def indentation (depth : Nat) : String := String.ofList (List.replicate (4 * depth) ' ')

def printArgument (names : List String) (message : Value) : Except Fault String := do
  let text ← message.display
  return if names.contains text || isNumberText text then text
    else if text.toList.contains '"' then "'" ++ text ++ "'"
    else "\"" ++ text ++ "\""

def bareParam (b : Block) (name : String) : Except Fault String := do (← b.param name).bare

def displayParam (b : Block) (name : String) : Except Fault String := do (← b.param name).display

def conditionText (b : Block) : Except Fault String := do
  let subject ← bareParam b "condition_var"
  let operator ← bareParam b "operator"
  let value ← displayParam b "value"
  return s!"{subject} {operator} {value}"

def lineOf (names : List String) (b : Block) : Except Fault String :=
  match b.kind? with
  | some .start => .ok "# Program Start"
  | some .print => do
    let argument ← printArgument names (← b.param "message")
    return s!"print({argument})"
  | some .wait => do
    let seconds ← displayParam b "seconds"
    return s!"time.sleep({seconds})"
  | some .move => do
    let direction ← bareParam b "direction"
    return s!"avatar.move(\"{direction}\")"
  | some .setVar => do
    let name ← bareParam b "name"
    let value ← displayParam b "value"
    return s!"{name} = {value}"
  | some .changeVar => do
    let name ← bareParam b "name"
    let value ← displayParam b "value"
    return s!"{name} += {value}"
  | some .loop => do
    let times ← displayParam b "times"
    return s!"for i in range({times}):"
  | some .loopUntil => do
    let condition ← conditionText b
    return s!"while not ({condition}):"
  | some .branch => do
    let condition ← conditionText b
    return s!"if {condition}:"
  | none => .ok s!"# Unknown block {b.type}"

mutual

def linesOf (names : List String) (depth : Nat) : Block → Except Fault (List String)
  | ⟨id, type, params, none⟩ => do
    return [indentation depth ++ (← lineOf names ⟨id, type, params, none⟩)]
  | ⟨id, type, params, some inner⟩ => do
    let line ← lineOf names ⟨id, type, params, some inner⟩
    return (indentation depth ++ line) :: (← linesOfAll names (depth + 1) inner)

def linesOfAll (names : List String) (depth : Nat) : List Block → Except Fault (List String)
  | [] => .ok []
  | b :: bs => do
    let lines ← linesOf names depth b
    return lines ++ (← linesOfAll names depth bs)

end

def declarations (names : List String) : String :=
  if names.isEmpty then ""
  else "# Initialize variables\n" ++ String.join (names.map (· ++ " = 0\n"))

end Script.Generate

def Program.toScript (program : Program) : Except Fault String := do
  let names ← program.variableNames
  let lines ← Script.Generate.linesOfAll names 0 program
  return Script.Generate.opening ++ Script.Generate.declarations names ++ "\n" ++
    String.join (lines.map (· ++ "\n"))

end BlockScript
