import BlockScript.Block.Basic
import BlockScript.Value.Comparison

/-!
# The block catalog

Nine kinds of block are known. Each has a word by which programs name it, a
category, a look, the inputs it reads and whether it holds other blocks. A
parameter that a program leaves out has the default of its input.
-/

set_option autoImplicit false

namespace BlockScript

inductive Category where
  | event
  | control
  | action
  | data
  deriving DecidableEq, Repr

def Category.word : Category → String
  | .event => "event"
  | .control => "control"
  | .action => "action"
  | .data => "variable"

inductive InputKind where
  | text
  | number
  | choice
  | name
  deriving DecidableEq, Repr

def InputKind.word : InputKind → String
  | .text => "text"
  | .number => "number"
  | .choice => "select"
  | .name => "variable"

structure Input where
  name : String
  kind : InputKind
  default : Value
  label : Option String
  options : Option (List String)
  deriving Repr

inductive Kind where
  | start
  | loop
  | loopUntil
  | branch
  | print
  | move
  | wait
  | setVar
  | changeVar
  deriving DecidableEq, Repr

namespace Kind

def all : List Kind :=
  [.start, .loop, .loopUntil, .branch, .print, .move, .wait, .setVar, .changeVar]

def word : Kind → String
  | .start => "start"
  | .loop => "repeat"
  | .loopUntil => "repeat_until"
  | .branch => "if"
  | .print => "print"
  | .move => "move"
  | .wait => "wait"
  | .setVar => "set_var"
  | .changeVar => "change_var"

def ofWord? (s : String) : Option Kind := all.find? (fun k => k.word == s)

def category : Kind → Category
  | .start => .event
  | .loop | .loopUntil | .branch => .control
  | .print | .move | .wait => .action
  | .setVar | .changeVar => .data

def label : Kind → String
  | .start => "On Start"
  | .loop => "Repeat"
  | .loopUntil => "Repeat Until"
  | .branch => "If"
  | .print => "Print"
  | .move => "Move Avatar"
  | .wait => "Wait"
  | .setVar => "Set Variable"
  | .changeVar => "Change Variable"

def color : Kind → String
  | .start => "bg-yellow-500"
  | .loop | .loopUntil | .branch => "bg-orange-500"
  | .print | .move => "bg-blue-500"
  | .wait => "bg-blue-400"
  | .setVar | .changeVar => "bg-rose-500"

def icon? : Kind → Option String
  | .start => some "Play"
  | _ => none

def nests : Kind → Bool
  | .loop | .loopUntil | .branch => true
  | _ => false

def directions : List String := ["Forward", "Back", "Left", "Right"]

def conditionInputs : List Input :=
  [⟨"condition_var", .name, .text "score", some "Variable", none⟩,
   ⟨"operator", .choice, .text ">", some "is", some (Comparison.all.map Comparison.symbol)⟩,
   ⟨"value", .number, .int 10, some "Value", none⟩]

def inputs : Kind → List Input
  | .start => []
  | .loop => [⟨"times", .number, .int 3, some "times", none⟩]
  | .loopUntil | .branch => conditionInputs
  | .print => [⟨"message", .text, .text "Hello!", none, none⟩]
  | .move => [⟨"direction", .choice, .text "Forward", none, some directions⟩]
  | .wait => [⟨"seconds", .number, .int 1, some "seconds", none⟩]
  | .setVar =>
    [⟨"name", .name, .text "score", some "Name", none⟩,
     ⟨"value", .number, .int 0, some "to", none⟩]
  | .changeVar =>
    [⟨"name", .name, .text "score", some "Name", none⟩,
     ⟨"value", .number, .int 1, some "by", none⟩]

def input? (kind : Kind) (name : String) : Option Input := kind.inputs.find? (·.name == name)

def defaults (kind : Kind) : List (String × Value) := kind.inputs.map fun i => (i.name, i.default)

def nameInput? : Kind → Option String
  | .setVar | .changeVar => some "name"
  | .branch | .loopUntil => some "condition_var"
  | _ => none

end Kind

namespace Block

def kind? (b : Block) : Option Kind := Kind.ofWord? b.type

def default? (b : Block) (name : String) : Option Value :=
  (b.kind?.bind (·.input? name)).map Input.default

/-- The parameter a block works with: the one it was given, else the default. -/
def param (b : Block) (name : String) : Except Fault Value :=
  match Bindings.get? b.params name with
  | some v => .ok v
  | none =>
    match b.default? name with
    | some v => .ok v
    | none => .error (.missingParameter b.id b.type name)

end Block

end BlockScript
