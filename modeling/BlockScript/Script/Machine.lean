import BlockScript.Bindings
import BlockScript.Script.Statement
import BlockScript.Value.Comparison

/-!
# The state of a running script

A script keeps variables, which hold numbers or text, and an output of lines. A
simple statement gives one variable a value, adds one line of output or does
nothing, and does none of these if it fails. Every line that is about to be
executed counts as a step.
-/

set_option autoImplicit false

namespace BlockScript.Script

inductive Datum where
  | number (n : Number)
  | text (s : String)
  deriving DecidableEq, Repr

namespace Datum

def toValue : Datum → Value
  | .number n => .number n
  | .text s => .text s

def display : Datum → Except Fault String
  | .number n => n.display
  | .text s => .ok s

def add : Datum → Datum → Except Fault Datum
  | .number m, .number n => do return .number (← m.add n)
  | a, b => do
    let left ← a.display
    return .text (left ++ (← b.display))

end Datum

inductive Cause where
  | line (fault : LineFault)
  | value (fault : Fault)
  deriving DecidableEq, Repr

def Cause.message : Cause → String
  | .line fault => fault.message
  | .value fault => fault.message

inductive Stop where
  | runaway
  | failed (line : Nat) (cause : Cause)
  deriving DecidableEq, Repr

structure State where
  vars : Bindings String Datum
  output : Array String
  steps : Nat
  visited : Array (Nat × String)
  deriving Repr

/-- A part of a run: it ends with a result or stops the whole run, and either
way leaves a state. -/
abbrev Run (α : Type) := EStateM Stop State α

def resolve (vars : Bindings String Datum) : Operand → Datum
  | .number n => .number n
  | .text s => .text s
  | .name name => (vars.get? name).getD (.text name)

/-- What executing a simple statement comes to. -/
inductive Change where
  | nothing
  | say (line : String)
  | put (name : String) (d : Datum)
  deriving DecidableEq, Repr

def displayAll (vars : Bindings String Datum) (args : List Operand) :
    Except Fault (List String) :=
  args.mapM fun arg => (resolve vars arg).display

def Simple.change (vars : Bindings String Datum) : Simple → Except Fault Change
  | .assign name value => .ok (.put name (resolve vars value))
  | .increase name value => do
    let current := (vars.get? name).getD (.number (.int 0))
    return .put name (← current.add (resolve vars value))
  | .print args => do return .say (" ".intercalate (← displayAll vars args))
  | .trace text => .ok (.say s!"Executing: {text}")
  | .inert _ => .ok .nothing

def State.apply (s : State) : Change → State
  | .nothing => s
  | .say line => { s with output := s.output.push ("> " ++ line) }
  | .put name d => { s with vars := s.vars.put name d }

def countStep (budget : Int) : Run Unit := do
  modify fun s => { s with steps := s.steps + 1 }
  if budget < (← get).steps then throw .runaway

def visit (number : Nat) (text : List Char) : Run Unit :=
  modify fun s => { s with visited := s.visited.push (number, String.ofList text) }

def orFail {α : Type} (line : Nat) : Except Fault α → Run α
  | .ok a => pure a
  | .error fault => throw (.failed line (.value fault))

def runSimple (line : Nat) (statement : Simple) : Run Unit := do
  let change ← orFail line (statement.change (← get).vars)
  modify fun s => s.apply change

def runInline (budget : Int) (line : Nat) (inline : Inline) : Run Unit := do
  countStep budget
  visit line inline.text.toList
  runSimple line inline.statement

def roundCount (line : Nat) (count : Operand) : Run Number := do
  orFail line (resolve (← get).vars count).toValue.toNumber

def testHolds (subject : Operand) (operator : String) (value : Operand) : Run Bool := do
  let vars := (← get).vars
  return (resolve vars subject).toValue.holds (.text operator)
    (resolve vars value).toValue

/-- Runs a body while the number of finished rounds is below the count. Every
round takes at least one step, so there are never more rounds than fuel when
the fuel is above the budget. -/
def repeatBody (budget : Int) (count : Number) (body : Run Unit) : Nat → Nat → Run Unit
  | fuel, finished =>
    if count.exceeds finished then
      match fuel with
      | 0 => throw .runaway
      | fuel + 1 => do
        if budget < (← get).steps then throw .runaway
        body
        repeatBody budget count body fuel (finished + 1)
    else pure ()

def rounds (budget : Int) (count : Number) (body : Run Unit) : Run Unit :=
  repeatBody budget count body (budget.toNat + 1) 0

end BlockScript.Script
