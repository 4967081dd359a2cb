import BlockScript.Fault
import BlockScript.Number.Decimal

/-!
# Numbers

A number is an integer of any size or a binary floating point number. The two
kinds stay apart in what is shown, but compare exactly with one another.
-/

set_option autoImplicit false

namespace BlockScript

inductive Number where
  | int (n : Int)
  | float (x : Binary64)
  deriving DecidableEq, Repr

namespace Number

def layout : NumberLayout := ⟨-4, 15, 2, "inf", "nan"⟩

def showInt (n : Int) : Except Fault String :=
  if Decimal.digitCount n.natAbs ≤ digitLimit then .ok (toString n) else .error .tooManyDigits

def literal : Number → Except Fault String
  | .int n => showInt n
  | .float x => .ok (layout.write x)

def display : Number → Except Fault String
  | .int n => showInt n
  | .float x =>
    match x.toInt? with
    | some n => showInt n
    | none => .ok (layout.write x)

/-- A place on the number line, in multiples of the least positive magnitude. -/
inductive Place where
  | bottom
  | finite (units : Int)
  | top
  deriving DecidableEq, Repr

def Place.order : Place → Place → Ordering
  | .bottom, .bottom => .eq
  | .bottom, _ => .lt
  | _, .bottom => .gt
  | .top, .top => .eq
  | .top, _ => .gt
  | _, .top => .lt
  | .finite a, .finite b => compare a b

def place? : Number → Option Place
  | .int n => some (.finite (n * Binary64.unity))
  | .float (.finite negative rank) => some (.finite (Binary64.signedUnits negative rank))
  | .float (.infinity negative) => some (if negative then .bottom else .top)
  | .float (.nan _) => none

def order? : Number → Number → Option Ordering
  | .int a, .int b => some (compare a b)
  | x, y => do return (← x.place?).order (← y.place?)

def payload? : Number → Option Nat
  | .float (.nan payload) => some payload
  | _ => none

def isZero (x : Number) : Bool := x.order? (.int 0) == some .eq

def exceeds (limit : Number) (count : Nat) : Bool := order? (.int count) limit == some .lt

/-- The sum, given how an integer becomes a floating point number. Two integers
add exactly; otherwise both become floating point numbers first. -/
def addBy (convert : Int → Option Binary64) : Number → Number → Except Fault Number
  | .int a, .int b => .ok (.int (a + b))
  | .float x, .float y => .ok (.float (x.add y))
  | .int a, .float y =>
    match convert a with
    | some x => .ok (.float (x.add y))
    | none => .error .integerTooLarge
  | .float x, .int b =>
    match convert b with
    | some y => .ok (.float (x.add y))
    | none => .error .integerTooLarge

def add : Number → Number → Except Fault Number := addBy Binary64.ofInt?

end Number

end BlockScript
