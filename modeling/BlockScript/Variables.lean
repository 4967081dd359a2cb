import BlockScript.Value.Comparison

/-!
# Variables of block programs

A block names a variable by any value that is neither a list nor a record.
Names that compare equal as numbers are one name: the truth values are one and
zero, and a whole floating point number is its integer. What is not a number
equals nothing, and as a name it is known by its payload. The spelling that came
first stays.
-/

set_option autoImplicit false

namespace BlockScript

inductive VarName where
  | null
  | bool (b : Bool)
  | number (n : Number)
  | text (s : String)
  deriving Repr

namespace VarName

def ofValue : Value → Except Fault VarName
  | .null => .ok .null
  | .bool b => .ok (.bool b)
  | .number n => .ok (.number n)
  | .text s => .ok (.text s)
  | v => .error (.notName v.kind)

def toValue : VarName → Value
  | .null => .null
  | .bool b => .bool b
  | .number n => .number n
  | .text s => .text s

def number? : VarName → Option Number
  | .bool b => some (.int (if b then 1 else 0))
  | .number n => some n
  | _ => none

def same : VarName → VarName → Bool
  | .null, .null => true
  | .text s, .text t => s == t
  | a, b =>
    match a.number?, b.number? with
    | some x, some y =>
      x.order? y == some .eq || (x.payload?.isSome && x.payload? == y.payload?)
    | _, _ => false

instance : BEq VarName := ⟨same⟩

end VarName

structure Condition where
  subject : VarName
  operator : Value
  value : Value
  deriving Repr

namespace Condition

def holds (condition : Condition) (bound : Option Value) : Bool :=
  (bound.getD (.int 0)).holds condition.operator condition.value

end Condition

end BlockScript
