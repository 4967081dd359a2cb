import BlockScript.Number.Basic
import BlockScript.Text.Blank
import BlockScript.Text.Digit

/-!
# Number text

Number text is an optional sign, digits with an optional point among, before or
after them, and an optional exponent. A numeral without point and exponent is
an integer as long as it keeps to the digit limit; every other numeral is read
as a floating point number.
-/

set_option autoImplicit false

namespace BlockScript

structure Numeral where
  negative : Bool
  whole : List Nat
  fraction : Option (List Nat)
  exponent : Option Int
  deriving DecidableEq, Repr

namespace Numeral

def spanSign : List Char → Bool × List Char
  | '+' :: rest => (false, rest)
  | '-' :: rest => (true, rest)
  | text => (false, text)

def exponent? : List Char → Option (Option Int)
  | [] => some none
  | mark :: rest =>
    if mark = 'e' ∨ mark = 'E' then
      let (negative, digits) := spanSign rest
      match Text.spanDigits digits with
      | ([], _) => none
      | (ds, []) =>
        let size : Int := Text.valueOfDigits ds
        some (some (if negative then -size else size))
      | _ => none
    else none

def parse? (text : List Char) : Option Numeral :=
  let (negative, unsigned) := spanSign text
  let (whole, afterWhole) := Text.spanDigits unsigned
  match afterWhole with
  | '.' :: afterPoint =>
    let (fraction, afterFraction) := Text.spanDigits afterPoint
    if whole.isEmpty && fraction.isEmpty then none
    else do return ⟨negative, whole, some fraction, ← exponent? afterFraction⟩
  | _ =>
    if whole.isEmpty then none
    else do return ⟨negative, whole, none, ← exponent? afterWhole⟩

def isInteger (n : Numeral) : Bool :=
  n.fraction.isNone && n.exponent.isNone && n.whole.length ≤ digitLimit

def integer (n : Numeral) : Int :=
  let size : Int := Text.valueOfDigits n.whole
  if n.negative then -size else size

def decimal (n : Numeral) : Decimal :=
  let fraction := n.fraction.getD []
  ⟨Text.valueOfDigits (n.whole ++ fraction), n.exponent.getD 0 - fraction.length⟩

def value (n : Numeral) : Number :=
  if n.isInteger then .int n.integer else .float (n.decimal.toBinary n.negative)

end Numeral

def isNumberText (text : String) : Bool := (Numeral.parse? (Text.trim text.toList)).isSome

end BlockScript
