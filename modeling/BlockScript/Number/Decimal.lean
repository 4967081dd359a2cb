import BlockScript.Number.Binary64

/-!
# Decimal text of binary numbers

`ofDecimal` reads a decimal to the nearest binary number. `shortest` goes back:
of all decimals that read back as the given number it takes one with the
fewest digits, and of those the nearest. Where no short decimal reads back, the
exact expansion does, so the digits always determine the number.
-/

set_option autoImplicit false

namespace BlockScript

structure Decimal where
  coefficient : Nat
  exponent : Int
  deriving DecidableEq, Repr

namespace Decimal

def unitRatio (d : Decimal) : Nat × Nat :=
  match d.exponent with
  | .ofNat e => (d.coefficient * Nat.pow 10 e * Binary64.unity, 1)
  | .negSucc e => (d.coefficient * Binary64.unity, Nat.pow 10 (e + 1))

def digitCount (n : Nat) : Nat := (Nat.toDigits 10 n).length

/-- The binary number nearest to a signed decimal. Decimals whose leading digit
is far outside the finite range are settled without forming their power of ten. -/
def toBinary (negative : Bool) (d : Decimal) : Binary64 :=
  if d.coefficient = 0 then .zero negative
  else
    let leading : Int := digitCount d.coefficient + d.exponent
    if 310 < leading then .infinity negative
    else if leading < -330 then .zero negative
    else Binary64.ofUnits negative d.unitRatio.1 d.unitRatio.2

/-- How many digits stand before the decimal point of `num / den`; minus the
number of zeros after the point when the quotient is below one tenth. -/
def pointPlace (num den : Nat) : Int :=
  if den ≤ num then digitCount (num / den) else 1 - (digitCount (den / num) : Int)

def readsBack (rank : Nat) (d : Decimal) : Bool :=
  let (num, den) := d.unitRatio
  Binary64.nearestRank num den == rank

/-- Of the two neighbours of a quotient on the grid of an exponent, one that reads
back: the nearer if both do, an exact tie going to the even one. -/
def nearer? (reads : Decimal → Bool) (num den : Nat) (exponent : Int) : Option Decimal :=
  let below : Decimal := ⟨num / den, exponent⟩
  let above : Decimal := ⟨num / den + 1, exponent⟩
  match reads below, reads above with
  | true, true => some ⟨Binary64.roundQuotient num den, exponent⟩
  | true, false => some below
  | false, true => some above
  | false, false => none

def onGrid? (rank : Nat) (exponent : Int) : Option Decimal :=
  let units := Binary64.magnitude rank
  match exponent with
  | .ofNat e => nearer? (readsBack rank) units (Binary64.unity * Nat.pow 10 e) exponent
  | .negSucc e => nearer? (readsBack rank) (units * Nat.pow 10 (e + 1)) Binary64.unity exponent

def exact (rank : Nat) : Decimal := ⟨Binary64.magnitude rank * Nat.pow 5 1074, -1074⟩

def shortest (rank : Nat) : Decimal :=
  let place := pointPlace (Binary64.magnitude rank) Binary64.unity
  ((List.range 17).findSome? fun n => onGrid? rank (place - (n + 1 : Nat))).getD (exact rank)

def significant (d : Decimal) : List Char :=
  ((Nat.toDigits 10 d.coefficient).reverse.dropWhile (· == '0')).reverse

def point (d : Decimal) : Int := digitCount d.coefficient + d.exponent

end Decimal

/-- How a binary number is written: where positional notation ends, how the
exponent is marked, and the words for what is not finite. -/
structure NumberLayout where
  lowestExponent : Int
  highestExponent : Int
  exponentWidth : Nat
  infinity : String
  nan : String

namespace NumberLayout

def padLeft (width : Nat) (digits : List Char) : List Char :=
  List.replicate (width - digits.length) '0' ++ digits

def positional (digits : List Char) (point : Int) : List Char :=
  if point ≤ 0 then '0' :: '.' :: (List.replicate (-point).toNat '0' ++ digits)
  else
    let whole := point.toNat
    if digits.length ≤ whole then
      digits ++ List.replicate (whole - digits.length) '0' ++ ['.', '0']
    else digits.take whole ++ '.' :: digits.drop whole

def scientific (layout : NumberLayout) (digits : List Char) (exponent : Int) : List Char :=
  let mantissa :=
    match digits with
    | first :: second :: rest => first :: '.' :: second :: rest
    | short => short
  let sign := if exponent < 0 then '-' else '+'
  mantissa ++ 'e' :: sign :: padLeft layout.exponentWidth (Nat.toDigits 10 exponent.natAbs)

def writeMagnitude (layout : NumberLayout) (rank : Nat) : List Char :=
  if rank = 0 then ['0', '.', '0']
  else
    let d := Decimal.shortest rank
    let exponent := d.point - 1
    if layout.lowestExponent ≤ exponent ∧ exponent ≤ layout.highestExponent then
      positional d.significant d.point
    else layout.scientific d.significant exponent

def write (layout : NumberLayout) : Binary64 → String
  | .finite negative rank =>
    String.ofList (if negative then '-' :: layout.writeMagnitude rank else layout.writeMagnitude rank)
  | .infinity negative => if negative then "-" ++ layout.infinity else layout.infinity
  | .nan _ => layout.nan

end NumberLayout

end BlockScript
