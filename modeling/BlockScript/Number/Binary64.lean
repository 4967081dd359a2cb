/-!
# Binary floating point numbers

A finite number is known by its sign and its rank: the place of its magnitude
among all finite magnitudes, counted upward from zero. Ranks below `2^52` are
the subnormal magnitudes and every further `2^52` ranks share one power of two.
Every finite magnitude is a whole multiple of the least one, `2^-1074`, so sums
and comparisons are exact integer arithmetic followed by a single rounding. What
is not a number has a payload, which no arithmetic depends on.
-/

set_option autoImplicit false

namespace BlockScript

abbrev rankCount : Nat := 2047 * Nat.pow 2 52

inductive Binary64 where
  | finite (negative : Bool) (rank : Fin rankCount)
  | infinity (negative : Bool)
  | nan (payload : Nat)
  deriving DecidableEq, Repr

namespace Binary64

def magnitude (rank : Nat) : Nat :=
  if rank < Nat.pow 2 52 then rank
  else (Nat.pow 2 52 + rank % Nat.pow 2 52) * Nat.pow 2 (rank / Nat.pow 2 52 - 1)

def unity : Nat := Nat.pow 2 1074

theorem unity_pos : 0 < unity := by
  unfold unity
  generalize 1074 = n
  exact Nat.two_pow_pos n

def roundQuotient (num den : Nat) : Nat :=
  let whole := num / den
  let twice := 2 * (num % den)
  if twice < den then whole
  else if den < twice then whole + 1
  else whole + whole % 2

/-- The rank nearest to `num / den` multiples of `2^-1074`. A significand that
rounds up to the next power of two carries into the following rank range by itself. -/
def nearestRank (num den : Nat) : Nat :=
  let shift := Nat.log2 (num / den) - 52
  shift * Nat.pow 2 52 + roundQuotient num (den * Nat.pow 2 shift)

def ofUnits (negative : Bool) (num den : Nat) : Binary64 :=
  if h : nearestRank num den < rankCount then .finite negative ⟨nearestRank num den, h⟩
  else .infinity negative

def signedUnits (negative : Bool) (rank : Nat) : Int :=
  if negative then -(magnitude rank : Int) else magnitude rank

def zero (negative : Bool) : Binary64 := .finite negative ⟨0, by decide⟩

def add : Binary64 → Binary64 → Binary64
  | .nan payload, _ => .nan payload
  | _, .nan payload => .nan payload
  | .infinity a, .infinity b => if a = b then .infinity a else .nan 0
  | .infinity a, .finite _ _ => .infinity a
  | .finite _ _, .infinity b => .infinity b
  | .finite a r, .finite b s =>
    let sum := signedUnits a r + signedUnits b s
    if sum = 0 then zero (a && b) else ofUnits (sum < 0) sum.natAbs 1

def finite? : Binary64 → Option Binary64
  | .finite negative rank => some (.finite negative rank)
  | _ => none

def ofInt? (n : Int) : Option Binary64 := (ofUnits (n < 0) (n.natAbs * unity) 1).finite?

def toInt? : Binary64 → Option Int
  | .finite negative rank =>
    if magnitude rank % unity = 0 then
      let whole : Int := (magnitude rank / unity : Nat)
      some (if negative then -whole else whole)
    else none
  | _ => none

end Binary64

end BlockScript
