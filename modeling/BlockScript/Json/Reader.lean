import BlockScript.Value.Basic

/-!
# Reading JSON

The reader goes through a text once and names the first place where it stops
being JSON. A place is given by the characters that are left there, so that
every step returns what it has not read. Records keep the order in which their
names first came; a repeated name keeps its first place and its last value.
The words `NaN`, `Infinity` and `-Infinity` are numbers.

A code escape can name a lone surrogate, which is no character. So a text is read
as its code points, and how characters are to hold them is given from outside.
-/

set_option autoImplicit false

namespace BlockScript.Json

inductive Complaint where
  | value
  | name
  | colon
  | comma
  | unclosedText
  | control
  | escape
  | codeEscape
  | extra
  | digits (count : Nat)
  deriving DecidableEq, Repr

namespace Complaint

def message : Complaint → String
  | .value => "Expecting value"
  | .name => "Expecting property name enclosed in double quotes"
  | .colon => "Expecting ':' delimiter"
  | .comma => "Expecting ',' delimiter"
  | .unclosedText => "Unterminated string starting at"
  | .control => "Invalid control character at"
  | .escape => "Invalid \\escape"
  | .codeEscape => "Invalid \\uXXXX escape"
  | .extra => "Extra data"
  | .digits count =>
    "Exceeds the limit (4300 digits) for integer string conversion: value has " ++
      s!"{count} digits; use sys.set_int_max_str_digits() to increase the limit"

end Complaint

/-- A complaint about the place where `left` characters remain. -/
structure Problem where
  complaint : Complaint
  left : Nat
  deriving DecidableEq, Repr

def complain {α : Type} (complaint : Complaint) (rest : List Char) : Except Problem α :=
  .error ⟨complaint, rest.length⟩

def isSpace (c : Char) : Bool := c == ' ' || c == '\t' || c == '\n' || c == '\r'

def skipSpace (cs : List Char) : List Char := cs.dropWhile isSpace

def hexDigit? (c : Char) : Option Nat :=
  if '0' ≤ c ∧ c ≤ '9' then some (c.toNat - '0'.toNat)
  else if 'a' ≤ c ∧ c ≤ 'f' then some (c.toNat - 'a'.toNat + 10)
  else if 'A' ≤ c ∧ c ≤ 'F' then some (c.toNat - 'A'.toNat + 10)
  else none

def codeUnit? : List Char → Option (Nat × List Char)
  -- A code with nothing behind it is refused, as it cannot be inside a closed text.
  | a :: b :: c :: d :: next :: rest => do
    let value := ((← hexDigit? a) * 16 + (← hexDigit? b)) * 256 +
      ((← hexDigit? c) * 16 + (← hexDigit? d))
    return (value, next :: rest)
  | _ => none

def isHighSurrogate (n : Nat) : Bool := 0xd800 ≤ n && n < 0xdc00

def isLowSurrogate (n : Nat) : Bool := 0xdc00 ≤ n && n < 0xe000

def joinSurrogates (high low : Nat) : Nat :=
  0x10000 + (high - 0xd800) * 0x400 + (low - 0xdc00)

/-- The code point of a code escape, given what follows its letter `u`. Two
escapes that spell a surrogate pair make one code point; a surrogate that no other
goes with is a code point by itself. -/
def readCode (cs : List Char) : Except Problem (Nat × List Char) :=
  match codeUnit? cs with
  | none => .error ⟨.codeEscape, cs.length + 1⟩
  | some (high, rest) =>
    match rest with
    | '\\' :: 'u' :: after =>
      if isHighSurrogate high && 4 < after.length then
        match codeUnit? after with
        | none => .error ⟨.codeEscape, after.length + 1⟩
        | some (low, rest') =>
          if isLowSurrogate low then .ok (joinSurrogates high low, rest')
          else .ok (high, rest)
      else .ok (high, rest)
    | _ => .ok (high, rest)

def simpleEscape? : Char → Option Char
  | '"' => some '"'
  | '\\' => some '\\'
  | '/' => some '/'
  | 'b' => some (Char.ofNat 8)
  | 'f' => some (Char.ofNat 12)
  | 'n' => some '\n'
  | 'r' => some '\r'
  | 't' => some '\t'
  | _ => none

def readText (opened : Nat) : Nat → List Char → Except Problem (List Nat × List Char)
  | 0, _ => .error ⟨.unclosedText, opened⟩
  | fuel + 1, cs =>
    match cs with
    | [] => .error ⟨.unclosedText, opened⟩
    | '"' :: rest => .ok ([], rest)
    | ['\\'] => .error ⟨.unclosedText, opened⟩
    | '\\' :: 'u' :: rest => do
      let (code, after) ← readCode rest
      let (text, final) ← readText opened fuel after
      return (code :: text, final)
    | '\\' :: mark :: rest =>
      match simpleEscape? mark with
      | none => .error ⟨.escape, rest.length + 2⟩
      | some c => do
        let (text, final) ← readText opened fuel rest
        return (c.toNat :: text, final)
    | c :: rest =>
      if c.toNat < 0x20 then complain .control (c :: rest)
      else do
        let (text, final) ← readText opened fuel rest
        return (c.toNat :: text, final)

def isAsciiDigit (c : Char) : Bool := '0' ≤ c && c ≤ '9'

def asciiDigits (cs : List Char) : List Nat × List Char :=
  ((cs.takeWhile isAsciiDigit).map (fun c => c.toNat - '0'.toNat), cs.dropWhile isAsciiDigit)

def readFraction (cs : List Char) : Option (List Nat) × List Char :=
  match cs with
  | '.' :: rest =>
    match asciiDigits rest with
    | ([], _) => (none, cs)
    | (digits, after) => (some digits, after)
  | _ => (none, cs)

def readExponent (cs : List Char) : Option Int × List Char :=
  match cs with
  | mark :: rest =>
    if mark = 'e' ∨ mark = 'E' then
      let (negative, unsigned) := Numeral.spanSign rest
      match asciiDigits unsigned with
      | ([], _) => (none, cs)
      | (digits, after) =>
        let size : Int := Text.valueOfDigits digits
        (some (if negative then -size else size), after)
    else (none, cs)
  | [] => (none, cs)

def readWhole (cs : List Char) : Option (List Nat × List Char) :=
  match cs with
  | '0' :: rest => some ([0], rest)
  | _ =>
    match asciiDigits cs with
    | ([], _) => none
    | found => some found

def readNumber (cs : List Char) : Except Problem (Number × List Char) :=
  let (negative, unsigned) : Bool × List Char :=
    match cs with
    | '-' :: rest => (true, rest)
    | _ => (false, cs)
  match readWhole unsigned with
  | none => complain .value cs
  | some (whole, afterWhole) =>
    let (fraction, afterFraction) := readFraction afterWhole
    let (exponent, rest) := readExponent afterFraction
    let numeral : Numeral := ⟨negative, whole, fraction, exponent⟩
    if fraction.isNone && exponent.isNone && digitLimit < whole.length then
      complain (.digits whole.length) cs
    else .ok (numeral.value, rest)

section

variable (hold : Nat → List Char)

def readString (cs : List Char) : Except Problem (String × List Char) := do
  let (text, rest) ← readText (cs.length + 1) (cs.length + 1) cs
  return (String.ofList (text.flatMap hold), rest)

mutual

def readValue : Nat → List Char → Except Problem (Value × List Char)
  | 0, cs => complain .value cs
  | fuel + 1, cs =>
    match cs with
    | '"' :: rest => do
      let (text, after) ← readString hold rest
      return (.text text, after)
    | '\x7b' :: rest =>
      match skipSpace rest with
      | '\x7d' :: after => .ok (.record [], after)
      | inside => do
        let (fields, after) ← readFields fuel inside
        return (.record (Bindings.update [] fields), after)
    | '[' :: rest =>
      match skipSpace rest with
      | ']' :: after => .ok (.list [], after)
      | inside => do
        let (items, after) ← readItems fuel inside
        return (.list items, after)
    | 'n' :: 'u' :: 'l' :: 'l' :: rest => .ok (.null, rest)
    | 't' :: 'r' :: 'u' :: 'e' :: rest => .ok (.bool true, rest)
    | 'f' :: 'a' :: 'l' :: 's' :: 'e' :: rest => .ok (.bool false, rest)
    | 'N' :: 'a' :: 'N' :: rest => .ok (.number (.float (.nan 0)), rest)
    | 'I' :: 'n' :: 'f' :: 'i' :: 'n' :: 'i' :: 't' :: 'y' :: rest =>
      .ok (.number (.float (.infinity false)), rest)
    | '-' :: 'I' :: 'n' :: 'f' :: 'i' :: 'n' :: 'i' :: 't' :: 'y' :: rest =>
      .ok (.number (.float (.infinity true)), rest)
    | _ => do
      let (number, rest) ← readNumber cs
      return (.number number, rest)

def readItems : Nat → List Char → Except Problem (List Value × List Char)
  | 0, cs => complain .value cs
  | fuel + 1, cs => do
    let (item, rest) ← readValue fuel cs
    match skipSpace rest with
    | ']' :: after => return ([item], after)
    | ',' :: next => do
      let (items, after) ← readItems fuel (skipSpace next)
      return (item :: items, after)
    | other => complain .comma other

def readFields : Nat → List Char → Except Problem (List (String × Value) × List Char)
  | 0, cs => complain .name cs
  | fuel + 1, cs =>
    match cs with
    | '"' :: opened => do
      let (name, rest) ← readString hold opened
      match skipSpace rest with
      | ':' :: afterColon => do
        let (value, afterValue) ← readValue fuel (skipSpace afterColon)
        match skipSpace afterValue with
        | '\x7d' :: after => return ([(name, value)], after)
        | ',' :: next => do
          let (fields, after) ← readFields fuel (skipSpace next)
          return ((name, value) :: fields, after)
        | other => complain .comma other
      | other => complain .colon other
    | _ => complain .name cs

end

def readChars (cs : List Char) : Except Problem Value := do
  -- Each value or separator uses up characters, so fuel of twice their number is enough.
  let (value, rest) ← readValue hold (2 * cs.length + 1) (skipSpace cs)
  match skipSpace rest with
  | [] => return value
  | other => complain .extra other

end

structure Located where
  complaint : Complaint
  line : Nat
  column : Nat
  deriving DecidableEq, Repr

def position (before : List Char) : Nat × Nat :=
  (before.count '\n' + 1, (before.reverse.takeWhile (· != '\n')).length + 1)

def Problem.locate (problem : Problem) (cs : List Char) : Located :=
  let (line, column) := position (cs.take (cs.length - problem.left))
  ⟨problem.complaint, line, column⟩

def readBy (hold : Nat → List Char) (text : String) : Except Located Value :=
  match readChars hold text.toList with
  | .ok value => .ok value
  | .error problem => .error (problem.locate text.toList)

def plainHold (n : Nat) : List Char := [if n.isValidChar then Char.ofNat n else Char.ofNat 0xfffd]

def read (text : String) : Except Located Value := readBy plainHold text

end BlockScript.Json
