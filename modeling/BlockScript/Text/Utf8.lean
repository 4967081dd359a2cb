import BlockScript.Text.Quoted

/-!
# UTF-8

Decoding reads one octet at a time and stops at the first octet that no
character can have there. The complaint covers the octets of the character that
were read so far. Encoding writes each character in the one shortest way.
-/

set_option autoImplicit false

namespace BlockScript.Utf8

inductive Reason where
  | startByte
  | continuation
  | endOfData
  deriving DecidableEq, Repr

def Reason.text : Reason → String
  | .startByte => "invalid start byte"
  | .continuation => "invalid continuation byte"
  | .endOfData => "unexpected end of data"

/-- Octets that are not UTF-8: where they start, how many they are, and the first of them. -/
structure DecodeFault where
  reason : Reason
  start : Nat
  size : Nat
  first : UInt8
  deriving DecidableEq, Repr

def DecodeFault.message (fault : DecodeFault) : String :=
  let what :=
    if fault.size = 1 then
      let octet := String.ofList (Text.hex 2 fault.first.toNat)
      s!"byte 0x{octet} in position {fault.start}"
    else
      let last := fault.start + fault.size - 1
      s!"bytes in position {fault.start}-{last}"
  s!"'utf-8' codec can't decode {what}: {fault.reason.text}"

/-- A character part of whose octets have been read. -/
structure Pending where
  first : UInt8
  read : Nat
  /-- How many octets are still owed after the next one. -/
  owed : Nat
  /-- The least and the greatest octet that may come next. -/
  low : Nat
  high : Nat
  bits : Nat
  deriving DecidableEq, Repr

def opening? (first : UInt8) : Option Pending :=
  let b := first.toNat
  if b < 0xc2 then none
  else if b < 0xe0 then some ⟨first, 1, 0, 0x80, 0xbf, b - 0xc0⟩
  else if b = 0xe0 then some ⟨first, 1, 1, 0xa0, 0xbf, 0⟩
  else if b = 0xed then some ⟨first, 1, 1, 0x80, 0x9f, 0xd⟩
  else if b < 0xf0 then some ⟨first, 1, 1, 0x80, 0xbf, b - 0xe0⟩
  else if b = 0xf0 then some ⟨first, 1, 2, 0x90, 0xbf, 0⟩
  else if b = 0xf4 then some ⟨first, 1, 2, 0x80, 0x8f, 4⟩
  else if b < 0xf4 then some ⟨first, 1, 2, 0x80, 0xbf, b - 0xf0⟩
  else none

def decodeFrom (position : Nat) : Option Pending → List UInt8 → Except DecodeFault (List Char)
  | none, [] => .ok []
  | some p, [] => .error ⟨.endOfData, position - p.read, p.read, p.first⟩
  | none, octet :: rest =>
    if octet.toNat < 0x80 then do
      return Char.ofNat octet.toNat :: (← decodeFrom (position + 1) none rest)
    else
      match opening? octet with
      | some p => decodeFrom (position + 1) (some p) rest
      | none => .error ⟨.startByte, position, 1, octet⟩
  | some p, octet :: rest =>
    if p.low ≤ octet.toNat ∧ octet.toNat ≤ p.high then
      let bits := p.bits * 64 + (octet.toNat - 0x80)
      match p.owed with
      | 0 => do return Char.ofNat bits :: (← decodeFrom (position + 1) none rest)
      | owed + 1 =>
        decodeFrom (position + 1) (some ⟨p.first, p.read + 1, owed, 0x80, 0xbf, bits⟩) rest
    else .error ⟨.continuation, position - p.read, p.read, p.first⟩

def decode (octets : List UInt8) : Except DecodeFault (List Char) := decodeFrom 0 none octets

def continuation (n : Nat) : UInt8 := UInt8.ofNat (0x80 + n % 64)

def encodeChar (c : Char) : List UInt8 :=
  let n := c.toNat
  if n < 0x80 then [UInt8.ofNat n]
  else if n < 0x800 then [UInt8.ofNat (0xc0 + n / 64), continuation n]
  else if n < 0x10000 then
    [UInt8.ofNat (0xe0 + n / 4096), continuation (n / 64), continuation n]
  else
    [UInt8.ofNat (0xf0 + n / 262144), continuation (n / 4096), continuation (n / 64),
      continuation n]

def encode (text : String) : List UInt8 := text.toList.flatMap encodeChar

end BlockScript.Utf8
