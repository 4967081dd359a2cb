import BlockScript.Command.Arguments
import BlockScript.Json.Reader
import BlockScript.Json.Writer
import BlockScript.Text.Utf8

/-!
# Hosts

A text in a file can name code points that are no characters: lone surrogates. How a
text holds them, and what becomes of a text where it leaves the tool, is up to the host
that the tool runs on, and so is the convention by which it reads command lines.
-/

set_option autoImplicit false

namespace BlockScript.Command

structure Host where
  convention : Convention
  /-- The characters that hold a code point. -/
  hold : Nat → List Char
  console : String → Except String String
  json : String → String
  errors : String → String
  storage : String → Except String (List UInt8)

namespace Host

def plain : Host where
  convention := .older
  hold := Json.plainHold
  console := .ok
  json := id
  errors := id
  storage text := .ok (Utf8.encode text)

def isSurrogate (n : Nat) : Bool := 0xd800 ≤ n && n < 0xe000

-- A private character. With the one behind it, it stands for a lone surrogate or itself.
def mark : Char := Char.ofNat 0xe000

/-- A code point as the characters that hold it. What they hold can be told from the
front, comes in the order of the code points, and is neither blank nor part of a word. -/
def markedHold (n : Nat) : List Char :=
  if isSurrogate n then [mark, Char.ofNat (n + 0x801)]
  else if n = 0xe000 then [mark, Char.ofNat 0xf8ff]
  else [Char.ofNat n]

def unmarked (n : Nat) : Nat := if n = 0xf8ff then 0xe000 else n - 0x801

def codes : List Char → List Nat
  | [] => []
  | [c] => [c.toNat]
  | c :: next :: rest =>
    if c = mark then unmarked next.toNat :: codes rest else c.toNat :: codes (next :: rest)

def refusal? (ns : List Nat) : Option String := do
  let start ← ns.findIdx? isSurrogate
  let refused := (ns.drop start).takeWhile isSurrogate
  let what :=
    match refused with
    | [n] =>
      let shown := String.ofList (Json.codeEscape n)
      s!"character '{shown}' in position {start}"
    | _ =>
      let last := start + refused.length - 1
      s!"characters in position {start}-{last}"
  return s!"'utf-8' codec can't encode {what}: surrogates not allowed"

def utf8Console (text : String) : Except String String :=
  let ns := codes text.toList
  match refusal? ns with
  | some reason => .error reason
  | none => .ok (String.ofList (ns.map Char.ofNat))

def joinEscapes : List Char → List Char
  | '\\' :: 'u' :: 'e' :: '0' :: '0' :: '0' :: '\\' :: 'u' :: a :: b :: c :: d :: rest =>
    let n := [a, b, c, d].foldl (fun n digit => 16 * n + (Json.hexDigit? digit).getD 0) 0
    Json.codeEscape (unmarked n) ++ joinEscapes rest
  | '\\' :: escaped :: rest => '\\' :: escaped :: joinEscapes rest
  | c :: rest => c :: joinEscapes rest
  | [] => []

def utf8 : Host where
  convention := .newer
  hold := markedHold
  console := utf8Console
  json line := String.ofList (joinEscapes line.toList)
  errors text := String.ofList <| (codes text.toList).flatMap fun n =>
    if isSurrogate n then Json.codeEscape n else [Char.ofNat n]
  storage text := do return Utf8.encode (← utf8Console text)

end Host

end BlockScript.Command
