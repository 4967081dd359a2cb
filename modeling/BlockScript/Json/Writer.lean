import BlockScript.Value.Basic

/-!
# Writing JSON

Values are written on one line, or with one field or item a line and two
spaces a level. Only printable ASCII characters stand for themselves.
-/

set_option autoImplicit false

namespace BlockScript.Json

def layout : NumberLayout := { Number.layout with infinity := "Infinity", nan := "NaN" }

def codeEscape (n : Nat) : List Char := '\\' :: 'u' :: Text.hex 4 n

def escape (c : Char) : List Char :=
  if c = '"' then ['\\', '"']
  else if c = '\\' then ['\\', '\\']
  else if c = '\n' then ['\\', 'n']
  else if c = '\r' then ['\\', 'r']
  else if c = '\t' then ['\\', 't']
  else if c.toNat = 8 then ['\\', 'b']
  else if c.toNat = 12 then ['\\', 'f']
  else if 0x20 ≤ c.toNat ∧ c.toNat < 0x7f then [c]
  else if c.toNat < 0x10000 then codeEscape c.toNat
  else
    let above := c.toNat - 0x10000
    codeEscape (0xd800 + above / 0x400) ++ codeEscape (0xdc00 + above % 0x400)

def writeText (text : String) : String :=
  String.ofList ('"' :: (text.toList.flatMap escape ++ ['"']))

def writeNumber : Number → Except Fault String
  | .int n => Number.showInt n
  | .float x => .ok (layout.write x)

/-- What separates the parts of a list or record at a depth of nesting. -/
structure Style where
  opening : Nat → String
  between : Nat → String
  closing : Nat → String

def Style.line : Style := ⟨fun _ => "", fun _ => ", ", fun _ => ""⟩

def Style.newLine (depth : Nat) : String :=
  String.ofList ('\n' :: List.replicate (2 * depth) ' ')

def Style.tree : Style :=
  ⟨Style.newLine, fun depth => "," ++ Style.newLine depth, fun depth => Style.newLine (depth - 1)⟩

def enclose (style : Style) (depth : Nat) (left right : String) (parts : List String) : String :=
  if parts.isEmpty then left ++ right
  else
    left ++ style.opening depth ++ (style.between depth).intercalate parts ++
      style.closing depth ++ right

mutual

def writeAt (style : Style) (depth : Nat) : Value → Except Fault String
  | .null => .ok "null"
  | .bool b => .ok (if b then "true" else "false")
  | .number n => writeNumber n
  | .text s => .ok (writeText s)
  | .list items => do
    return enclose style (depth + 1) "[" "]" (← writeItems style (depth + 1) items)
  | .record fields => do
    return enclose style (depth + 1) "\x7b" "\x7d" (← writeFields style (depth + 1) fields)

def writeItems (style : Style) (depth : Nat) : List Value → Except Fault (List String)
  | [] => .ok []
  | item :: items => do
    let first ← writeAt style depth item
    return first :: (← writeItems style depth items)

def writeFields (style : Style) (depth : Nat) :
    List (String × Value) → Except Fault (List String)
  | [] => .ok []
  | (name, value) :: fields => do
    let first ← writeAt style depth value
    return (writeText name ++ ": " ++ first) :: (← writeFields style depth fields)

end

def writeLine (value : Value) : Except Fault String := writeAt .line 0 value

def writeTree (value : Value) : Except Fault String := writeAt .tree 0 value

end BlockScript.Json
