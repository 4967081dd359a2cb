import BlockScript.Text.Blank
import BlockScript.Text.Split

/-!
# Lines of a script

A line is known by its number, its indentation and its text without blanks
around it. Empty lines and comments are skipped wherever they stand. The body of
a line is made of the lines after it that are indented further.
-/

set_option autoImplicit false

namespace BlockScript.Script

structure Line where
  /-- Counted from one. -/
  number : Nat
  indent : Nat
  text : List Char
  deriving DecidableEq, Repr

namespace Line

def ofRaw (number : Nat) (raw : List Char) : Line :=
  ⟨number, (raw.takeWhile Text.isBlank).length, Text.trim raw⟩

def isSkippable (line : Line) : Bool := line.text.isEmpty || line.text.head? == some '#'

def numbered : Nat → List (List Char) → List Line
  | _, [] => []
  | n, raw :: rest => ofRaw n raw :: numbered (n + 1) rest

def ofSource (source : String) : List Line := numbered 1 (Text.splitOn '\n' source.toList)

def isWithin (indent : Nat) (line : Line) : Bool := line.isSkippable || indent < line.indent

def afterBody (indent : Nat) (rest : List Line) : List Line := rest.dropWhile (isWithin indent)

def hasBody (indent : Nat) (rest : List Line) : Bool :=
  (rest.takeWhile (isWithin indent)).any (!·.isSkippable)

theorem afterBody_length_le (indent : Nat) (rest : List Line) :
    (afterBody indent rest).length ≤ rest.length :=
  (List.dropWhile_sublist _).length_le

end Line

end BlockScript.Script
