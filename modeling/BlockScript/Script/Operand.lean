import BlockScript.Number.Numeral

/-!
# Operands of script statements

An operand is a number, quoted text, or a name, tried in this order. An empty
operand is the number zero.
-/

set_option autoImplicit false

namespace BlockScript.Script

inductive Operand where
  | number (n : Number)
  | text (s : String)
  | name (s : String)
  deriving DecidableEq, Repr

namespace Operand

def unquote? : List Char → Option (List Char)
  | quote :: rest =>
    if (quote = '"' ∨ quote = '\'') ∧ rest.getLast? = some quote then some rest.dropLast
    else none
  | [] => none

def parse (token : List Char) : Operand :=
  match Text.trim token with
  | [] => .number (.int 0)
  | cs =>
    match Numeral.parse? cs with
    | some numeral => .number numeral.value
    | none =>
      match unquote? cs with
      | some inside => .text (String.ofList inside)
      | none => .name (String.ofList cs)

end Operand

end BlockScript.Script
