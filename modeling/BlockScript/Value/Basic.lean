import BlockScript.Bindings
import BlockScript.Number.Numeral
import BlockScript.Text.Quoted

/-!
# Values

Values are what block parameters and program data hold: nothing, truth values,
numbers, text, lists and records with ordered fields. A value has a literal
form, which keeps the kinds apart, and a display form, which people read.
-/

set_option autoImplicit false

namespace BlockScript

inductive Value where
  | null
  | bool (b : Bool)
  | number (n : Number)
  | text (s : String)
  | list (items : List Value)
  | record (fields : List (String × Value))
  deriving Repr

namespace Value

def int (n : Int) : Value := .number (.int n)

def kind : Value → String
  | .null => "NoneType"
  | .bool _ => "bool"
  | .number (.int _) => "int"
  | .number (.float _) => "float"
  | .text _ => "str"
  | .list _ => "list"
  | .record _ => "dict"

mutual

def literal : Value → Except Fault String
  | .null => .ok "None"
  | .bool b => .ok (if b then "True" else "False")
  | .number n => n.literal
  | .text s => .ok (Text.quoted s)
  | .list items => do return "[" ++ ", ".intercalate (← literals items) ++ "]"
  | .record fields => do return "\x7b" ++ ", ".intercalate (← fieldLiterals fields) ++ "\x7d"

def literals : List Value → Except Fault (List String)
  | [] => .ok []
  | item :: items => do
    let first ← item.literal
    return first :: (← literals items)

def fieldLiterals : List (String × Value) → Except Fault (List String)
  | [] => .ok []
  | (name, value) :: fields => do
    let first ← value.literal
    return (Text.quoted name ++ ": " ++ first) :: (← fieldLiterals fields)

end

def bare : Value → Except Fault String
  | .text s => .ok s
  | v => v.literal

def display : Value → Except Fault String
  | .number n => n.display
  | v => v.bare

def toNumber (v : Value) : Except Fault Number :=
  match v with
  | .bool b => .ok (.int (if b then 1 else 0))
  | .number n => .ok n
  | .text s =>
    match Text.trim s.toList with
    | [] => .ok (.int 0)
    | cs =>
      match Numeral.parse? cs with
      | some numeral => .ok numeral.value
      | none => do throw (.notNumber (← v.literal))
  | v => do throw (.notNumber (← v.literal))

end Value

end BlockScript
