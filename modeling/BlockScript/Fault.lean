/-!
# Faults

The ways in which a value can fail to serve where a program puts it: as a
number, as text to show, as a summand, or as the name of a variable.
-/

set_option autoImplicit false

namespace BlockScript

def digitLimit : Nat := 4300

inductive Fault where
  | notNumber (shown : String)
  | tooManyDigits
  | integerTooLarge
  | notName (kind : String)
  | missingParameter (block type parameter : String)
  deriving DecidableEq, Repr

namespace Fault

def message : Fault → String
  | .notNumber shown => s!"Expected a number, got {shown}."
  | .tooManyDigits =>
    "Exceeds the limit (4300 digits) for integer string conversion; " ++
      "use sys.set_int_max_str_digits() to increase the limit"
  | .integerTooLarge => "int too large to convert to float"
  | .notName kind => s!"unhashable type: '{kind}'"
  | .missingParameter block type parameter =>
    s!"Block '{block}' ({type}) is missing parameter '{parameter}'."

end Fault

end BlockScript
