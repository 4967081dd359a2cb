import BlockScript.Value.Basic

/-!
# Loose comparison

Two texts compare as texts, by code points. All other values compare as the
numbers they stand for; a value that stands for no number differs from
everything and is neither above nor below anything.
-/

set_option autoImplicit false

namespace BlockScript

inductive Comparison where
  | above
  | below
  | equal
  | unequal
  deriving DecidableEq, Repr

namespace Comparison

def symbol : Comparison → String
  | .above => ">"
  | .below => "<"
  | .equal => "=="
  | .unequal => "!="

def all : List Comparison := [.above, .below, .equal, .unequal]

def ofSymbol? (s : String) : Option Comparison := all.find? (fun c => c.symbol == s)

def ofValue? : Value → Option Comparison
  | .text s => ofSymbol? s
  | _ => none

def accepts : Comparison → Option Ordering → Bool
  | .above, o => o == some .gt
  | .below, o => o == some .lt
  | .equal, o => o == some .eq
  | .unequal, o => o != some .eq

end Comparison

def Text.order (s t : String) : Ordering := if s < t then .lt else if s = t then .eq else .gt

namespace Value

def order? : Value → Value → Option Ordering
  | .text s, .text t => some (Text.order s t)
  | x, y =>
    match x.toNumber, y.toNumber with
    | .ok m, .ok n => m.order? n
    | _, _ => none

def holds (lhs operator rhs : Value) : Bool :=
  match Comparison.ofValue? operator with
  | some comparison => comparison.accepts (lhs.order? rhs)
  | none => false

end Value

end BlockScript
