/-!
# Ordered bindings

Parameters, records and variables are bindings of keys to values that remember
the order in which their keys first came. Giving a bound key a new value keeps
its place and its spelling; a new key goes to the end.
-/

set_option autoImplicit false

namespace BlockScript

abbrev Bindings (κ α : Type) := List (κ × α)

namespace Bindings

variable {κ α : Type} [BEq κ]

def get? : Bindings κ α → κ → Option α
  | [], _ => none
  | (k, v) :: rest, key => if key == k then some v else get? rest key

def contains (bindings : Bindings κ α) (key : κ) : Bool := (bindings.get? key).isSome

def put : Bindings κ α → κ → α → Bindings κ α
  | [], key, value => [(key, value)]
  | (k, v) :: rest, key, value =>
    if key == k then (k, value) :: rest else (k, v) :: put rest key value

def update (bindings changes : Bindings κ α) : Bindings κ α :=
  changes.foldl (fun bs change => bs.put change.1 change.2) bindings

def keys (bindings : Bindings κ α) : List κ := bindings.map Prod.fst

theorem keys_put (bindings : Bindings κ α) (key : κ) (value : α) :
    (bindings.put key value).keys =
      if bindings.contains key then bindings.keys else bindings.keys ++ [key] := by
  induction bindings with
  | nil => rfl
  | cons binding rest ih =>
    obtain ⟨k, v⟩ := binding
    by_cases h : (key == k) = true
    · simp [put, h, contains, get?, keys]
    · simp only [put, contains, get?, keys, if_neg h, List.map_cons] at *
      rw [ih]
      split <;> simp [*]

end Bindings

end BlockScript
