import BlockScript.Block.Basic

/-!
# Programs from data

A program is stored as a list of block records, or as a record with such a
list under `program`. Decoding names the first record that is not a block by
the path that leads to it.
-/

set_option autoImplicit false

namespace BlockScript

/-- Why data is not a program. -/
inductive Malformed where
  | notList
  | notRecord (path kind : String)
  | noId (path : String)
  | noType (id path : String)
  | badParams (id path : String)
  | badChildren (id path : String)
  deriving DecidableEq, Repr

def Malformed.message : Malformed → String
  | .notList => "A block program must be a list of blocks."
  | .notRecord path kind => s!"Expected an object at {path}, got {kind}."
  | .noId path => s!"Block at {path} needs a string 'id'."
  | .noType id path => s!"Block '{id}' at {path} needs a string 'type'."
  | .badParams id path => s!"Block '{id}' at {path} has non-object 'params'."
  | .badChildren id path => s!"Block '{id}' at {path} has non-list 'children'."

namespace Block

def idOf (path : String) (fields : List (String × Value)) : Except Malformed String :=
  match Bindings.get? fields "id" with
  | some (.text id) => .ok id
  | _ => .error (.noId path)

def typeOf (id path : String) (fields : List (String × Value)) : Except Malformed String :=
  match Bindings.get? fields "type" with
  | some (.text type) => .ok type
  | _ => .error (.noType id path)

def paramsOf (id path : String) (fields : List (String × Value)) :
    Except Malformed (List (String × Value)) :=
  match Bindings.get? fields "params" with
  | none => .ok []
  | some .null => .ok []
  | some (.record params) => .ok params
  | some _ => .error (.badParams id path)

def pathAt (place : String) (index : Nat) : String := s!"{place}[{index}]"

mutual

def ofValue (path : String) : Value → Except Malformed Block
  | .record fields => do
    let id ← idOf path fields
    let type ← typeOf id path fields
    let params ← paramsOf id path fields
    let children ← childrenOf id path fields
    return ⟨id, type, params, children⟩
  | v => .error (.notRecord path v.kind)

def childrenOf (id path : String) :
    List (String × Value) → Except Malformed (Option (List Block))
  | [] => .ok none
  | (name, .list items) :: fields =>
    if name = "children" then do return some (← ofValues s!"{path}.{id}" 0 items)
    else childrenOf id path fields
  | (name, .null) :: fields =>
    if name = "children" then .ok none else childrenOf id path fields
  | (name, _) :: fields =>
    if name = "children" then .error (.badChildren id path) else childrenOf id path fields

def ofValues (place : String) (index : Nat) : List Value → Except Malformed (List Block)
  | [] => .ok []
  | item :: items => do
    let first ← ofValue (pathAt place index) item
    return first :: (← ofValues place (index + 1) items)

end

end Block

namespace Program

def listOf : Value → Option (List Value)
  | .list items => some items
  | .record fields =>
    match Bindings.get? fields "program" with
    | some (.list items) => some items
    | _ => none
  | _ => none

def ofValue (data : Value) : Except Malformed Program :=
  match listOf data with
  | some items => Block.ofValues "program" 0 items
  | none => .error .notList

end Program

end BlockScript
