import BlockScript.Block.Catalog

/-!
# Valid programs

In a valid program every block has an id of its own and a known type, chooses
among the options of its inputs, and holds blocks only if its kind does. The
check goes depth first and names the first block that breaks a rule.
-/

set_option autoImplicit false

namespace BlockScript

/-- The list of blocks in which a block stands. -/
inductive Scope where
  | program
  | inside (type id : String)
  deriving DecidableEq, Repr

def Scope.text : Scope → String
  | .program => "program"
  | .inside type id => s!"'{type}' block '{id}'"

inductive Violation where
  | emptyId (type : String) (scope : Scope)
  | duplicateId (id : String) (scope : Scope) (usedBy : String)
  | unknownType (type id : String) (scope : Scope)
  | badOption (id input shown : String) (options : List String) (scope : Scope)
  | forbiddenChildren (id type : String) (scope : Scope)
  | unshowable (fault : Fault)
  deriving DecidableEq, Repr

def Violation.message : Violation → String
  | .emptyId type scope => s!"Block of type '{type}' in {scope.text} has an empty id."
  | .duplicateId id scope usedBy =>
    s!"Duplicate block id '{id}' in {scope.text}; already used by a '{usedBy}' block."
  | .unknownType type id scope =>
    s!"Unknown block type '{type}' for block '{id}' in {scope.text}."
  | .badOption id input shown options scope =>
    let choices := ", ".intercalate options
    s!"Block '{id}' has {input} {shown}; expected one of {choices} (in {scope.text})."
  | .forbiddenChildren id type scope =>
    s!"Block '{id}' of type '{type}' cannot contain child blocks (in {scope.text})."
  | .unshowable fault => fault.message

def Value.isOption (options : List String) : Value → Bool
  | .text s => options.contains s
  | _ => false

namespace Validation

def checkInput (id : String) (params : List (String × Value)) (scope : Scope) (input : Input) :
    Except Violation Unit :=
  match input.options, Bindings.get? params input.name with
  | some options, some v =>
    if v.isOption options then .ok ()
    else
      match v.literal with
      | .ok shown => .error (.badOption id input.name shown options scope)
      | .error fault => .error (.unshowable fault)
  | _, _ => .ok ()

abbrev Seen := List (String × String)

def checkHead (scope : Scope) (seen : Seen) (b : Block) : Except Violation Kind := do
  if b.id = "" then throw (.emptyId b.type scope)
  if let some usedBy := Bindings.get? seen b.id then
    throw (.duplicateId b.id scope usedBy)
  match b.kind? with
  | none => throw (.unknownType b.type b.id scope)
  | some kind =>
    kind.inputs.forM (checkInput b.id b.params scope)
    if b.children.isSome && !kind.nests then throw (.forbiddenChildren b.id b.type scope)
    return kind

mutual

def checkBlock (scope : Scope) (seen : Seen) : Block → Except Violation Seen
  | ⟨id, type, params, none⟩ => do
    let _ ← checkHead scope seen ⟨id, type, params, none⟩
    return (id, type) :: seen
  | ⟨id, type, params, some inner⟩ => do
    let _ ← checkHead scope seen ⟨id, type, params, some inner⟩
    checkBlocks (.inside type id) ((id, type) :: seen) inner

def checkBlocks (scope : Scope) (seen : Seen) : List Block → Except Violation Seen
  | [] => .ok seen
  | b :: bs => do
    let seen ← checkBlock scope seen b
    checkBlocks scope seen bs

end

end Validation

def Program.validate (program : Program) : Except Violation Unit :=
  (Validation.checkBlocks .program [] program).map fun _ => ()

end BlockScript
