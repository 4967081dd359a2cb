import BlockScript.Block.Catalog

/-!
# Editing programs

Edits find a block by its id: the first one, depth first. They leave every
other block as it is.
-/

set_option autoImplicit false

namespace BlockScript

inductive EditFault where
  | unknownType (type : String)
  | noBlock (id : String)
  | cannotNest (id type : String)
  deriving DecidableEq, Repr

def EditFault.message : EditFault → String
  | .unknownType type => s!"Unknown block type '{type}'."
  | .noBlock id => s!"No block with id '{id}'."
  | .cannotNest id type => s!"Block '{id}' of type '{type}' cannot contain child blocks."

namespace Block

def create (type : String) (id : Option String) (fresh : String) : Except EditFault Block :=
  match Kind.ofWord? type with
  | none => .error (.unknownType type)
  | some kind =>
    let id :=
      match id with
      | none | some "" => fresh
      | some given => given
    .ok ⟨id, type, kind.defaults, if kind.nests then some [] else none⟩

def pushChild (b child : Block) : Block :=
  { b with children := b.children.map (· ++ [child]) }

def updateParams (b : Block) (changes : List (String × Value)) : Block :=
  { b with params := Bindings.update b.params changes }

mutual

def modify? (id : String) (change : Block → Block) : Block → Option Block
  | ⟨i, type, params, none⟩ =>
    if i = id then some (change ⟨i, type, params, none⟩) else none
  | ⟨i, type, params, some inner⟩ =>
    if i = id then some (change ⟨i, type, params, some inner⟩)
    else (modifyIn? id change inner).map fun inner' => ⟨i, type, params, some inner'⟩

def modifyIn? (id : String) (change : Block → Block) : List Block → Option (List Block)
  | [] => none
  | b :: bs =>
    match b.modify? id change with
    | some b' => some (b' :: bs)
    | none => (modifyIn? id change bs).map (b :: ·)

end

mutual

def deleteBelow? (id : String) : Block → Option Block
  | ⟨_, _, _, none⟩ => none
  | ⟨i, type, params, some inner⟩ =>
    (deleteIn? id inner).map fun inner' => ⟨i, type, params, some inner'⟩

def deleteIn? (id : String) : List Block → Option (List Block)
  | [] => none
  | b :: bs =>
    if b.id = id then some bs
    else
      match b.deleteBelow? id with
      | some b' => some (b' :: bs)
      | none => (deleteIn? id bs).map (b :: ·)

end

end Block

namespace Program

def find? (program : Program) (id : String) : Option Block :=
  (walk program).find? fun b => b.id = id

def append (program : Program) (b : Block) : Program := program ++ [b]

def appendChild (program : Program) (parent : String) (b : Block) : Except EditFault Program :=
  match program.find? parent with
  | none => .error (.noBlock parent)
  | some found =>
    if found.children.isNone then .error (.cannotNest parent found.type)
    else .ok ((Block.modifyIn? parent (·.pushChild b) program).getD program)

def updateParams (program : Program) (id : String) (changes : List (String × Value)) :
    Except EditFault Program :=
  match Block.modifyIn? id (·.updateParams changes) program with
  | none => .error (.noBlock id)
  | some program' => .ok program'

def delete? (program : Program) (id : String) : Option Program := Block.deleteIn? id program

def variableName? (b : Block) : Option Value := do
  let input ← (← b.kind?).nameInput?
  -- A name given as nothing counts as left out here, but not where the block is executed.
  match Bindings.get? b.params input with
  | none | some .null => b.default? input
  | some v => some v

def addName (names : List String) (name : Value) : Except Fault (List String) := do
  let text ← name.bare
  return if names.contains text then names else names ++ [text]

def variableNames (program : Program) : Except Fault (List String) :=
  ((walk program).filterMap variableName?).foldlM addName []

end Program

end BlockScript
