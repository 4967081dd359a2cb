import BlockScript.Value.Basic

/-!
# Blocks

A program is a list of blocks. A block has an id, a type, parameters, and
possibly a list of blocks inside it; a block that holds nothing yet is not the
same as a block that cannot hold anything.
-/

set_option autoImplicit false

namespace BlockScript

structure Block where
  id : String
  type : String
  params : List (String × Value)
  children : Option (List Block)
  deriving Repr

abbrev Program := List Block

namespace Block

def body (b : Block) : List Block := b.children.getD []

def hasChildren (b : Block) : Bool := !b.body.isEmpty

mutual

def walk : Block → List Block
  | ⟨id, type, params, none⟩ => [⟨id, type, params, none⟩]
  | ⟨id, type, params, some inner⟩ => ⟨id, type, params, some inner⟩ :: walkAll inner

def walkAll : List Block → List Block
  | [] => []
  | b :: bs => b.walk ++ walkAll bs

end

mutual

def toValue : Block → Value
  | ⟨id, type, params, none⟩ =>
    .record [("id", .text id), ("type", .text type), ("params", .record params)]
  | ⟨id, type, params, some inner⟩ =>
    .record [("id", .text id), ("type", .text type), ("params", .record params),
      ("children", .list (toValues inner))]

def toValues : List Block → List Value
  | [] => []
  | b :: bs => b.toValue :: toValues bs

end

end Block

namespace Program

def walk (program : Program) : List Block := Block.walkAll program

def toValue (program : Program) : Value := .list (Block.toValues program)

theorem walk_cons (b : Block) (bs : Program) : walk (b :: bs) = b.walk ++ walk bs := rfl

theorem walk_append (p q : Program) : walk (p ++ q) = walk p ++ walk q := by
  induction p with
  | nil => rfl
  | cons b bs ih => simp only [List.cons_append, walk_cons, ih, List.append_assoc]

end Program

theorem Block.walk_eq (b : Block) : b.walk = b :: Program.walk b.body := by
  obtain ⟨id, type, params, children⟩ := b
  cases children <;> rfl

end BlockScript
