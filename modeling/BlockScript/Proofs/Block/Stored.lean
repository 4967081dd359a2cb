import BlockScript.Block.Decode
import BlockScript.Proofs.Json.Roundtrip

/-!
# Blocks and their records

Decoding the record of a block gives the block again, with its children kept
apart from having none. The record of a program is storable if the parameters of
every block in it are, and reading back changes the parameters only.
-/

set_option autoImplicit false

namespace BlockScript

namespace Block

mutual

def restored : Block → Block
  | ⟨id, type, params, none⟩ => ⟨id, type, Value.restoredFields params, none⟩
  | ⟨id, type, params, some inner⟩ =>
    ⟨id, type, Value.restoredFields params, some (restoredAll inner)⟩

def restoredAll : List Block → List Block
  | [] => []
  | b :: bs => b.restored :: restoredAll bs

end

mutual

theorem ofValue_toValue (path : String) : ∀ b : Block, ofValue path b.toValue = .ok b
  | ⟨id, type, params, none⟩ => rfl
  | ⟨id, type, params, some inner⟩ => by
    have h : childrenOf id path
        [("id", .text id), ("type", .text type), ("params", .record params),
          ("children", .list (toValues inner))] = .ok (some inner) := by
      change (do return some (← ofValues s!"{path}.{id}" 0 (toValues inner))) = _
      rw [ofValues_toValues]
      rfl
    change (do return (⟨id, type, params, ← childrenOf id path _⟩ : Block)) = _
    rw [h]
    rfl

theorem ofValues_toValues (place : String) (index : Nat) :
    ∀ bs : List Block, ofValues place index (toValues bs) = .ok bs
  | [] => rfl
  | b :: bs => by
    rw [toValues, ofValues, ofValue_toValue, Except.ok_bind, ofValues_toValues place (index + 1) bs]
    rfl

end

mutual

theorem restored_toValue : ∀ b : Block, b.toValue.restored = b.restored.toValue
  | ⟨id, type, params, none⟩ => rfl
  | ⟨id, type, params, some inner⟩ => by
    change Value.record [_, _, _, ("children", .list (Value.restoredItems (toValues inner)))] = _
    rw [restoredItems_toValues inner]
    rfl

theorem restoredItems_toValues :
    ∀ bs : List Block, Value.restoredItems (toValues bs) = toValues (restoredAll bs)
  | [] => rfl
  | b :: bs => by
    rw [toValues, Value.restoredItems, restored_toValue, restoredItems_toValues bs]
    rfl

end

mutual

theorem storable_toValue : ∀ b : Block,
    (∀ c ∈ b.walk, (Value.record c.params).Storable) → b.toValue.Storable
  | ⟨id, type, params, none⟩, h =>
    ⟨(by decide : ["id", "type", "params"].Nodup), trivial, trivial, h _ List.mem_cons_self,
      trivial⟩
  | ⟨id, type, params, some inner⟩, h =>
    ⟨(by decide : ["id", "type", "params", "children"].Nodup), trivial, trivial,
      h _ List.mem_cons_self,
      storableItems_toValues inner fun c hc => h c (List.mem_cons_of_mem _ hc), trivial⟩

theorem storableItems_toValues : ∀ bs : List Block,
    (∀ c ∈ walkAll bs, (Value.record c.params).Storable) → Value.StorableItems (toValues bs)
  | [], _ => trivial
  | b :: bs, h =>
    ⟨storable_toValue b fun c hc => h c (List.mem_append_left _ hc),
      storableItems_toValues bs fun c hc => h c (List.mem_append_right _ hc)⟩

end

end Block

namespace Program

def Storable (program : Program) : Prop :=
  ∀ b ∈ program.walk, (Value.record b.params).Storable

instance (program : Program) : Decidable program.Storable :=
  inferInstanceAs (Decidable (∀ b ∈ program.walk, (Value.record b.params).Storable))

def restored (program : Program) : Program := Block.restoredAll program

theorem ofValue_restored (program : Program) :
    ofValue program.toValue.restored = .ok program.restored := by
  change Block.ofValues "program" 0 (Value.restoredItems (Block.toValues program)) = _
  rw [Block.restoredItems_toValues, Block.ofValues_toValues]
  rfl

end Program

end BlockScript
