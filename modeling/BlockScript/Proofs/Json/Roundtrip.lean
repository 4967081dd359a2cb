import BlockScript.Proofs.Bindings
import BlockScript.Proofs.Json.Values

/-!
# Writing and reading back

A value is storable if its integers keep to the digit limit and no record in it
has a name twice. Every storable value has a text, and the text reads back as the
value. All that reading cannot give back is the payload of what is not a number.
-/

set_option autoImplicit false

namespace BlockScript

def Number.restored : Number → Number
  | .float (.nan _) => .float (.nan 0)
  | n => n

def Number.Storable : Number → Prop
  | .int n => IsShort n
  | .float _ => True

instance (n : Number) : Decidable n.Storable :=
  match n with
  | .int n => inferInstanceAs (Decidable (IsShort n))
  | .float _ => .isTrue trivial

namespace Value

mutual

def restored : Value → Value
  | .null => .null
  | .bool b => .bool b
  | .number n => .number n.restored
  | .text s => .text s
  | .list items => .list (restoredItems items)
  | .record fields => .record (restoredFields fields)

def restoredItems : List Value → List Value
  | [] => []
  | item :: items => item.restored :: restoredItems items

def restoredFields : List (String × Value) → List (String × Value)
  | [] => []
  | (name, value) :: fields => (name, value.restored) :: restoredFields fields

end

mutual

def Storable : Value → Prop
  | .null => True
  | .bool _ => True
  | .number n => n.Storable
  | .text _ => True
  | .list items => StorableItems items
  | .record fields => (Bindings.keys fields).Nodup ∧ StorableFields fields

def StorableItems : List Value → Prop
  | [] => True
  | item :: items => item.Storable ∧ StorableItems items

def StorableFields : List (String × Value) → Prop
  | [] => True
  | (_, value) :: fields => value.Storable ∧ StorableFields fields

end

mutual

def decideStorable : (v : Value) → Decidable v.Storable
  | .null => .isTrue trivial
  | .bool _ => .isTrue trivial
  | .number n => inferInstanceAs (Decidable n.Storable)
  | .text _ => .isTrue trivial
  | .list items => decideStorableItems items
  | .record fields => @instDecidableAnd _ _ inferInstance (decideStorableFields fields)

def decideStorableItems : (items : List Value) → Decidable (StorableItems items)
  | [] => .isTrue trivial
  | item :: items => @instDecidableAnd _ _ (decideStorable item) (decideStorableItems items)

def decideStorableFields :
    (fields : List (String × Value)) → Decidable (StorableFields fields)
  | [] => .isTrue trivial
  | (_, value) :: fields =>
    @instDecidableAnd _ _ (decideStorable value) (decideStorableFields fields)

end

instance (v : Value) : Decidable v.Storable := decideStorable v

theorem keys_restoredFields (fields : List (String × Value)) :
    Bindings.keys (restoredFields fields) = Bindings.keys fields := by
  induction fields with
  | nil => rfl
  | cons field fields ih =>
    rw [restoredFields, Bindings.keys, List.map_cons]
    exact congrArg (field.1 :: ·) ih

end Value

namespace Json

theorem exists_writeNumber {n : Number} (h : n.Storable) :
    ∃ text, writeNumber n = .ok text ∧ Restores text.toList (.number n.restored) := by
  cases n with
  | int n =>
    exact ⟨_, showInt_of_isShort h, restores_number (spellsNumber_integerText h)⟩
  | float x =>
    refine ⟨_, rfl, ?_⟩
    cases x with
    | finite negative rank => exact restores_number (spellsNumber_write negative rank)
    | infinity negative => exact restores_infinity negative
    | nan payload => exact restores_nan

mutual

theorem exists_writeAt (depth : Nat) : ∀ v : Value, v.Storable →
    ∃ text, writeAt .tree depth v = .ok text ∧ Restores text.toList v.restored
  | .null, _ => ⟨_, rfl, restores_null⟩
  | .bool b, _ => ⟨_, rfl, restores_bool b⟩
  | .number _, h => exists_writeNumber h
  | .text s, _ => ⟨_, rfl, restores_text s⟩
  | .list items, h => by
    obtain ⟨parts, hw, hr⟩ := exists_writeItems (depth + 1) items h
    exact ⟨_, by rw [writeAt, hw]; rfl, restores_list (depth + 1) hr⟩
  | .record fields, h => by
    obtain ⟨parts, hw, hr⟩ := exists_writeFields (depth + 1) fields h.2
    have hn : Bindings.update [] (Value.restoredFields fields) = Value.restoredFields fields := by
      apply Bindings.update_of_nodup
      rw [List.nil_append, Value.keys_restoredFields]
      exact h.1
    exact ⟨_, by rw [writeAt, hw]; rfl, restores_record (depth + 1) hr hn⟩

theorem exists_writeItems (depth : Nat) : ∀ items : List Value, Value.StorableItems items →
    ∃ parts, writeItems .tree depth items = .ok parts ∧
      List.Forall₂ Restores (parts.map String.toList) (Value.restoredItems items)
  | [], _ => ⟨[], rfl, .nil⟩
  | item :: items, h => by
    obtain ⟨text, hw, hr⟩ := exists_writeAt depth item h.1
    obtain ⟨parts, hws, hrs⟩ := exists_writeItems depth items h.2
    exact ⟨text :: parts, by rw [writeItems, hw, Except.ok_bind, hws]; rfl, .cons hr hrs⟩

theorem exists_writeFields (depth : Nat) :
    ∀ fields : List (String × Value), Value.StorableFields fields →
    ∃ parts, writeFields .tree depth fields = .ok parts ∧
      List.Forall₂ RestoresField (parts.map String.toList) (Value.restoredFields fields)
  | [], _ => ⟨[], rfl, .nil⟩
  | (name, value) :: fields, h => by
    obtain ⟨text, hw, hr⟩ := exists_writeAt depth value h.1
    obtain ⟨parts, hws, hrs⟩ := exists_writeFields depth fields h.2
    refine ⟨(writeText name ++ ": " ++ text) :: parts, ?_, .cons ⟨text.toList, ?_, hr⟩ hrs⟩
    · rw [writeFields, hw, Except.ok_bind, hws]
      rfl
    · rw [String.toList_append, String.toList_append, List.append_assoc]
      rfl

end

end Json

end BlockScript
