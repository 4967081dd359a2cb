import BlockScript.Proofs.Number.Range
import BlockScript.Value.Basic
import BlockScript.Variables

/-!
# Which values cannot be shown

A value has a literal form, a bare form and a display form unless it is an
integer past the digit limit, or holds one at some depth. An integer that is
spelled out as text does no harm, and neither does any floating point number.
-/

set_option autoImplicit false

namespace BlockScript

namespace Value

inductive HoldsLong : Value → Prop
  | integer {n : Int} : 10 ^ digitLimit ≤ n.natAbs → HoldsLong (.number (.int n))
  | item {items : List Value} {v : Value} : v ∈ items → HoldsLong v → HoldsLong (.list items)
  | field {fields : List (String × Value)} {name : String} {v : Value} :
      (name, v) ∈ fields → HoldsLong v → HoldsLong (.record fields)

@[simp]
theorem not_holdsLong_text (s : String) : ¬ HoldsLong (.text s) :=
  nofun

theorem holdsLong_int_iff (n : Int) :
    HoldsLong (.number (.int n)) ↔ 10 ^ digitLimit ≤ n.natAbs :=
  ⟨fun | .integer h => h, .integer⟩

theorem holdsLong_list_iff (items : List Value) :
    HoldsLong (.list items) ↔ ∃ v ∈ items, v.HoldsLong :=
  ⟨fun | .item hm h => ⟨_, hm, h⟩, fun ⟨_, hm, h⟩ => .item hm h⟩

theorem holdsLong_record_iff (fields : List (String × Value)) :
    HoldsLong (.record fields) ↔ ∃ field ∈ fields, field.2.HoldsLong :=
  ⟨fun | .field hm h => ⟨_, hm, h⟩, fun ⟨_, hm, h⟩ => .field hm h⟩

theorem fails_literal_number_iff (n : Number) :
    Except.Fails n.literal ↔ HoldsLong (.number n) := by
  cases n with
  | int n => rw [holdsLong_int_iff, ← Number.fails_showInt_iff, Number.literal]
  | float x => exact ⟨nofun, nofun⟩

mutual

theorem fails_literal_iff : ∀ v : Value, Except.Fails v.literal ↔ v.HoldsLong
  | .null => ⟨nofun, nofun⟩
  | .bool _ => ⟨nofun, nofun⟩
  | .number n => fails_literal_number_iff n
  | .text s => ⟨nofun, fun h => absurd h (not_holdsLong_text s)⟩
  | .list items => by
    rw [holdsLong_list_iff, ← fails_literals_iff items, literal]
    exact Except.fails_bind_pure _
  | .record fields => by
    rw [holdsLong_record_iff, ← fails_fieldLiterals_iff fields, literal]
    exact Except.fails_bind_pure _

theorem fails_literals_iff :
    ∀ items : List Value, Except.Fails (literals items) ↔ ∃ v ∈ items, v.HoldsLong
  | [] => by simp [literals]
  | item :: items => by
    simp only [literals, List.mem_cons, exists_eq_or_imp, ← fails_literal_iff item,
      ← fails_literals_iff items]
    exact Except.fails_bind_const fun _ _ => Except.fails_bind_pure _

theorem fails_fieldLiterals_iff :
    ∀ fields : List (String × Value),
      Except.Fails (fieldLiterals fields) ↔ ∃ field ∈ fields, field.2.HoldsLong
  | [] => by simp [fieldLiterals]
  | (name, v) :: fields => by
    simp only [fieldLiterals, List.mem_cons, exists_eq_or_imp, ← fails_literal_iff v,
      ← fails_fieldLiterals_iff fields]
    exact Except.fails_bind_const fun _ _ => Except.fails_bind_pure _

end

theorem fails_bare_iff (v : Value) : Except.Fails v.bare ↔ v.HoldsLong := by
  cases v with
  | text s => exact iff_of_false (Except.not_fails_ok _) (not_holdsLong_text s)
  | null | bool | number | list | record => exact fails_literal_iff _

theorem fails_display_number_iff (n : Number) :
    Except.Fails n.display ↔ HoldsLong (.number n) := by
  cases n with
  | int n => rw [holdsLong_int_iff, ← Number.fails_showInt_iff, Number.display]
  | float x =>
    have hf : ¬ Except.Fails (Number.float x).display := by
      unfold Number.display
      dsimp only
      split
      · next h => exact Number.not_fails_showInt_of_toInt? h
      · exact Except.not_fails_ok _
    exact iff_of_false hf nofun

theorem fails_display_iff (v : Value) : Except.Fails v.display ↔ v.HoldsLong := by
  cases v with
  | number n => exact fails_display_number_iff n
  | null | bool | text | list | record => rw [display, fails_bare_iff]; nofun

theorem onlyFails_showInt (n : Int) :
    Except.OnlyFails (· = .tooManyDigits) (Number.showInt n) := by
  unfold Number.showInt
  split
  · exact Except.onlyFails_ok _
  · rintro _ ⟨⟩
    rfl

mutual

theorem onlyFails_literal : ∀ v : Value, Except.OnlyFails (· = .tooManyDigits) v.literal
  | .null => Except.onlyFails_ok _
  | .bool _ => Except.onlyFails_ok _
  | .number (.int n) => onlyFails_showInt n
  | .number (.float _) => Except.onlyFails_ok _
  | .text _ => Except.onlyFails_ok _
  | .list items => by
    rw [literal]
    exact (onlyFails_literals items).bind fun _ _ => Except.onlyFails_ok _
  | .record fields => by
    rw [literal]
    exact (onlyFails_fieldLiterals fields).bind fun _ _ => Except.onlyFails_ok _

theorem onlyFails_literals :
    ∀ items : List Value, Except.OnlyFails (· = .tooManyDigits) (literals items)
  | [] => Except.onlyFails_ok _
  | item :: items => by
    rw [literals]
    exact (onlyFails_literal item).bind fun _ _ =>
      (onlyFails_literals items).bind fun _ _ => Except.onlyFails_ok _

theorem onlyFails_fieldLiterals : ∀ fields : List (String × Value),
    Except.OnlyFails (· = .tooManyDigits) (fieldLiterals fields)
  | [] => Except.onlyFails_ok _
  | (name, v) :: fields => by
    rw [fieldLiterals]
    exact (onlyFails_literal v).bind fun _ _ =>
      (onlyFails_fieldLiterals fields).bind fun _ _ => Except.onlyFails_ok _

end

theorem onlyFails_bare (v : Value) : Except.OnlyFails (· = .tooManyDigits) v.bare := by
  cases v with
  | text s => exact Except.onlyFails_ok _
  | null | bool | number | list | record => exact onlyFails_literal _

theorem onlyFails_display_number (n : Number) :
    Except.OnlyFails (· = .tooManyDigits) n.display := by
  cases n with
  | int n => exact onlyFails_showInt n
  | float x =>
    unfold Number.display
    dsimp only
    split
    · exact onlyFails_showInt _
    · exact Except.onlyFails_ok _

theorem onlyFails_display (v : Value) : Except.OnlyFails (· = .tooManyDigits) v.display := by
  cases v with
  | number n => exact onlyFails_display_number n
  | null | bool | text | list | record => rw [display]; exact onlyFails_bare _; nofun

/-- What is not a number is refused as such, unless it cannot even be shown. -/
theorem onlyFails_toNumber (v : Value) :
    Except.OnlyFails (fun fault => fault = .tooManyDigits ∨ ∃ shown, fault = .notNumber shown)
      v.toNumber := by
  have hr : ∀ w : Value, Except.OnlyFails
      (fun fault => fault = .tooManyDigits ∨ ∃ shown, fault = .notNumber shown)
      (do throw (Fault.notNumber (← w.literal)) : Except Fault Number) := by
    intro w
    refine Except.OnlyFails.bind (fun e he => .inl (onlyFails_literal w e he)) fun shown _ => ?_
    rintro _ ⟨⟩
    exact .inr ⟨shown, rfl⟩
  cases v with
  | bool | number => exact Except.onlyFails_ok _
  | text s =>
    simp only [toNumber]
    split
    · exact Except.onlyFails_ok _
    · split
      · exact Except.onlyFails_ok _
      · exact hr _
  | null | list | record => exact hr _

inductive IsCompound : Value → Prop
  | list (items : List Value) : IsCompound (.list items)
  | record (fields : List (String × Value)) : IsCompound (.record fields)

theorem fails_ofValue_iff (v : Value) : Except.Fails (VarName.ofValue v) ↔ v.IsCompound := by
  cases v with
  | null | bool | number | text => exact ⟨nofun, nofun⟩
  | list items => exact iff_of_true ⟨_, rfl⟩ (.list items)
  | record fields => exact iff_of_true ⟨_, rfl⟩ (.record fields)

end Value

end BlockScript
