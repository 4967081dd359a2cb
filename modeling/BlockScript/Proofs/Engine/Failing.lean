import BlockScript.Proofs.Engine.Correspondence
import BlockScript.Proofs.Engine.InPlace
import BlockScript.Proofs.Value.Showing

/-!
# When a block fails

A block fails for one of a few causes: a value that is not a number where one is
needed, a list or record in place of a name, an integer that does not fit the
floating point number it is added to, or an integer too long to be shown. A
parameter is never missing, since every input a kind of block reads has a default.
A block that fails changes nothing, also when it is executed in place.
-/

set_option autoImplicit false

namespace BlockScript

namespace Block

variable {b : Block} {kind : Kind} {vars : Bindings VarName Number}

theorem exists_param (hk : b.kind? = some kind) (name : String)
    (hi : (kind.input? name).isSome = true) : ∃ v, b.param name = .ok v := by
  obtain ⟨input, hi⟩ := Option.isSome_iff_exists.1 hi
  unfold param
  cases Bindings.get? b.params name with
  | some v => exact ⟨v, rfl⟩
  | none => exact ⟨input.default, by simp [default?, hk, hi]⟩

def Assigns (b : Block) : Prop := b.kind? = some .setVar ∨ b.kind? = some .changeVar

def Tests (b : Block) : Prop :=
  (b.kind? = some .branch ∨ b.kind? = some .loopUntil) ∧ b.hasChildren = true

inductive Shows (b : Block) (vars : Bindings VarName Number) : Value → Prop
  | named {s : String} {n : Number} : b.kind? = some .print →
      b.param "message" = .ok (.text s) → vars.get? (.text s) = some n → Shows b vars (.number n)
  | message {v : Value} : b.kind? = some .print → b.param "message" = .ok v →
      (∀ s, v = .text s → vars.get? (.text s) = none) → Shows b vars v
  | wait {v : Value} : b.kind? = some .wait → b.param "seconds" = .ok v → Shows b vars v
  | move {v : Value} : b.kind? = some .move → b.param "direction" = .ok v → Shows b vars v

/-- What has to be wrong for a block to fail. -/
inductive Failing (b : Block) (vars : Bindings VarName Number) : Prop
  | notNumber {v : Value} : b.Assigns → b.param "value" = .ok v → Except.Fails v.toNumber →
      Failing b vars
  | notName {v : Value} : b.Assigns → b.param "name" = .ok v → v.IsCompound → Failing b vars
  | misfit {v given : Value} {name : VarName} {current delta : Number} :
      b.kind? = some .changeVar → b.param "name" = .ok given → VarName.ofValue given = .ok name →
      vars.get? name = some current → b.param "value" = .ok v → v.toNumber = .ok delta →
      current.Misfit delta → Failing b vars
  | tooLong {v : Value} : b.Shows vars v → v.HoldsLong → Failing b vars
  | notSubject {v : Value} : b.Tests → b.param "condition_var" = .ok v → v.IsCompound →
      Failing b vars

section Kinds

variable {given v : Value}

theorem fails_setVar_iff (hn : b.param "name" = .ok given) (hv : b.param "value" = .ok v) :
    Except.Fails (b.effectOf vars .setVar) ↔ Except.Fails v.toNumber ∨ given.IsCompound := by
  simp only [effectOf, hn, hv, Except.ok_bind, ← Value.fails_ofValue_iff]
  exact Except.fails_bind_const fun n _ => Except.fails_bind_pure _

theorem fails_changeVar_iff (hn : b.param "name" = .ok given) (hv : b.param "value" = .ok v) :
    Except.Fails (b.effectOf vars .changeVar) ↔
      Except.Fails v.toNumber ∨ given.IsCompound ∨
        ∃ name current delta, VarName.ofValue given = .ok name ∧ vars.get? name = some current ∧
          v.toNumber = .ok delta ∧ current.Misfit delta := by
  simp only [effectOf, hn, hv, Except.ok_bind, ← Value.fails_ofValue_iff]
  refine Except.fails_bind_const fun delta hd => Except.fails_bind_const fun name hname => ?_
  rw [Except.fails_bind_pure, Number.fails_add_iff, hd, hname]
  cases hg : vars.get? name with
  | none => simp [Number.not_misfit_zero, hg]
  | some current => simp [hg]

theorem fails_messageText_iff (message : Value) :
    Except.Fails (messageText message vars) ↔
      (∃ s n, message = .text s ∧ vars.get? (.text s) = some n ∧ Value.HoldsLong (.number n)) ∨
        (∀ s, message = .text s → vars.get? (.text s) = none) ∧ message.HoldsLong := by
  cases message with
  | text s =>
    rw [messageText]
    cases hg : vars.get? (.text s) with
    | none => simp [hg]
    | some n => simp [hg, Value.fails_display_number_iff]
  | null | bool | number | list | record =>
    rw [messageText, Value.fails_display_iff] <;> simp

theorem fails_condition_iff (hk : b.kind? = some kind) (hc : kind = .branch ∨ kind = .loopUntil)
    (hv : b.param "condition_var" = .ok v) : Except.Fails b.condition ↔ v.IsCompound := by
  have hi : ∀ name ∈ ["operator", "value"], (kind.input? name).isSome = true := by
    rcases hc with rfl | rfl <;> decide
  obtain ⟨operator, ho⟩ := exists_param hk "operator" (hi _ (by decide))
  obtain ⟨value, hvalue⟩ := exists_param hk "value" (hi _ (by decide))
  simp only [condition, hv, ho, hvalue, Except.ok_bind, ← Value.fails_ofValue_iff]
  exact Except.fails_bind_pure _

theorem fails_test_iff (hk : b.kind? = some kind) (hc : kind = .branch ∨ kind = .loopUntil)
    (hv : b.param "condition_var" = .ok v) :
    Except.Fails (b.effectOf vars kind) ↔ b.hasChildren = true ∧ v.IsCompound := by
  have hf := fails_condition_iff hk hc hv
  rcases hc with rfl | rfl
  all_goals
    rw [effectOf]
    cases b.hasChildren with
    | false => simp
    | true => rw [if_pos rfl, Except.fails_bind_pure, hf, eq_self, true_and]

end Kinds

theorem failing_of_fails (h : Except.Fails (b.effect vars)) : b.Failing vars := by
  unfold effect at h
  cases hk : b.kind? with
  | none => simp [hk] at h
  | some kind =>
    rw [hk] at h
    cases kind with
    | start => exact absurd h (Except.not_fails_ok _)
    | loop => exact absurd h (Except.not_fails_ok _)
    | print =>
      obtain ⟨message, hm⟩ := exists_param hk "message" rfl
      simp only [effectOf, hm, Except.ok_bind, Except.fails_bind_pure,
        fails_messageText_iff] at h
      rcases h with ⟨s, n, rfl, hg, hl⟩ | ⟨hg, hl⟩
      · exact .tooLong (.named hk hm hg) hl
      · exact .tooLong (.message hk hm hg) hl
    | wait =>
      obtain ⟨v, hv⟩ := exists_param hk "seconds" rfl
      simp only [effectOf, hv, Except.ok_bind, Except.fails_bind_pure,
        Value.fails_display_iff] at h
      exact .tooLong (.wait hk hv) h
    | move =>
      obtain ⟨v, hv⟩ := exists_param hk "direction" rfl
      simp only [effectOf, hv, Except.ok_bind, Except.fails_bind_pure, Value.fails_bare_iff] at h
      exact .tooLong (.move hk hv) h
    | setVar =>
      obtain ⟨given, hn⟩ := exists_param hk "name" rfl
      obtain ⟨v, hv⟩ := exists_param hk "value" rfl
      rcases (fails_setVar_iff hn hv).1 h with h | h
      · exact .notNumber (.inl hk) hv h
      · exact .notName (.inl hk) hn h
    | changeVar =>
      obtain ⟨given, hn⟩ := exists_param hk "name" rfl
      obtain ⟨v, hv⟩ := exists_param hk "value" rfl
      rcases (fails_changeVar_iff hn hv).1 h with h | h | ⟨name, current, delta, ho, hg, hd, h⟩
      · exact .notNumber (.inr hk) hv h
      · exact .notName (.inr hk) hn h
      · exact .misfit hk hn ho hg hv hd h
    | branch =>
      obtain ⟨v, hv⟩ := exists_param hk "condition_var" rfl
      obtain ⟨hc, h⟩ := (fails_test_iff hk (.inl rfl) hv).1 h
      exact .notSubject ⟨.inl hk, hc⟩ hv h
    | loopUntil =>
      obtain ⟨v, hv⟩ := exists_param hk "condition_var" rfl
      obtain ⟨hc, h⟩ := (fails_test_iff hk (.inr rfl) hv).1 h
      exact .notSubject ⟨.inr hk, hc⟩ hv h

theorem fails_of_failing (h : b.Failing vars) : Except.Fails (b.effect vars) := by
  unfold effect
  cases h with
  | @notNumber v ha hv h =>
    rcases ha with hk | hk
    · obtain ⟨given, hn⟩ := exists_param hk "name" rfl
      rw [hk]
      exact (fails_setVar_iff hn hv).2 (.inl h)
    · obtain ⟨given, hn⟩ := exists_param hk "name" rfl
      rw [hk]
      exact (fails_changeVar_iff hn hv).2 (.inl h)
  | @notName given ha hn h =>
    rcases ha with hk | hk
    · obtain ⟨v, hv⟩ := exists_param hk "value" rfl
      rw [hk]
      exact (fails_setVar_iff hn hv).2 (.inr h)
    · obtain ⟨v, hv⟩ := exists_param hk "value" rfl
      rw [hk]
      exact (fails_changeVar_iff hn hv).2 (.inr (.inl h))
  | misfit hk hn ho hg hv hd h =>
    rw [hk]
    exact (fails_changeVar_iff hn hv).2 (.inr (.inr ⟨_, _, _, ho, hg, hd, h⟩))
  | tooLong hs h =>
    cases hs with
    | named hk hm hg =>
      simp only [hk, effectOf, hm, Except.ok_bind, Except.fails_bind_pure, fails_messageText_iff]
      exact .inl ⟨_, _, rfl, hg, h⟩
    | message hk hm hg =>
      simp only [hk, effectOf, hm, Except.ok_bind, Except.fails_bind_pure, fails_messageText_iff]
      exact .inr ⟨hg, h⟩
    | wait hk hv =>
      simpa only [hk, effectOf, hv, Except.ok_bind, Except.fails_bind_pure,
        Value.fails_display_iff] using h
    | move hk hv =>
      simpa only [hk, effectOf, hv, Except.ok_bind, Except.fails_bind_pure,
        Value.fails_bare_iff] using h
  | notSubject ht hv h =>
    obtain ⟨hk | hk, hc⟩ := ht
    · rw [hk]
      exact (fails_test_iff hk (.inl rfl) hv).2 ⟨hc, h⟩
    · rw [hk]
      exact (fails_test_iff hk (.inr rfl) hv).2 ⟨hc, h⟩

theorem fails_effect_iff : Except.Fails (b.effect vars) ↔ b.Failing vars :=
  ⟨failing_of_fails, fails_of_failing⟩

end Block

def Fault.IsOfValue (fault : Fault) : Prop :=
  ∀ block type parameter, fault ≠ .missingParameter block type parameter

namespace Block

variable {b : Block} {vars : Bindings VarName Number}

theorem isOfValue_of_tooManyDigits (fault : Fault) (h : fault = .tooManyDigits) :
    fault.IsOfValue := by
  subst h
  exact nofun

theorem onlyFails_toNumber (v : Value) : Except.OnlyFails Fault.IsOfValue v.toNumber := by
  refine v.onlyFails_toNumber.mono ?_
  rintro _ (rfl | ⟨shown, rfl⟩)
  · exact nofun
  · exact nofun

theorem onlyFails_ofValue (v : Value) : Except.OnlyFails Fault.IsOfValue (VarName.ofValue v) := by
  cases v with
  | null | bool | number | text => exact Except.onlyFails_ok _
  | list | record =>
    rintro _ ⟨⟩
    exact nofun

theorem onlyFails_addBy (convert : Int → Option Binary64) (x y : Number) :
    Except.OnlyFails Fault.IsOfValue (Number.addBy convert x y) := by
  unfold Number.addBy
  split
  · exact Except.onlyFails_ok _
  · exact Except.onlyFails_ok _
  · split
    · exact Except.onlyFails_ok _
    · rintro _ ⟨⟩
      exact nofun
  · split
    · exact Except.onlyFails_ok _
    · rintro _ ⟨⟩
      exact nofun

theorem onlyFails_messageText (message : Value) :
    Except.OnlyFails Fault.IsOfValue (messageText message vars) := by
  unfold messageText
  split
  · split
    · exact (Value.onlyFails_display_number _).mono isOfValue_of_tooManyDigits
    · exact Except.onlyFails_ok _
  · exact (Value.onlyFails_display _).mono isOfValue_of_tooManyDigits

theorem onlyFails_condition {kind : Kind} (hk : b.kind? = some kind)
    (hc : kind = .branch ∨ kind = .loopUntil) : Except.OnlyFails Fault.IsOfValue b.condition := by
  have hi : ∀ name ∈ ["condition_var", "operator", "value"],
      (kind.input? name).isSome = true := by
    rcases hc with rfl | rfl <;> decide
  obtain ⟨v, hv⟩ := exists_param hk "condition_var" (hi _ (by decide))
  obtain ⟨operator, ho⟩ := exists_param hk "operator" (hi _ (by decide))
  obtain ⟨value, hvalue⟩ := exists_param hk "value" (hi _ (by decide))
  simp only [condition, hv, ho, hvalue, Except.ok_bind]
  exact (onlyFails_ofValue v).bind fun _ _ => Except.onlyFails_ok _

/-- No block lacks a parameter that it reads. -/
theorem onlyFails_effect (b : Block) (vars : Bindings VarName Number) :
    Except.OnlyFails Fault.IsOfValue (b.effect vars) := by
  unfold effect
  cases hk : b.kind? with
  | none => exact Except.onlyFails_ok _
  | some kind =>
    cases kind with
    | start => exact Except.onlyFails_ok _
    | loop => exact Except.onlyFails_ok _
    | print =>
      obtain ⟨message, hm⟩ := exists_param hk "message" rfl
      simp only [effectOf, hm, Except.ok_bind]
      exact (onlyFails_messageText message).bind fun _ _ => Except.onlyFails_ok _
    | wait =>
      obtain ⟨v, hv⟩ := exists_param hk "seconds" rfl
      simp only [effectOf, hv, Except.ok_bind]
      exact (v.onlyFails_display.mono isOfValue_of_tooManyDigits).bind
        fun _ _ => Except.onlyFails_ok _
    | move =>
      obtain ⟨v, hv⟩ := exists_param hk "direction" rfl
      simp only [effectOf, hv, Except.ok_bind]
      exact (v.onlyFails_bare.mono isOfValue_of_tooManyDigits).bind
        fun _ _ => Except.onlyFails_ok _
    | setVar =>
      obtain ⟨given, hn⟩ := exists_param hk "name" rfl
      obtain ⟨v, hv⟩ := exists_param hk "value" rfl
      simp only [effectOf, hn, hv, Except.ok_bind]
      exact (onlyFails_toNumber v).bind fun _ _ =>
        (onlyFails_ofValue given).bind fun _ _ => Except.onlyFails_ok _
    | changeVar =>
      obtain ⟨given, hn⟩ := exists_param hk "name" rfl
      obtain ⟨v, hv⟩ := exists_param hk "value" rfl
      simp only [effectOf, hn, hv, Except.ok_bind]
      exact (onlyFails_toNumber v).bind fun _ _ => (onlyFails_ofValue given).bind fun _ _ =>
        (onlyFails_addBy _ _ _).bind fun _ _ => Except.onlyFails_ok _
    | branch =>
      simp only [effectOf]
      split
      · exact (onlyFails_condition hk (.inl rfl)).bind fun _ _ => Except.onlyFails_ok _
      · exact Except.onlyFails_ok _
    | loopUntil =>
      simp only [effectOf]
      split
      · exact (onlyFails_condition hk (.inr rfl)).bind fun _ _ => Except.onlyFails_ok _
      · exact Except.onlyFails_ok _

/-- Blocks of these kinds do not read a value that could be wrong for them. -/
theorem not_failing (h : b.kind? = none ∨ b.kind? = some .start ∨ b.kind? = some .loop) :
    ¬ b.Failing vars := by
  rw [← fails_effect_iff, effect]
  rcases h with h | h | h <;> simp [h, effectOf]

end Block

namespace Engine

variable {e : Engine} {b : Block} {frame : Frame} {below : List Frame}

/-- The next block fails exactly for one of the causes there are, and then the
variables, the console and the frames are what they were before the block was
executed, even if it is executed write by write. The fault is never a missing
parameter, and a start, a loop that counts and a block of unknown type never fail. -/
theorem step_fails_iff (ha : e.isTerminal = false)
    (hs : settle e.store.vars e.stack = some (b, frame, below)) :
    ((∃ id fault, e.step.status = .failed id fault) ↔ b.Failing e.store.vars) ∧
    (∀ id fault, e.step.status = .failed id fault →
      id = b.id ∧ fault.IsOfValue ∧ e.step.store = e.store ∧ e.step.stack = frame :: below ∧
        b.execute ⟨e.store, frame :: below⟩ = .error fault ⟨e.store, frame :: below⟩) ∧
    (b.kind? = none ∨ b.kind? = some .start ∨ b.kind? = some .loop →
      ∀ id fault, e.step.status ≠ .failed id fault) := by
  have hexecute := b.execute_eq ⟨e.store, frame :: below⟩
  cases he : b.effect e.store.vars with
  | error fault =>
    have hf : b.Failing e.store.vars := Block.fails_effect_iff.1 ⟨fault, he⟩
    rw [step_of_fault ha hs he]
    rw [he] at hexecute
    refine ⟨iff_of_true ⟨b.id, fault, rfl⟩ hf, ?_, fun hk => absurd hf (Block.not_failing hk)⟩
    rintro _ _ ⟨⟩
    exact ⟨rfl, b.onlyFails_effect e.store.vars fault he, rfl, rfl, hexecute⟩
  | ok effect =>
    have hf : ¬ b.Failing e.store.vars := by
      rw [← Block.fails_effect_iff, he]
      exact Except.not_fails_ok _
    rw [step_of_effect ha hs he]
    exact ⟨iff_of_false nofun hf, nofun, fun _ => nofun⟩

/-- After one step of this program its variable is an integer that no floating
point number can be added to, and so the second step fails and leaves it bound. -/
theorem step_fails_on_misfit :
    let set : Block := ⟨"a", "set_var", [("name", .text "n"), ("value", .int (2 ^ 1024))], none⟩
    let change : Block :=
      ⟨"b", "change_var", [("name", .text "n"), ("value", .text "0.5")], none⟩
    let e := runFor 1 (start [set, change])
    e.isTerminal = false ∧ change.Failing e.store.vars ∧
      (∃ id fault, e.step.status = .failed id fault) ∧ e.step.store = e.store := by
  intro set change e
  have ha : e.isTerminal = false := rfl
  have hs : settle e.store.vars e.stack = some (change, ⟨[set, change], 1, .once⟩, []) := rfl
  have hd : (Value.text "0.5").toNumber = .ok (.float _) := rfl
  have hf : change.Failing e.store.vars :=
    .misfit rfl rfl rfl rfl rfl hd (.left _ (by decide +kernel))
  obtain ⟨hiff, hkeep, -⟩ := step_fails_iff ha hs
  obtain ⟨id, fault, hfailed⟩ := hiff.2 hf
  exact ⟨ha, hf, ⟨id, fault, hfailed⟩, (hkeep id fault hfailed).2.2.1⟩

end Engine

end BlockScript
