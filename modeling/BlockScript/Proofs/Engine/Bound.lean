import BlockScript.Proofs.Bindings
import BlockScript.Proofs.Block.Names
import BlockScript.Proofs.Engine.Unchecked

/-!
# Names that a running program binds

A block takes the name of its variable from a parameter, its own or the default.
So what holds of all these parameters holds of every name that is bound at any
point of a run; and a name that is text is one of the names of the program.
-/

set_option autoImplicit false

namespace BlockScript

namespace Block

variable {b : Block}

/-- Only a block that sets or changes a variable puts one, and under the name that
is its parameter. -/
theorem exists_param_of_put {vars : Bindings VarName Number} {name : VarName} {n : Number}
    (h : b.effect vars = .ok (.put name n)) :
    (b.kind? = some .setVar ∨ b.kind? = some .changeVar) ∧
      ∃ v, b.param "name" = .ok v ∧ VarName.ofValue v = .ok name := by
  unfold effect at h
  split at h
  · next kind hk =>
    cases kind with
    | setVar =>
      obtain ⟨v, hv, h⟩ := Except.exists_of_bind_eq_ok h
      obtain ⟨given, -, h⟩ := Except.exists_of_bind_eq_ok h
      obtain ⟨n', -, h⟩ := Except.exists_of_bind_eq_ok h
      obtain ⟨name', hn, h⟩ := Except.exists_of_bind_eq_ok h
      cases h
      exact ⟨.inl hk, v, hv, hn⟩
    | changeVar =>
      obtain ⟨v, hv, h⟩ := Except.exists_of_bind_eq_ok h
      obtain ⟨given, -, h⟩ := Except.exists_of_bind_eq_ok h
      obtain ⟨delta, -, h⟩ := Except.exists_of_bind_eq_ok h
      obtain ⟨name', hn, h⟩ := Except.exists_of_bind_eq_ok h
      obtain ⟨sum, -, h⟩ := Except.exists_of_bind_eq_ok h
      cases h
      exact ⟨.inr hk, v, hv, hn⟩
    | start => cases h
    | print | wait | move =>
      obtain ⟨given, -, h⟩ := Except.exists_of_bind_eq_ok h
      obtain ⟨text, -, h⟩ := Except.exists_of_bind_eq_ok h
      cases h
    | loop =>
      simp only [effectOf, Except.ok.injEq] at h
      split at h <;> cases h
    | loopUntil | branch =>
      simp only [effectOf] at h
      split at h
      · obtain ⟨condition, -, h⟩ := Except.exists_of_bind_eq_ok h
        have he := Except.ok.inj h
        split at he <;> cases he
      · cases h
  · cases h

end Block

namespace Engine

variable {program : Program} {e : Engine}

def Names (p : VarName → Prop) (e : Engine) : Prop := ∀ binding ∈ e.store.vars, p binding.1

variable {p : VarName → Prop}

theorem Names.put (h : e.Names p) {name : VarName} (hn : p name) (n : Number) :
    ∀ binding ∈ e.store.vars.put name n, p binding.1 := by
  intro binding hm
  rcases Bindings.mem_put hm with hm | ⟨-, hk | hk⟩
  · exact h binding hm
  · exact hk ▸ hn
  · obtain ⟨old, ho, hk⟩ := List.mem_map.1 hk
    exact hk ▸ h old ho

theorem step_names {e' : Engine} (h : e.StepsTo e') (hs : e.Sound program)
    (hp : ∀ b ∈ program.walk, ∀ v name, (b.kind? = some .setVar ∨ b.kind? = some .changeVar) →
      b.param "name" = .ok v → VarName.ofValue v = .ok name → p name)
    (hn : e.Names p) : e'.Names p := by
  cases h with
  | stopped => exact hn
  | finished => exact hn
  | failed => exact hn
  | @executed b frame below effect ha hnext he =>
    obtain ⟨hb, hnest⟩ := settle_nested hs.nested hnext
    have hw : b ∈ program.walk :=
      hnest.mem_walk frame.walk List.mem_cons_self b (List.mem_of_getElem? hb)
    cases effect with
    | nothing | say | opens => exact hn
    | put name n =>
      obtain ⟨hk, v, hv, ho⟩ := Block.exists_param_of_put he
      exact hn.put (hp b hw v name hk hv ho) n

theorem runFor_names (n : Nat) (hs : e.Sound program)
    (hp : ∀ b ∈ program.walk, ∀ v name, (b.kind? = some .setVar ∨ b.kind? = some .changeVar) →
      b.param "name" = .ok v → VarName.ofValue v = .ok name → p name)
    (h : e.Names p) : (runFor n e).Names p := by
  induction n generalizing e with
  | zero => exact h
  | succ n ih =>
    rw [runFor]
    split
    · exact h
    · exact ih (step_sound hs) (step_names e.stepsTo_step hs hp h)

/-- A name that is text is bound only if it is one of the names of the program. -/
theorem runFor_text_mem (n : Nat) {names : List String}
    (hv : program.variableNames = .ok names) :
    (runFor n (start program)).Names fun name => ∀ x, name = .text x → x ∈ names := by
  refine runFor_names n (start_sound program) ?_ nofun
  rintro b hw v _ hk hp ho x rfl
  have hx : v = .text x := (VarName.toValue_of_ofValue ho).symm
  have hname : Program.variableName? b = some (.text x) := by
    rcases hk with hk | hk
    · exact Program.variableName?_of_param hk rfl (hx ▸ hp)
    · exact Program.variableName?_of_param hk rfl (hx ▸ hp)
  exact (Program.mem_variableNames hv x).2 ⟨b, hw, .text x, hname, rfl⟩

theorem get?_runFor_of_not_mem (n : Nat) {names : List String}
    (hv : program.variableNames = .ok names) {x : String} (hx : x ∉ names) :
    (runFor n (start program)).store.vars.get? (.text x) = none := by
  cases hg : (runFor n (start program)).store.vars.get? (.text x) with
  | none => rfl
  | some value =>
    obtain ⟨k, hk, hm⟩ := Bindings.exists_same_of_get? hg
    exact absurd (runFor_text_mem n hv _ hm x ((VarName.text_beq_iff x k).1 hk)) hx

end Engine

end BlockScript
