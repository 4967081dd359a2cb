import BlockScript.Proofs.Conversion.Command

/-!
# The line of a block from the texts of its parameters

Every parameter that a line shows is shown by one text: numbers and messages in
their display form, names and choices in their bare form. The line of a block is
the pattern of its kind with these texts filled in, so what holds of its texts
carries over to the line.
-/

set_option autoImplicit false

namespace BlockScript

open Script.Generate

def Input.show (input : Input) (v : Value) : Except Fault String :=
  match input.kind with
  | .text | .number => v.display
  | .choice | .name => v.bare

def Block.shown (b : Block) (input : Input) : Except Fault String := do
  input.show (← b.param input.name)

def Block.Spells (b : Block) (kind : Kind) (texts : String → String) : Prop :=
  ∀ input ∈ kind.inputs, b.shown input = .ok (texts input.name)

namespace Kind

open Command (surround)

def argument (names : List String) (text : String) : String :=
  if names.contains text || isNumberText text then text else Command.quoted text

def condition (texts : String → String) : String :=
  surround (surround (texts "condition_var") " " (texts "operator")) " " (texts "value")

def pattern (names : List String) (texts : String → String) : Kind → String
  | .start => "# Program Start"
  | .print => surround "print(" (argument names (texts "message")) ")"
  | .wait => surround "time.sleep(" (texts "seconds") ")"
  | .move => surround "avatar.move(\"" (texts "direction") "\")"
  | .setVar => surround (texts "name") " = " (texts "value")
  | .changeVar => surround (texts "name") " += " (texts "value")
  | .loop => surround "for i in range(" (texts "times") "):"
  | .loopUntil => surround "while not (" (condition texts) "):"
  | .branch => surround "if " (condition texts) ":"

theorem input?_name {kind : Kind} {input : Input} (h : input ∈ kind.inputs) :
    kind.input? input.name = some input := by
  cases kind <;> simp only [inputs, conditionInputs, List.mem_cons, List.not_mem_nil, or_false] at h
  all_goals rcases h with rfl | rfl | rfl <;> rfl

theorem exists_nameInput {kind : Kind} {name : String} (h : kind.nameInput? = some name) :
    ∃ input ∈ kind.inputs, input.name = name ∧ input.kind = .name ∧
      input.default = .text "score" := by
  cases kind <;> cases h <;> exact ⟨_, List.mem_cons_self, rfl, rfl, rfl⟩

end Kind

section Lines

variable {names : List String} {b : Block} {kind : Kind} {texts : String → String}

/-- If every input of a block has a text, the texts can be given by the names of the inputs. -/
theorem Block.exists_spells (h : ∀ input ∈ kind.inputs, ∃ text, b.shown input = .ok text) :
    ∃ texts, b.Spells kind texts := by
  let texts (name : String) : String :=
    ((kind.input? name).bind fun input => (b.shown input).toOption).getD ""
  refine ⟨texts, fun input hi => ?_⟩
  obtain ⟨text, ht⟩ := h input hi
  have hv : texts input.name = text := by
    simp [texts, Kind.input?_name hi, ht, Except.toOption]
  rw [hv, ht]

theorem printArgument_of_display (names : List String) {v : Value} {text : String}
    (h : v.display = .ok text) : printArgument names v = .ok (Kind.argument names text) := by
  rw [printArgument, h]
  rfl

theorem conditionText_of_spells
    (h : ∀ input ∈ Kind.conditionInputs, b.shown input = .ok (texts input.name)) :
    conditionText b = .ok (Kind.condition texts) := by
  simp only [Kind.conditionInputs, List.forall_mem_cons] at h
  obtain ⟨hsubject, hoperator, hvalue, -⟩ := h
  have hs : bareParam b "condition_var" = .ok (texts "condition_var") := hsubject
  have ho : bareParam b "operator" = .ok (texts "operator") := hoperator
  have hv : displayParam b "value" = .ok (texts "value") := hvalue
  rw [conditionText, hs, Except.ok_bind, ho, Except.ok_bind, hv]
  rfl

/-- The line of a block is the pattern of its kind, filled in with what the block shows. -/
theorem lineOf_of_spells (hk : b.kind? = some kind) (h : b.Spells kind texts) :
    lineOf names b = .ok (kind.pattern names texts) := by
  rw [lineOf, hk]
  cases kind with
  | start => rfl
  | loopUntil | branch =>
    have hc : conditionText b = .ok (Kind.condition texts) := conditionText_of_spells h
    simp only [hc]
    rfl
  | loop =>
    have ht : displayParam b "times" = .ok (texts "times") := h _ List.mem_cons_self
    simp only [ht]
    rfl
  | wait =>
    have hs : displayParam b "seconds" = .ok (texts "seconds") := h _ List.mem_cons_self
    simp only [hs]
    rfl
  | move =>
    have hd : bareParam b "direction" = .ok (texts "direction") := h _ List.mem_cons_self
    simp only [hd]
    rfl
  | print =>
    obtain ⟨v, hv, hd⟩ := Except.exists_of_bind_eq_ok (h _ List.mem_cons_self)
    have hp : b.param "message" = .ok v := hv
    simp only [hp, Except.ok_bind, printArgument_of_display names hd]
    rfl
  | setVar | changeVar =>
    have hn : bareParam b "name" = .ok (texts "name") := h _ List.mem_cons_self
    have hv : displayParam b "value" = .ok (texts "value") :=
      h _ (List.mem_cons_of_mem _ List.mem_cons_self)
    simp only [hn, hv]
    rfl

theorem Kind.unbroken_argument {text : String} (h : '\n' ∉ text.toList) (names : List String) :
    '\n' ∉ (argument names text).toList := by
  unfold argument Command.quoted
  split
  · exact h
  · split <;> exact Command.not_mem_surround (by decide) h (by decide)

theorem Kind.unbroken_pattern (h : ∀ input ∈ kind.inputs, '\n' ∉ (texts input.name).toList) :
    '\n' ∉ (kind.pattern names texts).toList := by
  have hcondition : (∀ input ∈ conditionInputs, '\n' ∉ (texts input.name).toList) →
      '\n' ∉ (condition texts).toList := by
    intro h
    simp only [conditionInputs, List.forall_mem_cons] at h
    exact Command.not_mem_surround (Command.not_mem_surround h.1 (by decide) h.2.1) (by decide)
      h.2.2.1
  cases kind with
  | start =>
    change '\n' ∉ "# Program Start".toList
    decide
  | print =>
    have hm := unbroken_argument (h _ List.mem_cons_self) names
    exact Command.not_mem_surround (by decide) hm (by decide)
  | wait | move | loop =>
    exact Command.not_mem_surround (by decide) (h _ List.mem_cons_self) (by decide)
  | setVar | changeVar =>
    exact Command.not_mem_surround (h _ List.mem_cons_self) (by decide)
      (h _ (List.mem_cons_of_mem _ List.mem_cons_self))
  | loopUntil | branch => exact Command.not_mem_surround (by decide) (hcondition h) (by decide)

/-- A line starts with a word character, but for the comment at the start of a program,
if the name that is assigned to does. -/
theorem Kind.exists_pattern (names : List String)
    (h : kind = .setVar ∨ kind = .changeVar → Script.IsWord (texts "name").toList)
    (hk : kind ≠ .start) :
    ∃ c rest, (kind.pattern names texts).toList = c :: rest ∧ Text.isWord c = true := by
  cases kind with
  | start => exact absurd rfl hk
  | setVar | changeVar =>
    have hw : Script.IsWord (texts "name").toList := h (by simp)
    obtain ⟨c, rest, hc⟩ := List.exists_cons_of_ne_nil hw.ne_nil
    have hword : Text.isWord c = true := hw.word c (by simp [hc])
    rw [pattern, Command.toList_surround, hc]
    exact ⟨c, _, rfl, hword⟩
  | print | wait | move | loop | loopUntil | branch =>
    rw [pattern, Command.toList_surround]
    exact ⟨_, _, rfl, by decide⟩

end Lines

end BlockScript
