import BlockScript.Block.Validation
import BlockScript.Proofs.Failure

/-!
# What validation establishes

Every block of a program that passes validation has passed the rules for one
block: its kind is known, it holds blocks only if its kind does, and each input
with options has one of them, given or by default.
-/

set_option autoImplicit false

namespace BlockScript

namespace Validation

variable {scope : Scope} {seen seen' : Seen} {b : Block} {kind : Kind}

theorem forM_eq_ok {α : Type} {check : α → Except Violation PUnit} {items : List α}
    (h : items.forM check = .ok ()) : ∀ item ∈ items, check item = .ok () := by
  induction items with
  | nil => exact fun item hi => absurd hi List.not_mem_nil
  | cons first rest ih =>
    obtain ⟨_, hf, hr⟩ := Except.exists_of_bind_eq_ok (x := check first) h
    intro item hi
    rcases List.mem_cons.1 hi with rfl | hi
    · exact hf
    · exact ih hr item hi

/-- The rules for one block, in the order in which they are checked. -/
theorem checkHead_eq (scope : Scope) (seen : Seen) (b : Block) :
    checkHead scope seen b =
      if b.id = "" then .error (.emptyId b.type scope)
      else
        match Bindings.get? seen b.id, b.kind? with
        | some usedBy, _ => .error (.duplicateId b.id scope usedBy)
        | none, none => .error (.unknownType b.type b.id scope)
        | none, some kind =>
          kind.inputs.forM (checkInput b.id b.params scope) >>= fun _ =>
            if b.children.isSome && !kind.nests then
              .error (.forbiddenChildren b.id b.type scope)
            else .ok kind := by
  unfold checkHead
  by_cases hid : b.id = ""
  · rw [if_pos hid, if_pos hid]
    rfl
  · rw [if_neg hid, if_neg hid]
    cases Bindings.get? seen b.id with
    | some usedBy => rfl
    | none =>
      cases b.kind? with
      | none => rfl
      | some kind =>
        dsimp only
        refine congrArg (kind.inputs.forM (checkInput b.id b.params scope) >>= ·)
          (funext fun _ => ?_)
        cases b.children.isSome && !kind.nests <;> rfl

structure Passes (b : Block) (k : Kind) : Prop where
  kind : b.kind? = some k
  inputs : ∀ input ∈ k.inputs, ∃ scope, checkInput b.id b.params scope input = .ok ()
  nests : b.children.isSome = true → k.nests = true

theorem passes_of_checkHead (h : checkHead scope seen b = .ok kind) : Passes b kind := by
  rw [checkHead_eq] at h
  split at h
  · cases h
  · split at h
    · cases h
    · cases h
    · next hk =>
      obtain ⟨_, hi, h⟩ := Except.exists_of_bind_eq_ok h
      split at h
      · cases h
      · next hn =>
        cases h
        refine ⟨hk, fun input hm => ⟨scope, forM_eq_ok hi input hm⟩, fun hc => ?_⟩
        simpa [hc] using hn

mutual

theorem passes_of_checkBlock (scope : Scope) (seen seen' : Seen) :
    ∀ b : Block, checkBlock scope seen b = .ok seen' → ∀ x ∈ b.walk, ∃ kind, Passes x kind
  | ⟨id, type, params, none⟩, h, x, hx => by
    obtain ⟨kind, hh, -⟩ := Except.exists_of_bind_eq_ok h
    rw [List.mem_singleton.1 hx]
    exact ⟨kind, passes_of_checkHead hh⟩
  | ⟨id, type, params, some inner⟩, h, x, hx => by
    obtain ⟨kind, hh, hb⟩ := Except.exists_of_bind_eq_ok h
    rcases List.mem_cons.1 hx with rfl | hx
    · exact ⟨kind, passes_of_checkHead hh⟩
    · exact passes_of_checkBlocks _ _ _ inner hb x hx

theorem passes_of_checkBlocks (scope : Scope) (seen seen' : Seen) :
    ∀ bs : List Block, checkBlocks scope seen bs = .ok seen' →
      ∀ x ∈ Block.walkAll bs, ∃ kind, Passes x kind
  | [], _, x, hx => absurd hx List.not_mem_nil
  | b :: bs, h, x, hx => by
    obtain ⟨seen₁, hb, hbs⟩ := Except.exists_of_bind_eq_ok h
    rcases List.mem_append.1 hx with hx | hx
    · exact passes_of_checkBlock _ _ _ b hb x hx
    · exact passes_of_checkBlocks _ _ _ bs hbs x hx

end

theorem passes_of_validate {program : Program} (h : program.validate = .ok ()) :
    ∀ x ∈ program.walk, ∃ kind, Passes x kind := by
  unfold Program.validate at h
  cases hc : checkBlocks .program [] program with
  | error violation =>
    rw [hc] at h
    cases h
  | ok seen => exact passes_of_checkBlocks _ _ _ program hc

/-- A parameter of an input with options is one of them, given or by default. -/
theorem Passes.exists_option (h : Passes b kind) (name : String) {input : Input}
    {options : List String} (hi : kind.input? name = some input)
    (ho : input.options = some options) (hd : input.default.isOption options = true) :
    ∃ s ∈ options, b.param name = .ok (.text s) := by
  have hn : input.name = name := by simpa using List.find?_some hi
  have hv : ∃ v, b.param name = .ok v ∧ v.isOption options = true := by
    unfold Block.param
    cases hg : Bindings.get? b.params name with
    | none =>
      refine ⟨input.default, ?_, hd⟩
      simp [Block.default?, h.kind, hi]
    | some v =>
      refine ⟨v, rfl, ?_⟩
      obtain ⟨scope, hc⟩ := h.inputs input (List.mem_of_find?_eq_some hi)
      rw [checkInput, ho, hn, hg] at hc
      dsimp only at hc
      split at hc
      · assumption
      · split at hc <;> cases hc
  obtain ⟨v, hp, hv⟩ := hv
  cases v with
  | text s => exact ⟨s, by simpa [Value.isOption] using hv, hp⟩
  | _ => cases hv

end Validation

end BlockScript
