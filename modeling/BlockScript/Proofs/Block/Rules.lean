import BlockScript.Proofs.Block.Validity
import Mathlib.Data.List.Induction
import Mathlib.Data.List.Nodup

/-!
# The rules of a valid program

A block can break five rules: it has no id, an id that a block before it has, an
unknown type, something that is not among the options of an input, or a list of
blocks that its kind does not have. Each rule is said of a block and the blocks
before it in the walk of the program. Validation accepts a program in which no
block breaks a rule, and otherwise reports the first block that does, by the
first of the rules that it breaks.
-/

set_option autoImplicit false

namespace BlockScript

def Input.Accepts (input : Input) (params : List (String × Value)) : Prop :=
  input.kind = .choice → ∀ options, input.options = some options →
    ∀ v, Bindings.get? params input.name = some v → ∃ s ∈ options, v = .text s

structure Block.Lawful (b : Block) : Prop where
  hasId : b.id ≠ ""
  known : b.kind? ≠ none
  options : ∀ kind, b.kind? = some kind → ∀ input ∈ kind.inputs, input.Accepts b.params
  nesting : ∀ kind, b.kind? = some kind → kind.nests = false → b.children = none

/-- What a valid program is: lawful blocks with ids of their own, at any depth. -/
structure Program.WellFormed (program : Program) : Prop where
  lawful : ∀ b ∈ program.walk, b.Lawful
  distinct : (program.walk.map Block.id).Nodup

namespace Block

mutual

def placed (scope : Scope) : Block → List (Scope × Block)
  | ⟨id, type, params, none⟩ => [(scope, ⟨id, type, params, none⟩)]
  | ⟨id, type, params, some inner⟩ =>
    (scope, ⟨id, type, params, some inner⟩) :: placedAll (.inside type id) inner

def placedAll (scope : Scope) : List Block → List (Scope × Block)
  | [] => []
  | b :: bs => b.placed scope ++ placedAll scope bs

end

mutual

theorem map_placed (scope : Scope) : ∀ b : Block, (b.placed scope).map Prod.snd = b.walk
  | ⟨id, type, params, none⟩ => rfl
  | ⟨id, type, params, some inner⟩ => by
    simp [placed, walk, map_placedAll (.inside type id) inner]

theorem map_placedAll (scope : Scope) :
    ∀ bs : List Block, (placedAll scope bs).map Prod.snd = walkAll bs
  | [] => rfl
  | b :: bs => by simp [placedAll, walkAll, map_placed scope b, map_placedAll scope bs]

end

end Block

def Program.placed (program : Program) : List (Scope × Block) := Block.placedAll .program program

def Violation.ofOption (id input : String) (given : Value) (options : List String)
    (scope : Scope) : Violation :=
  match given.literal with
  | .ok shown => .badOption id input shown options scope
  | .error fault => .unshowable fault

/-- The rules, in the order in which they are looked at. -/
inductive Rule where
  | emptyId
  | duplicateId
  | unknownType
  | badOption
  | forbiddenChildren
  deriving DecidableEq, Repr

namespace Rule

def rank : Rule → Nat
  | .emptyId => 0
  | .duplicateId => 1
  | .unknownType => 2
  | .badOption => 3
  | .forbiddenChildren => 4

def Broken (before : List Block) (b : Block) : Rule → Prop
  | .emptyId => b.id = ""
  | .duplicateId => ∃ x ∈ before, x.id = b.id
  | .unknownType => b.kind? = none
  | .badOption => ∃ kind, b.kind? = some kind ∧ ∃ input ∈ kind.inputs, ¬ input.Accepts b.params
  | .forbiddenChildren => ∃ kind, b.kind? = some kind ∧ kind.nests = false ∧ b.children ≠ none

/-- How a broken rule is reported. A duplicate names the type of the first block
with the id, and a bad option the first input that was given one. -/
inductive Reported (before : List Block) (scope : Scope) (b : Block) : Rule → Violation → Prop
  | emptyId : Reported before scope b .emptyId (.emptyId b.type scope)
  | duplicateId {first : Block} : before.find? (·.id = b.id) = some first →
      Reported before scope b .duplicateId (.duplicateId b.id scope first.type)
  | unknownType : Reported before scope b .unknownType (.unknownType b.type b.id scope)
  | badOption {kind : Kind} {earlier later : List Input} {input : Input} {options : List String}
      {v : Value} : b.kind? = some kind →
      kind.inputs = earlier ++ input :: later → (∀ i ∈ earlier, i.Accepts b.params) →
      ¬ input.Accepts b.params → input.options = some options →
      Bindings.get? b.params input.name = some v →
      Reported before scope b .badOption (.ofOption b.id input.name v options scope)
  | forbiddenChildren :
      Reported before scope b .forbiddenChildren (.forbiddenChildren b.id b.type scope)

end Rule

/-- A block is refused for the first of the rules that it breaks. -/
def Block.RefusedFor (before : List Block) (scope : Scope) (b : Block) (violation : Violation) :
    Prop :=
  ∃ rule : Rule, rule.Broken before b ∧ (∀ r : Rule, r.rank < rule.rank → ¬ r.Broken before b) ∧
    rule.Reported before scope b violation

theorem Rule.rank_injective : Function.Injective rank := by
  intro r s h
  cases r <;> cases s <;> first | rfl | cases h

theorem Rule.kept_succ (rule : Rule) {before : List Block} {b : Block}
    (h : ∀ r : Rule, r.rank < rule.rank → ¬ r.Broken before b) (hn : ¬ rule.Broken before b) :
    ∀ r : Rule, r.rank < rule.rank + 1 → ¬ r.Broken before b := by
  intro r hr
  rcases Nat.lt_succ_iff_lt_or_eq.1 hr with hlt | heq
  · exact h r hlt
  · rwa [rank_injective heq]

def Clean (blocks : List Block) : Prop :=
  ∀ before b after, blocks = before ++ b :: after → ∀ rule : Rule, ¬ rule.Broken before b

theorem Rule.not_broken_iff (before : List Block) (b : Block) :
    (∀ rule : Rule, ¬ rule.Broken before b) ↔ b.Lawful ∧ ∀ x ∈ before, x.id ≠ b.id := by
  constructor
  · intro h
    refine ⟨⟨h .emptyId, h .unknownType, ?_, ?_⟩, fun x hx he => h .duplicateId ⟨x, hx, he⟩⟩
    · intro kind hk input hi
      by_contra hn
      exact h .badOption ⟨kind, hk, input, hi, hn⟩
    · intro kind hk hn
      by_contra hc
      exact h .forbiddenChildren ⟨kind, hk, hn, hc⟩
  · rintro ⟨hl, hd⟩ rule hb
    cases rule with
    | emptyId => exact hl.hasId hb
    | duplicateId =>
      obtain ⟨x, hx, he⟩ := hb
      exact hd x hx he
    | unknownType => exact hl.known hb
    | badOption =>
      obtain ⟨kind, hk, input, hi, hn⟩ := hb
      exact hn (hl.options kind hk input hi)
    | forbiddenChildren =>
      obtain ⟨kind, hk, hn, hc⟩ := hb
      exact hc (hl.nesting kind hk hn)

namespace Clean

theorem nil : Clean [] := by
  intro before b after h
  simp at h

theorem concat_iff (blocks : List Block) (b : Block) :
    Clean (blocks ++ [b]) ↔ Clean blocks ∧ ∀ rule : Rule, ¬ rule.Broken blocks b := by
  constructor
  · intro h
    refine ⟨fun before x after he => ?_, h blocks b [] rfl⟩
    exact h before x (after ++ [b]) (by simp [he])
  · rintro ⟨hc, hb⟩ before x after he
    rcases List.eq_nil_or_concat after with rfl | ⟨rest, last, rfl⟩
    · obtain ⟨rfl, hx⟩ := List.append_inj' he rfl
      cases hx
      exact hb
    · have hr : blocks ++ [b] = (before ++ x :: rest) ++ [last] := by simpa using he
      exact hc before x rest (List.append_inj' hr rfl).1

theorem of_append {blocks rest : List Block} (h : Clean (blocks ++ rest)) : Clean blocks := by
  intro before b after he
  exact h before b (after ++ rest) (by simp [he])

/-- What is asked of each block in its turn is what is asked of all of them at once. -/
theorem iff_lawful (blocks : List Block) :
    Clean blocks ↔ (∀ b ∈ blocks, b.Lawful) ∧ (blocks.map Block.id).Nodup := by
  induction blocks using List.reverseRecOn with
  | nil => exact iff_of_true nil ⟨by simp, by simp⟩
  | append_singleton blocks b ih =>
    rw [concat_iff, ih, Rule.not_broken_iff]
    simp only [List.mem_append, List.mem_singleton, List.map_append, List.map_cons, List.map_nil,
      List.nodup_append, List.nodup_singleton, List.mem_map, forall_exists_index, and_imp,
      forall_apply_eq_imp_iff₂, true_and]
    constructor
    · rintro ⟨⟨hl, hn⟩, hb, hd⟩
      exact ⟨fun x hx => hx.elim (hl x) fun he => he ▸ hb, hn, fun x hx y hy => hy ▸ hd x hx⟩
    · rintro ⟨hl, hn, hd⟩
      exact ⟨⟨fun x hx => hl x (.inl hx), hn⟩, hl b (.inr rfl), fun x hx => hd x hx _ rfl⟩

end Clean

namespace Validation

theorem forM_eq_ok_iff {α : Type} {check : α → Except Violation PUnit} {items : List α} :
    items.forM check = .ok () ↔ ∀ item ∈ items, check item = .ok () := by
  refine ⟨forM_eq_ok, fun h => ?_⟩
  induction items with
  | nil => rfl
  | cons first rest ih =>
    have hf := h first List.mem_cons_self
    rw [List.forM_eq_forM, List.forM_cons, hf]
    exact ih fun item hi => h item (List.mem_cons_of_mem first hi)

theorem exists_of_forM_eq_error {α : Type} {check : α → Except Violation PUnit} {items : List α}
    {violation : Violation} (h : items.forM check = .error violation) :
    ∃ earlier item later, items = earlier ++ item :: later ∧
      (∀ i ∈ earlier, check i = .ok ()) ∧ check item = .error violation := by
  induction items with
  | nil => cases h
  | cons first rest ih =>
    rw [List.forM_eq_forM, List.forM_cons] at h
    cases hf : check first with
    | error e =>
      rw [hf] at h
      cases h
      exact ⟨[], first, rest, rfl, by simp, hf⟩
    | ok u =>
      rw [hf] at h
      obtain ⟨earlier, item, later, rfl, he, hi⟩ := ih h
      refine ⟨first :: earlier, item, later, rfl, ?_, hi⟩
      intro i hm
      rcases List.mem_cons.1 hm with rfl | hm
      · exact hf
      · exact he i hm

theorem forM_of_split {α : Type} {check : α → Except Violation PUnit} {earlier later : List α}
    {item : α} {violation : Violation} (he : ∀ i ∈ earlier, check i = .ok ())
    (hi : check item = .error violation) :
    (earlier ++ item :: later).forM check = .error violation := by
  induction earlier with
  | nil =>
    rw [List.nil_append, List.forM_eq_forM, List.forM_cons, hi]
    rfl
  | cons first rest ih =>
    rw [List.cons_append, List.forM_eq_forM, List.forM_cons, he first List.mem_cons_self]
    exact ih fun i hm => he i (List.mem_cons_of_mem first hm)

end Validation

theorem Kind.choice_of_options {kind : Kind} {input : Input} (hi : input ∈ kind.inputs)
    {options : List String} (ho : input.options = some options) : input.kind = .choice := by
  have h : ∀ i ∈ kind.inputs, i.options.isSome = true → i.kind = .choice := by
    cases kind <;> decide
  exact h input hi (by simp [ho])

theorem Value.isOption_iff (options : List String) (v : Value) :
    v.isOption options = true ↔ ∃ s ∈ options, v = .text s := by
  cases v <;> simp [isOption]

namespace Validation

section Head

variable {before : List Block} {scope : Scope} {b : Block} {violation : Violation}

def noted (blocks : List Block) : Seen := (blocks.map fun b => (b.id, b.type)).reverse

theorem noted_concat (blocks : List Block) (b : Block) :
    noted (blocks ++ [b]) = (b.id, b.type) :: noted blocks := by
  simp [noted]

/-- An id that was noted leads to the type of the first block that has it. -/
theorem get?_noted {blocks : List Block} (hn : (blocks.map Block.id).Nodup) (id : String) :
    Bindings.get? (noted blocks) id = (blocks.find? (·.id = id)).map Block.type := by
  induction blocks using List.reverseRecOn with
  | nil => rfl
  | append_singleton blocks b ih =>
    rw [List.map_append, List.nodup_append] at hn
    rw [noted_concat, Bindings.get?, ih hn.1, List.find?_append]
    by_cases hid : id = b.id
    · have hnone : blocks.find? (·.id = id) = none := by
        simp only [List.find?_eq_none, decide_eq_true_eq]
        intro x hx he
        exact hn.2.2 x.id (List.mem_map_of_mem hx) b.id (by simp) (he.trans hid)
      rw [hnone, if_pos (by simpa using hid)]
      simp [hid]
    · rw [if_neg (by simpa using hid)]
      simp [Ne.symm hid]

theorem checkInput_eq_ok_iff {kind : Kind} {input : Input} (hi : input ∈ kind.inputs) :
    checkInput b.id b.params scope input = .ok () ↔ input.Accepts b.params := by
  unfold checkInput Input.Accepts
  cases ho : input.options with
  | none => simp
  | some options =>
    cases hv : Bindings.get? b.params input.name with
    | none => simp
    | some v =>
      have hk := Kind.choice_of_options hi ho
      simp only [hk, forall_const, Option.some.injEq, forall_eq', ← Value.isOption_iff]
      cases v.isOption options with
      | true => simp
      | false => cases v.literal <;> simp

theorem checkInput_eq_error_iff {kind : Kind} {input : Input} (hi : input ∈ kind.inputs) :
    checkInput b.id b.params scope input = .error violation ↔
      ¬ input.Accepts b.params ∧ ∃ options v, input.options = some options ∧
        Bindings.get? b.params input.name = some v ∧
        violation = .ofOption b.id input.name v options scope := by
  have hok : checkInput b.id b.params scope input = .ok () ↔ _ := checkInput_eq_ok_iff hi
  rw [← hok]
  unfold checkInput Violation.ofOption
  cases input.options with
  | none => simp
  | some options =>
    cases Bindings.get? b.params input.name with
    | none => simp
    | some v =>
      dsimp only
      cases v.isOption options with
      | true => simp
      | false => cases hl : v.literal <;> simp [hl, eq_comm]

/-- The check of one block, after those before it, reports the first rule that it breaks. -/
theorem refusedFor_of_checkHead (hn : (before.map Block.id).Nodup)
    (h : checkHead scope (noted before) b = .error violation) :
    b.RefusedFor before scope violation := by
  rw [checkHead_eq, get?_noted hn] at h
  -- Each check that passes adds its rule to those that are kept.
  have kept₀ : ∀ r : Rule, r.rank < 0 → ¬ r.Broken before b := fun r hr => absurd hr (by omega)
  by_cases hid : b.id = ""
  · rw [if_pos hid] at h
    cases h
    exact ⟨.emptyId, hid, kept₀, .emptyId⟩
  have kept₁ := Rule.kept_succ .emptyId kept₀ hid
  rw [if_neg hid] at h
  cases hf : before.find? (·.id = b.id) with
  | some first =>
    rw [hf] at h
    cases h
    have hd : Rule.Broken before b .duplicateId :=
      ⟨first, List.mem_of_find?_eq_some hf, by simpa using List.find?_some hf⟩
    exact ⟨.duplicateId, hd, kept₁, .duplicateId hf⟩
  | none =>
    rw [hf] at h
    have hd : ¬ Rule.Broken before b .duplicateId := by
      rintro ⟨x, hx, he⟩
      exact List.find?_eq_none.1 hf x hx (by simpa using he)
    have kept₂ := Rule.kept_succ .duplicateId kept₁ hd
    cases hk : b.kind? with
    | none =>
      rw [hk] at h
      cases h
      exact ⟨.unknownType, hk, kept₂, .unknownType⟩
    | some kind =>
      rw [hk] at h
      have hu : ¬ Rule.Broken before b .unknownType := fun hb => by cases hk.symm.trans hb
      have kept₃ := Rule.kept_succ .unknownType kept₂ hu
      cases hc : kind.inputs.forM (checkInput b.id b.params scope) with
      | error e =>
        simp only [Option.map_none, hc] at h
        cases h
        obtain ⟨earlier, input, later, hs, he, hi⟩ := exists_of_forM_eq_error hc
        have hin : ∀ i ∈ earlier, i ∈ kind.inputs := fun i hm => by simp [hs, hm]
        have ha : ∀ i ∈ earlier, i.Accepts b.params := fun i hm =>
          (checkInput_eq_ok_iff (hin i hm)).1 (he i hm)
        have hm : input ∈ kind.inputs := by simp [hs]
        obtain ⟨hb, options, v, ho, hv, rfl⟩ := (checkInput_eq_error_iff hm).1 hi
        exact ⟨.badOption, ⟨kind, hk, input, hm, hb⟩, kept₃, .badOption hk hs ha hb ho hv⟩
      | ok u =>
        have ho : ¬ Rule.Broken before b .badOption := by
          rintro ⟨kind', hk', input, hi, hb⟩
          cases hk.symm.trans hk'
          exact hb ((checkInput_eq_ok_iff hi).1 (forM_eq_ok hc input hi))
        simp only [Option.map_none, hc, Except.ok_bind] at h
        split at h
        · next hx =>
          cases h
          simp only [Bool.and_eq_true, Bool.not_eq_true', Option.isSome_iff_ne_none] at hx
          exact ⟨.forbiddenChildren, ⟨kind, hk, hx.2, hx.1⟩,
            Rule.kept_succ .badOption kept₃ ho, .forbiddenChildren⟩
        · cases h

theorem checkHead_of_refusedFor (hn : (before.map Block.id).Nodup)
    (h : b.RefusedFor before scope violation) :
    checkHead scope (noted before) b = .error violation := by
  obtain ⟨rule, hb, kept, hr⟩ := h
  have hid : 0 < rule.rank → b.id ≠ "" := fun hlt => kept .emptyId hlt
  have hnew : 1 < rule.rank → before.find? (·.id = b.id) = none := by
    intro hlt
    rw [List.find?_eq_none]
    exact fun x hx he => kept .duplicateId hlt ⟨x, hx, by simpa using he⟩
  rw [checkHead_eq, get?_noted hn]
  cases hr with
  | emptyId => exact if_pos hb
  | duplicateId hf =>
    rw [if_neg (hid (by decide)), hf]
    rfl
  | unknownType =>
    rw [if_neg (hid (by decide)), hnew (by decide), show b.kind? = none from hb]
    rfl
  | @badOption kind earlier later input options v hk hs ha hna ho hv =>
    have hin : ∀ i ∈ earlier, i ∈ kind.inputs := fun i hm => by simp [hs, hm]
    have he : ∀ i ∈ earlier, checkInput b.id b.params scope i = .ok () := fun i hm =>
      (checkInput_eq_ok_iff (hin i hm)).2 (ha i hm)
    have hm : input ∈ kind.inputs := by simp [hs]
    have hi : checkInput b.id b.params scope input = .error _ :=
      (checkInput_eq_error_iff hm).2 ⟨hna, options, v, ho, hv, rfl⟩
    rw [if_neg (hid (by decide)), hnew (by decide), hk]
    simp only [Option.map_none, hs, forM_of_split he hi]
    rfl
  | forbiddenChildren =>
    obtain ⟨kind, hk, hnest, hc⟩ := hb
    have hi : kind.inputs.forM (checkInput b.id b.params scope) = .ok () := by
      refine forM_eq_ok_iff.2 fun i hm => (checkInput_eq_ok_iff hm).2 ?_
      by_contra hna
      exact kept .badOption (by decide) ⟨kind, hk, i, hm, hna⟩
    rw [if_neg (hid (by decide)), hnew (by decide), hk]
    simp only [Option.map_none, hi, Except.ok_bind]
    rw [if_pos]
    simp [hnest, Option.isSome_iff_ne_none, hc]

theorem Passes.lawful {kind : Kind} (h : Passes b kind) (hid : b.id ≠ "") : b.Lawful where
  hasId := hid
  known := by rw [h.kind]; exact nofun
  options := by
    intro kind' hk input hi
    cases h.kind.symm.trans hk
    obtain ⟨scope, hc⟩ := h.inputs input hi
    exact (checkInput_eq_ok_iff hi).1 hc
  nesting := by
    intro kind' hk hn
    cases h.kind.symm.trans hk
    by_contra hc
    rw [h.nests (Option.isSome_iff_ne_none.2 hc)] at hn
    cases hn

/-- The check of one block, after those before it, passes if it breaks no rule. -/
theorem checkHead_passes_iff (hn : (before.map Block.id).Nodup) :
    (∃ kind, checkHead scope (noted before) b = .ok kind) ↔
      ∀ rule : Rule, ¬ rule.Broken before b := by
  constructor
  · rintro ⟨kind, h⟩
    have hp := passes_of_checkHead h
    rw [checkHead_eq, get?_noted hn] at h
    split at h
    · cases h
    · next hid =>
      split at h
      · cases h
      · cases h
      · next hf hk =>
        rw [Option.map_eq_none_iff, List.find?_eq_none] at hf
        exact (Rule.not_broken_iff before b).2 ⟨hp.lawful hid, by simpa using hf⟩
  · intro h
    cases hc : checkHead scope (noted before) b with
    | ok kind => exact ⟨kind, rfl⟩
    | error violation =>
      obtain ⟨rule, hb, -⟩ := refusedFor_of_checkHead hn hc
      exact absurd hb (h rule)

end Head

section Scan

variable {before : List Block} {seen : Seen} {violation : Violation}

def scan (seen : Seen) : List (Scope × Block) → Except Violation Seen
  | [] => .ok seen
  | (scope, b) :: rest => do
    let _ ← checkHead scope seen b
    scan ((b.id, b.type) :: seen) rest

theorem scan_append (seen : Seen) (first second : List (Scope × Block)) :
    scan seen (first ++ second) = scan seen first >>= fun seen => scan seen second := by
  induction first generalizing seen with
  | nil => rfl
  | cons next rest ih =>
    rw [List.cons_append, scan, scan, bind_assoc]
    simp only [ih]

mutual

/-- Going into the blocks comes to checking the blocks of the walk in order. -/
theorem checkBlock_eq_scan (scope : Scope) (seen : Seen) :
    ∀ b : Block, checkBlock scope seen b = scan seen (b.placed scope)
  | ⟨id, type, params, none⟩ => rfl
  | ⟨id, type, params, some inner⟩ => by
    rw [checkBlock, Block.placed, scan]
    simp only [checkBlocks_eq_scan _ _ inner]

theorem checkBlocks_eq_scan (scope : Scope) (seen : Seen) :
    ∀ bs : List Block, checkBlocks scope seen bs = scan seen (Block.placedAll scope bs)
  | [] => rfl
  | b :: bs => by
    rw [checkBlocks, Block.placedAll, scan_append, checkBlock_eq_scan scope seen b]
    simp only [checkBlocks_eq_scan _ _ bs]

end

theorem scan_step (hc : Clean before) {scope : Scope} {b : Block}
    (hb : ∀ rule : Rule, ¬ rule.Broken before b) (rest : List (Scope × Block)) :
    scan (noted before) ((scope, b) :: rest) = scan (noted (before ++ [b])) rest := by
  have hn := ((Clean.iff_lawful before).1 hc).2
  obtain ⟨kind, hk⟩ : ∃ kind, checkHead scope (noted before) b = .ok kind :=
    (checkHead_passes_iff hn).2 hb
  rw [scan, hk, noted_concat]
  rfl

theorem scan_of_clean (before : List Block) {places : List (Scope × Block)}
    (h : Clean (before ++ places.map Prod.snd)) :
    scan (noted before) places = .ok (noted (before ++ places.map Prod.snd)) := by
  induction places generalizing before with
  | nil => simp [scan]
  | cons place rest ih =>
    obtain ⟨scope, b⟩ := place
    have hb := h before b (rest.map Prod.snd) rfl
    have hc := h.of_append
    rw [List.map_cons, List.append_cons] at h ⊢
    rw [scan_step hc hb]
    exact ih _ h

/-- A scan passes over blocks that break no rule and stops at the first that does. -/
theorem scan_cases (hc : Clean before) (places : List (Scope × Block)) :
    Clean (before ++ places.map Prod.snd) ∨
      ∃ earlier scope b later violation, places = earlier ++ (scope, b) :: later ∧
        Clean (before ++ earlier.map Prod.snd) ∧
        b.RefusedFor (before ++ earlier.map Prod.snd) scope violation ∧
        scan (noted before) places = .error violation := by
  induction places generalizing before with
  | nil => exact .inl (by simpa using hc)
  | cons place rest ih =>
    obtain ⟨scope, b⟩ := place
    have hn := ((Clean.iff_lawful before).1 hc).2
    cases hh : checkHead scope (noted before) b with
    | error violation =>
      refine .inr ⟨[], scope, b, rest, violation, rfl, by simpa using hc, ?_, ?_⟩
      · simpa using refusedFor_of_checkHead hn hh
      · rw [scan, hh]
        rfl
    | ok kind =>
      have hb := (checkHead_passes_iff hn).1 ⟨kind, hh⟩
      have hnext : Clean (before ++ [b]) := (Clean.concat_iff before b).2 ⟨hc, hb⟩
      rw [scan_step hc hb, List.map_cons, List.append_cons]
      rcases ih hnext with h | ⟨earlier, scope', b', later, violation, rfl, he, hr, hs⟩
      · exact .inl h
      · refine .inr ⟨(scope, b) :: earlier, scope', b', later, violation, rfl, ?_, ?_, hs⟩
        · rwa [List.map_cons, List.append_cons]
        · rwa [List.map_cons, List.append_cons]

theorem scan_of_refusedFor {earlier later : List (Scope × Block)} {scope : Scope} {b : Block}
    (hc : Clean (earlier.map Prod.snd)) (hr : b.RefusedFor (earlier.map Prod.snd) scope violation) :
    scan [] (earlier ++ (scope, b) :: later) = .error violation := by
  have hs : scan [] earlier = .ok (noted (earlier.map Prod.snd)) := scan_of_clean [] hc
  rw [scan_append, hs, Except.ok_bind, scan,
    checkHead_of_refusedFor ((Clean.iff_lawful _).1 hc).2 hr]
  rfl

end Scan

end Validation

namespace Program

variable {program : Program}

theorem map_placed (program : Program) : program.placed.map Prod.snd = program.walk :=
  Block.map_placedAll .program program

theorem wellFormed_iff_clean (program : Program) : program.WellFormed ↔ Clean program.walk := by
  rw [Clean.iff_lawful]
  exact ⟨fun h => ⟨h.lawful, h.distinct⟩, fun h => ⟨h.1, h.2⟩⟩

theorem validate_eq_scan (program : Program) :
    program.validate = (Validation.scan [] program.placed).map fun _ => () := by
  rw [validate, Validation.checkBlocks_eq_scan]
  rfl

theorem validate_eq_ok_iff (program : Program) :
    program.validate = .ok () ↔ program.WellFormed := by
  rw [validate_eq_scan, wellFormed_iff_clean, ← map_placed]
  constructor
  · intro h
    rcases Validation.scan_cases Clean.nil program.placed with hc | ⟨_, _, _, _, _, _, _, _, hs⟩
    · exact hc
    · have he : Validation.scan [] program.placed = .error _ := hs
      rw [he] at h
      cases h
  · intro h
    have hs : Validation.scan [] program.placed = .ok _ :=
      Validation.scan_of_clean [] h
    rw [hs]
    rfl

/-- Validation accepts exactly the programs that are well formed. Otherwise it
reports the first block of the walk that breaks a rule, given the blocks before
it, by the first of the rules that it breaks. -/
theorem validate_reports_first (program : Program) :
    (program.validate = .ok () ↔ program.WellFormed) ∧
    program.placed.map Prod.snd = program.walk ∧
    ∀ violation, program.validate = .error violation ↔
      ∃ before scope b after, program.placed = before ++ (scope, b) :: after ∧
        Clean (before.map Prod.snd) ∧ b.RefusedFor (before.map Prod.snd) scope violation := by
  refine ⟨program.validate_eq_ok_iff, program.map_placed, fun violation => ?_⟩
  constructor
  · intro h
    rcases Validation.scan_cases Clean.nil program.placed with
      hc | ⟨before, scope, b, after, violation', hp, hc, hr, hs⟩
    · have hw := program.wellFormed_iff_clean.2 (program.map_placed ▸ hc)
      have hv := program.validate_eq_ok_iff.2 hw
      rw [hv] at h
      cases h
    · have he : Validation.scan [] program.placed = .error violation' := hs
      rw [validate_eq_scan, he] at h
      cases h
      exact ⟨before, scope, b, after, hp, hc, hr⟩
  · rintro ⟨before, scope, b, after, hp, hc, hr⟩
    rw [validate_eq_scan, hp, Validation.scan_of_refusedFor hc hr]
    rfl

-- The id was taken at another depth, which counts before the type that is not known.
example : validate [⟨"a", "if", [], some [⟨"b", "move", [], none⟩]⟩, ⟨"b", "dance", [], none⟩] =
    .error (.duplicateId "b" .program "move") := rfl

end Program

end BlockScript
