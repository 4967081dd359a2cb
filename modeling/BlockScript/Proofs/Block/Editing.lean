import BlockScript.Proofs.Block.Upkeep

/-!
# Editing in place

A program can be edited by changing it where it stands: a block is found and then
written to, and a deletion goes through the lists of blocks and reports whether it
has taken one out. Whatever stops an edit stops it before the first write. So an
edit that is refused, and a deletion that finds nothing, leave the program as it
was. All other edits give what the same edit gives as a function of the program,
and a valid program stays valid through them, as long as new blocks bring ids of
their own and inputs with options are given one of these.
-/

set_option autoImplicit false

namespace BlockScript

namespace Block

mutual

def dropBelow (id : String) : Block → Block × Bool
  | ⟨i, type, params, none⟩ => (⟨i, type, params, none⟩, false)
  | ⟨i, type, params, some inner⟩ =>
    let (inner', done) := dropIn id inner
    (⟨i, type, params, some inner'⟩, done)

def dropIn (id : String) : List Block → List Block × Bool
  | [] => ([], false)
  | b :: bs =>
    if b.id = id then (bs, true)
    else
      let (b', done) := b.dropBelow id
      if done then (b' :: bs, true)
      else
        let (bs', done) := dropIn id bs
        (b' :: bs', done)

end

mutual

theorem dropBelow_eq (id : String) :
    ∀ b : Block, b.dropBelow id = ((b.deleteBelow? id).getD b, (b.deleteBelow? id).isSome)
  | ⟨i, type, params, none⟩ => rfl
  | ⟨i, type, params, some inner⟩ => by
    rw [dropBelow, deleteBelow?, dropIn_eq id inner]
    cases deleteIn? id inner <;> rfl

theorem dropIn_eq (id : String) :
    ∀ bs : List Block, dropIn id bs = ((deleteIn? id bs).getD bs, (deleteIn? id bs).isSome)
  | [] => rfl
  | b :: bs => by
    rw [dropIn, deleteIn?, dropBelow_eq id b, dropIn_eq id bs]
    by_cases hi : b.id = id
    · rw [if_pos hi, if_pos hi]
      rfl
    · rw [if_neg hi, if_neg hi]
      cases b.deleteBelow? id with
      | some b' => rfl
      | none => cases deleteIn? id bs <;> rfl

end

end Block

/-- An edit of a program. New blocks come with an id of their own; if that is empty
they take the fresh one. -/
inductive Edit where
  | append (type id fresh : String)
  | appendChild (parent type id fresh : String)
  | update (id : String) (changes : List (String × Value))
  | delete (id : String)

namespace Edit

def apply (program : Program) : Edit → Except EditFault (Option Program)
  | .append type id fresh => do
    let b ← Block.create type (some id) fresh
    return some (program.append b)
  | .appendChild parent type id fresh => do
    let b ← Block.create type (some id) fresh
    return some (← program.appendChild parent b)
  | .update id changes => return some (← program.updateParams id changes)
  | .delete id => return program.delete? id

def writeTo (id : String) (change : Block → Block) : EStateM EditFault Program Unit :=
  modify fun program => (Block.modifyIn? id change program).getD program

def perform : Edit → EStateM EditFault Program Bool
  | .append type id fresh => do
    let b ← ofExcept (Block.create type (some id) fresh)
    modify fun program => program.append b
    return true
  | .appendChild parent type id fresh => do
    let b ← ofExcept (Block.create type (some id) fresh)
    match (← get).find? parent with
    | none => throw (.noBlock parent)
    | some found =>
      if found.children.isNone then throw (.cannotNest parent found.type)
      writeTo parent (·.pushChild b)
      return true
  | .update id changes => do
    match (← get).find? id with
    | none => throw (.noBlock id)
    | some _ =>
      writeTo id (·.updateParams changes)
      return true
  | .delete id => do
    let (program, done) := Block.dropIn id (← get)
    set program
    return done

def outcome (program : Program) :
    Except EditFault (Option Program) → EStateM.Result EditFault Program Bool
  | .error fault => .error fault program
  | .ok none => .ok false program
  | .ok (some program') => .ok true program'

section InPlace

variable {α β : Type}

theorem ofExcept_bind (x : Except EditFault α) (next : α → EStateM EditFault Program β)
    (program : Program) :
    (ofExcept x >>= next) program =
      match x with
      | .ok a => next a program
      | .error fault => .error fault program := by
  cases x <;> rfl

theorem get_bind (next : Program → EStateM EditFault Program β) (program : Program) :
    (get >>= next) program = next program program := rfl

end InPlace

/-- Editing in place gives what the edit makes of the program. If it makes nothing
of it, no write has been made. -/
theorem perform_eq (edit : Edit) (program : Program) :
    edit.perform program = outcome program (edit.apply program) := by
  cases edit with
  | append type id fresh =>
    rw [perform, apply, ofExcept_bind]
    cases Block.create type (some id) fresh <;> rfl
  | appendChild parent type id fresh =>
    rw [perform, apply, ofExcept_bind]
    cases Block.create type (some id) fresh with
    | error fault => rfl
    | ok b =>
      dsimp only
      rw [get_bind, Except.ok_bind, Program.appendChild]
      cases program.find? parent with
      | none => rfl
      | some found =>
        dsimp only
        cases found.children <;> rfl
  | update id changes =>
    rw [perform, apply, get_bind]
    cases hf : program.find? id with
    | none =>
      rw [Program.updateParams_eq_error hf]
      rfl
    | some found =>
      obtain ⟨hole, h⟩ := Program.exists_hole hf
      have hm := h.modifyIn? (·.updateParams changes)
      rw [h.updateParams]
      dsimp only
      change EStateM.Result.ok true ((Block.modifyIn? id _ program).getD program) = _
      rw [hm]
      rfl
  | delete id =>
    rw [perform, apply, get_bind, Block.dropIn_eq, Program.delete?]
    cases Block.deleteIn? id program <;> rfl

/-- Why an edit of a program is refused. -/
inductive Refused (program : Program) : Edit → EditFault → Prop
  | type {type id fresh : String} : Kind.ofWord? type = none →
      Refused program (.append type id fresh) (.unknownType type)
  | childType {parent type id fresh : String} : Kind.ofWord? type = none →
      Refused program (.appendChild parent type id fresh) (.unknownType type)
  | parent {parent type id fresh : String} {kind : Kind} : Kind.ofWord? type = some kind →
      (∀ x ∈ program.walk, x.id ≠ parent) →
      Refused program (.appendChild parent type id fresh) (.noBlock parent)
  | nesting {parent type id fresh : String} {kind : Kind} {found : Block} :
      Kind.ofWord? type = some kind → program.find? parent = some found → found.children = none →
      Refused program (.appendChild parent type id fresh) (.cannotNest parent found.type)
  | block {id : String} {changes : List (String × Value)} : (∀ x ∈ program.walk, x.id ≠ id) →
      Refused program (.update id changes) (.noBlock id)

section Apply

variable {program : Program} {edit : Edit} {fault : EditFault}

theorem apply_of_refused (h : Refused program edit fault) : edit.apply program = .error fault := by
  cases h with
  | type hk | childType hk =>
    rw [apply, Block.create_of_unknown hk]
    rfl
  | @parent parent type id fresh kind hk hn =>
    obtain ⟨b, hb⟩ : ∃ b, Block.create type (some id) fresh = .ok b := Block.create_of_known hk
    rw [apply, hb, Except.ok_bind, Program.appendChild, Program.find?_eq_none_iff.2 hn]
    rfl
  | @nesting parent type id fresh kind found hk hf hc =>
    obtain ⟨b, hb⟩ : ∃ b, Block.create type (some id) fresh = .ok b := Block.create_of_known hk
    rw [apply, hb, Except.ok_bind, Program.appendChild_of_childless hf hc]
    rfl
  | block hn =>
    rw [apply, Program.updateParams_eq_error (Program.find?_eq_none_iff.2 hn)]
    rfl

theorem refused_of_apply (h : edit.apply program = .error fault) : Refused program edit fault := by
  cases edit with
  | append type id fresh =>
    cases hk : Kind.ofWord? type with
    | none =>
      rw [apply, Block.create_of_unknown hk] at h
      cases h
      exact .type hk
    | some kind =>
      obtain ⟨b, hb⟩ : ∃ b, Block.create type (some id) fresh = .ok b := Block.create_of_known hk
      rw [apply, hb] at h
      cases h
  | appendChild parent type id fresh =>
    cases hk : Kind.ofWord? type with
    | none =>
      rw [apply, Block.create_of_unknown hk] at h
      cases h
      exact .childType hk
    | some kind =>
      obtain ⟨b, hb⟩ : ∃ b, Block.create type (some id) fresh = .ok b := Block.create_of_known hk
      rw [apply, hb, Except.ok_bind] at h
      cases hf : program.find? parent with
      | none =>
        rw [Program.appendChild, hf] at h
        cases h
        exact .parent hk (Program.find?_eq_none_iff.1 hf)
      | some found =>
        cases hc : found.children with
        | none =>
          rw [Program.appendChild_of_childless hf hc] at h
          cases h
          exact .nesting hk hf hc
        | some inner =>
          simp [Program.appendChild, hf, hc] at h
  | update id changes =>
    cases hf : program.find? id with
    | none =>
      rw [apply, Program.updateParams_eq_error hf] at h
      cases h
      exact .block (Program.find?_eq_none_iff.1 hf)
    | some found =>
      obtain ⟨hole, hl⟩ := Program.exists_hole hf
      rw [apply, hl.updateParams] at h
      cases h
  | delete id => cases h

theorem apply_eq_error_iff : edit.apply program = .error fault ↔ Refused program edit fault :=
  ⟨refused_of_apply, apply_of_refused⟩

theorem apply_eq_none_iff : edit.apply program = .ok none ↔
    ∃ id, edit = .delete id ∧ ∀ x ∈ program.walk, x.id ≠ id := by
  constructor
  · intro h
    cases edit with
    | append type id fresh =>
      obtain ⟨b, -, h⟩ := Except.exists_of_bind_eq_ok h
      cases h
    | appendChild parent type id fresh =>
      obtain ⟨b, -, h⟩ := Except.exists_of_bind_eq_ok h
      obtain ⟨after, -, h⟩ := Except.exists_of_bind_eq_ok h
      cases h
    | update id changes =>
      obtain ⟨after, -, h⟩ := Except.exists_of_bind_eq_ok h
      cases h
    | delete id =>
      refine ⟨id, rfl, Program.find?_eq_none_iff.1 ?_⟩
      have hd : program.delete? id = none := Except.ok.inj h
      by_contra hf
      obtain ⟨found, hf⟩ := Option.ne_none_iff_exists'.1 hf
      obtain ⟨hole, hl⟩ := Program.exists_hole hf
      cases hd.symm.trans hl.delete?
  · rintro ⟨id, rfl, hn⟩
    rw [apply, Program.delete?_eq_none (Program.find?_eq_none_iff.2 hn)]
    rfl

end Apply

/-- An edit that a valid program is ready for: a new block has an id that no block
has, and inputs with options are given one of them. -/
def Proper (program : Program) : Edit → Prop
  | .append _ id _ | .appendChild _ _ id _ => id ≠ "" ∧ ∀ x ∈ program.walk, x.id ≠ id
  | .update id changes => ∀ found, program.find? id = some found → found.Offers changes
  | .delete _ => True

theorem wellFormed_of_apply {program program' : Program} {edit : Edit} (hw : program.WellFormed)
    (hp : edit.Proper program) (h : edit.apply program = .ok (some program')) :
    program'.WellFormed := by
  cases edit with
  | append type id fresh =>
    obtain ⟨b, hb, ha⟩ := Except.exists_of_bind_eq_ok h
    cases ha
    obtain ⟨rfl, hl, hone⟩ := Block.lawful_of_create hp.1 hb
    exact hw.append hl hone hp.2
  | appendChild parent type id fresh =>
    obtain ⟨b, hb, hr⟩ := Except.exists_of_bind_eq_ok h
    obtain ⟨after, ha, hr⟩ := Except.exists_of_bind_eq_ok hr
    cases hr
    obtain ⟨rfl, hl, hone⟩ := Block.lawful_of_create hp.1 hb
    exact hw.appendChild hl hone hp.2 ha
  | update id changes =>
    obtain ⟨after, ha, h⟩ := Except.exists_of_bind_eq_ok h
    cases h
    exact hw.updateParams hp ha
  | delete id => exact hw.delete? (Except.ok.inj h)

def leaves (edit : Edit) (program : Program) : Program :=
  match edit.perform program with
  | .ok _ program' => program'
  | .error _ program' => program'

theorem leaves_wellFormed {program : Program} {edit : Edit} (hw : program.WellFormed)
    (hp : edit.Proper program) : (edit.leaves program).WellFormed := by
  rw [leaves, perform_eq]
  cases h : edit.apply program with
  | error fault => exact hw
  | ok made =>
    cases made with
    | none => exact hw
    | some program' => exact wellFormed_of_apply hw hp h

def programs (program : Program) : List Edit → List Program
  | [] => []
  | edit :: edits => edit.leaves program :: programs (edit.leaves program) edits

def AllProper (program : Program) : List Edit → Prop
  | [] => True
  | edit :: edits => edit.Proper program ∧ AllProper (edit.leaves program) edits

theorem programs_wellFormed {program : Program} {edits : List Edit} (hw : program.WellFormed)
    (hp : AllProper program edits) : ∀ p ∈ programs program edits, p.WellFormed := by
  induction edits generalizing program with
  | nil => exact fun p hm => absurd hm List.not_mem_nil
  | cons edit edits ih =>
    have hl := leaves_wellFormed hw hp.1
    intro p hm
    rcases List.mem_cons.1 hm with rfl | hm
    · exact hl
    · exact ih hl hp.2 p hm

/-- A valid program is valid after each of any number of proper edits. An edit that
is refused, proper or not, leaves any program as it was, and so does a deletion that
finds no block. Edits are refused for an unknown type, an id that no block has, or a
parent that has no list of blocks; all other edits are made. -/
theorem edits_keep_valid {program : Program} {edits : List Edit}
    (hv : program.validate = .ok ()) (hp : AllProper program edits) :
    (∀ p ∈ programs program edits, p.validate = .ok ()) ∧
    ∀ (edit : Edit) (p p' : Program),
      (∀ fault, edit.perform p = .error fault p' ↔ Refused p edit fault ∧ p' = p) ∧
      (edit.perform p = .ok false p' ↔
        (∃ id, edit = .delete id ∧ ∀ x ∈ p.walk, x.id ≠ id) ∧ p' = p) ∧
      (edit.perform p = .ok true p' ↔ edit.apply p = .ok (some p')) := by
  constructor
  · intro p hm
    rw [Program.validate_eq_ok_iff] at hv ⊢
    exact programs_wellFormed hv hp p hm
  · intro edit p p'
    rw [perform_eq, ← apply_eq_none_iff]
    refine ⟨fun fault => ?_, ?_⟩
    · rw [← apply_eq_error_iff]
      cases h : edit.apply p with
      | error fault' => simp [outcome, eq_comm]
      | ok made => cases made <;> simp [outcome]
    · cases h : edit.apply p with
      | error fault' => simp [outcome]
      | ok made => cases made <;> simp [outcome, eq_comm]

/-- A loop is put in with a move inside it, the move is turned, and the loop is
deleted again. In between a child of the move is refused, and in the end the move
is not there to be deleted. -/
theorem edits_keep_valid_loop :
    let program : Program := [⟨"s", "start", [], none⟩, ⟨"q", "if", [], some []⟩]
    let edits : List Edit :=
      [.append "repeat" "r" "", .appendChild "r" "move" "m" "",
       .update "m" [("direction", .text "Left")], .appendChild "m" "print" "p" "",
       .delete "r", .delete "m"]
    program.validate = .ok () ∧ AllProper program edits ∧
      (programs program edits).getLast? = some program ∧
      ∀ p ∈ programs program edits, p.validate = .ok () := by
  intro program edits
  have hv : program.validate = .ok () := rfl
  have hp : AllProper program edits := by
    refine ⟨⟨by decide, by decide⟩, ⟨by decide, by decide⟩, ?_, ⟨by decide, by decide⟩,
      trivial, trivial, trivial⟩
    intro found hf kind hk input hi _ options ho v hm
    cases (show some _ = some found from hf)
    cases (show some Kind.move = some kind from hk)
    cases List.mem_singleton.1 hi
    cases (show some Kind.directions = some options from ho)
    cases List.mem_singleton.1 hm
    exact ⟨"Left", by decide, rfl⟩
  exact ⟨hv, hp, rfl, (edits_keep_valid hv hp).1⟩

end Edit

end BlockScript
