import BlockScript.Proofs.Bindings
import BlockScript.Proofs.Block.Children
import Mathlib.Data.List.Forall2

/-!
# The place of a block in a program

Every block of a program stands in a hole: the program without it, at whatever
depth. The walk of the program is what comes before the hole, the walk of what
fills it, and what comes after. An edit by an id fills the hole of the first block
with that id anew: with nothing if the block is deleted, and with the changed
block if it is changed. So all edits mean the same block and leave all else as it
is, even if several blocks have the id.
-/

set_option autoImplicit false

namespace BlockScript

/-- A program in which some blocks are missing, all at one place. -/
inductive Hole where
  | here (before after : Program)
  | inside (before : Program) (parent : Block) (hole : Hole) (after : Program)

namespace Hole

def fill (blocks : List Block) : Hole → Program
  | .here before after => before ++ (blocks ++ after)
  | .inside before parent hole after =>
    before ++ { parent with children := some (hole.fill blocks) } :: after

/-- The walk up to the hole. It has the blocks in it that the hole is inside of. -/
def leading (blocks : List Block) : Hole → List Block
  | .here before _ => Program.walk before
  | .inside before parent hole _ =>
    Program.walk before ++
      { parent with children := some (hole.fill blocks) } :: hole.leading blocks

def trailing : Hole → List Block
  | .here _ after => Program.walk after
  | .inside _ _ hole after => hole.trailing ++ Program.walk after

theorem walk_fill (hole : Hole) (blocks : List Block) :
    (hole.fill blocks).walk = hole.leading blocks ++ (Program.walk blocks ++ hole.trailing) := by
  induction hole with
  | here before after => simp only [fill, leading, trailing, Program.walk_append]
  | inside before parent hole after ih =>
    simp only [fill, leading, trailing, Program.walk_append, Program.walk_cons, Block.walk_eq,
      Block.body, Option.getD_some, ih, List.append_assoc, List.cons_append]

theorem walk_fill_one (hole : Hole) (b : Block) :
    (hole.fill [b]).walk = hole.leading [b] ++ (b.walk ++ hole.trailing) := by
  rw [walk_fill, Program.walk_cons]
  simp [Program.walk, Block.walkAll]

def Refilled (blocks blocks' : List Block) (x y : Block) : Prop :=
  y = x ∨ ∃ hole : Hole, x.children = some (hole.fill blocks) ∧
    y = { x with children := some (hole.fill blocks') }

theorem leading_refilled (hole : Hole) (blocks blocks' : List Block) :
    List.Forall₂ (Refilled blocks blocks') (hole.leading blocks) (hole.leading blocks') := by
  have hsame : ∀ xs : List Block, List.Forall₂ (Refilled blocks blocks') xs xs := by
    intro xs
    induction xs with
    | nil => exact .nil
    | cons x xs ih => exact .cons (.inl rfl) ih
  induction hole with
  | here before after => exact hsame _
  | inside before parent hole after ih =>
    exact List.rel_append (hsame _) (.cons (.inr ⟨hole, rfl, rfl⟩) ih)

/-- What does not look below a block cannot tell how a hole is filled from the blocks before it. -/
theorem map_leading {α : Type} {f : Block → α}
    (hf : ∀ (b : Block) (inner inner' : List Block),
      f { b with children := some inner } = f { b with children := some inner' })
    (hole : Hole) (blocks blocks' : List Block) :
    (hole.leading blocks).map f = (hole.leading blocks').map f := by
  induction hole with
  | here before after => rfl
  | inside before parent hole after ih =>
    simp only [leading, List.map_append, List.map_cons, ih]
    rw [hf parent (hole.fill blocks) (hole.fill blocks')]

def cons (b : Block) : Hole → Hole
  | .here before after => .here (b :: before) after
  | .inside before parent hole after => .inside (b :: before) parent hole after

theorem fill_cons (b : Block) (hole : Hole) (blocks : List Block) :
    (hole.cons b).fill blocks = b :: hole.fill blocks := by
  cases hole <;> rfl

theorem leading_cons (b : Block) (hole : Hole) (blocks : List Block) :
    (hole.cons b).leading blocks = b.walk ++ hole.leading blocks := by
  cases hole with
  | here before after => rfl
  | inside before parent hole after =>
    simp only [cons, leading, Program.walk_cons, List.append_assoc]

mutual

theorem exists_below {found : Block} : ∀ (b : Block) {before after : List Block},
    b.walk = before ++ found :: after →
    before = [] ∧ b = found ∨ ∃ (hole : Hole) (before' : List Block), before = b :: before' ∧
      b.children = some (hole.fill [found]) ∧ hole.leading [found] = before'
  | ⟨id, type, params, none⟩, before, after, h => by
    rw [Block.walk] at h
    cases before with
    | nil =>
      cases h
      exact .inl ⟨rfl, rfl⟩
    | cons x before => simp at h
  | ⟨id, type, params, some inner⟩, before, after, h => by
    rw [Block.walk] at h
    cases before with
    | nil =>
      cases h
      exact .inl ⟨rfl, rfl⟩
    | cons x before =>
      rw [List.cons_append, List.cons.injEq] at h
      obtain ⟨rfl, hw⟩ := h
      obtain ⟨hole, hi, hl⟩ := exists_of_walk inner hw
      exact .inr ⟨hole, before, rfl, by rw [hi], hl⟩

/-- Every block of a walk stands in a hole. -/
theorem exists_of_walk {found : Block} : ∀ (bs : List Block) {before after : List Block},
    Block.walkAll bs = before ++ found :: after →
    ∃ hole : Hole, bs = hole.fill [found] ∧ hole.leading [found] = before
  | [], before, after, h => by simp [Block.walkAll] at h
  | b :: bs, before, after, h => by
    rw [Block.walkAll] at h
    -- The block comes after the walk of the first block, or in it. In the second case the
    -- walk of the first block may also end right before it.
    rcases List.append_eq_append_iff.1 h with ⟨rest, hb, hr⟩ | ⟨rest, hb, hr⟩
    · obtain ⟨hole, hf, hl⟩ := exists_of_walk bs hr
      refine ⟨hole.cons b, by rw [fill_cons, hf], ?_⟩
      rw [leading_cons, hl, hb]
    · cases rest with
      | nil =>
        rw [List.append_nil] at hb
        obtain ⟨hole, hf, hl⟩ : ∃ hole : Hole, bs = hole.fill [found] ∧ hole.leading [found] = [] :=
          exists_of_walk bs hr.symm
        refine ⟨hole.cons b, by rw [fill_cons, hf], ?_⟩
        rw [leading_cons, hl, hb, List.append_nil]
      | cons x rest =>
        cases hr
        rcases exists_below b hb with ⟨rfl, rfl⟩ | ⟨hole, before', rfl, hc, hl⟩
        · exact ⟨.here [] bs, rfl, rfl⟩
        · have hb : { b with children := some (hole.fill [found]) } = b := by
            cases b
            cases hc
            rfl
          refine ⟨.inside [] b hole bs, ?_, ?_⟩
          · rw [fill, List.nil_append, hb]
          · rw [leading, hb, hl]
            rfl

end

end Hole

namespace Block

variable {id : String}

theorem deleteBelow?_eq (id : String) (b : Block) :
    b.deleteBelow? id =
      b.children.bind fun inner =>
        (deleteIn? id inner).map fun inner' => { b with children := some inner' } := by
  obtain ⟨i, type, params, children⟩ := b
  cases children <;> rfl

theorem modify?_eq (id : String) (change : Block → Block) (b : Block) :
    b.modify? id change =
      if b.id = id then some (change b)
      else b.children.bind fun inner =>
        (modifyIn? id change inner).map fun inner' => { b with children := some inner' } := by
  obtain ⟨i, type, params, children⟩ := b
  cases children <;> rfl

mutual

theorem deleteBelow?_eq_none :
    ∀ b : Block, (∀ x ∈ Program.walk b.body, x.id ≠ id) → b.deleteBelow? id = none
  | ⟨i, type, params, none⟩, _ => rfl
  | ⟨i, type, params, some inner⟩, h => by rw [deleteBelow?, deleteIn?_eq_none inner h]; rfl

theorem deleteIn?_eq_none :
    ∀ bs : List Block, (∀ x ∈ walkAll bs, x.id ≠ id) → deleteIn? id bs = none
  | [], _ => rfl
  | b :: bs, h => by
    rw [walkAll, walk_eq, List.forall_mem_append, List.forall_mem_cons] at h
    rw [deleteIn?, if_neg h.1.1, deleteBelow?_eq_none b h.1.2]
    rw [deleteIn?_eq_none bs h.2]
    rfl

end

theorem deleteIn?_append {before : List Block} (h : ∀ x ∈ Program.walk before, x.id ≠ id)
    (rest : List Block) :
    deleteIn? id (before ++ rest) = (deleteIn? id rest).map (before ++ ·) := by
  induction before with
  | nil => simp
  | cons b before ih =>
    rw [Program.walk_cons, walk_eq, List.forall_mem_append, List.forall_mem_cons] at h
    rw [List.cons_append, deleteIn?, if_neg h.1.1, deleteBelow?_eq_none b h.1.2]
    simp [ih h.2, Function.comp_def]

theorem modifyIn?_append {before : List Block} (h : ∀ x ∈ Program.walk before, x.id ≠ id)
    (change : Block → Block) (rest : List Block) :
    modifyIn? id change (before ++ rest) = (modifyIn? id change rest).map (before ++ ·) := by
  induction before with
  | nil => simp
  | cons b before ih =>
    rw [Program.walk_cons, List.forall_mem_append] at h
    have hb : b.modify? id change = none := by
      apply modify?_eq_none
      simpa [List.find?_eq_none] using h.1
    rw [List.cons_append, modifyIn?, hb]
    simp [ih h.2, Function.comp_def]

end Block

namespace Hole

variable {id : String} {found : Block}

theorem deleteIn?_fill (hole : Hole) (hi : found.id = id)
    (hf : ∀ x ∈ hole.leading [found], x.id ≠ id) :
    Block.deleteIn? id (hole.fill [found]) = some (hole.fill []) := by
  induction hole with
  | here before after =>
    rw [fill, Block.deleteIn?_append hf, List.singleton_append, Block.deleteIn?, if_pos hi]
    rfl
  | inside before parent hole after ih =>
    rw [leading, List.forall_mem_append, List.forall_mem_cons] at hf
    rw [fill, Block.deleteIn?_append hf.1, Block.deleteIn?, if_neg hf.2.1, Block.deleteBelow?_eq]
    simp [ih hf.2.2, fill]

/-- Changing a block fills the hole of the first block with the id by the changed block. -/
theorem modifyIn?_fill (hole : Hole) (hi : found.id = id)
    (hf : ∀ x ∈ hole.leading [found], x.id ≠ id) (change : Block → Block) :
    Block.modifyIn? id change (hole.fill [found]) = some (hole.fill [change found]) := by
  induction hole with
  | here before after =>
    rw [fill, Block.modifyIn?_append hf, List.singleton_append, Block.modifyIn?, Block.modify?_eq,
      if_pos hi]
    rfl
  | inside before parent hole after ih =>
    rw [leading, List.forall_mem_append, List.forall_mem_cons] at hf
    rw [fill, Block.modifyIn?_append hf.1, Block.modifyIn?, Block.modify?_eq, if_neg hf.2.1]
    simp [ih hf.2.2, fill]

/-- A hole is where the first block with an id stands in a program. -/
structure Locates (hole : Hole) (program : Program) (id : String) (found : Block) : Prop where
  fills : program = hole.fill [found]
  named : found.id = id
  first : ∀ x ∈ hole.leading [found], x.id ≠ id

namespace Locates

variable {hole : Hole} {program : Program}

theorem walk (h : hole.Locates program id found) :
    program.walk = hole.leading [found] ++ (found.walk ++ hole.trailing) := by
  rw [h.fills, walk_fill_one]

theorem delete? (h : hole.Locates program id found) :
    program.delete? id = some (hole.fill []) := by
  rw [Program.delete?, h.fills, hole.deleteIn?_fill h.named h.first]

theorem modifyIn? (h : hole.Locates program id found) (change : Block → Block) :
    Block.modifyIn? id change program = some (hole.fill [change found]) := by
  rw [h.fills, hole.modifyIn?_fill h.named h.first]

theorem updateParams (h : hole.Locates program id found) (changes : List (String × Value)) :
    program.updateParams id changes = .ok (hole.fill [found.updateParams changes]) := by
  rw [Program.updateParams, h.modifyIn?]

theorem appendChild {inner : List Block} (h : hole.Locates program id found)
    (hf : program.find? id = some found) (hc : found.children = some inner) (child : Block) :
    program.appendChild id child = .ok (hole.fill [found.pushChild child]) := by
  simp [Program.appendChild, hf, hc, h.modifyIn?]

end Locates

theorem walk_fill_nil (hole : Hole) : (hole.fill []).walk = hole.leading [] ++ hole.trailing :=
  hole.walk_fill []

theorem leading_ids (hole : Hole) (blocks blocks' : List Block) :
    (hole.leading blocks).map Block.id = (hole.leading blocks').map Block.id :=
  map_leading (fun _ _ _ => rfl) hole blocks blocks'

/-- In a program with distinct ids, those of a block and of the blocks below it
are gone when the block is. -/
theorem Locates.find?_fill_nil {hole : Hole} {program : Program}
    (h : hole.Locates program id found) (hd : (program.walk.map Block.id).Nodup) {x : Block}
    (hx : x ∈ found.walk) : (hole.fill []).find? x.id = none := by
  rw [h.walk, List.map_append, List.map_append, hole.leading_ids [found] []] at hd
  obtain ⟨-, hrest, hlead⟩ := List.nodup_append.1 hd
  have hm : x.id ∈ found.walk.map Block.id := List.mem_map_of_mem hx
  rw [Program.find?, walk_fill_nil, List.find?_eq_none]
  intro y hy
  rw [decide_eq_true_eq]
  rcases List.mem_append.1 hy with hy | hy
  · exact hlead y.id (List.mem_map_of_mem hy) x.id (List.mem_append_left _ hm)
  · exact ((List.nodup_append.1 hrest).2.2 x.id hm y.id (List.mem_map_of_mem hy)).symm

end Hole

namespace Program

variable {program : Program} {id : String} {found : Block}

theorem exists_hole (h : program.find? id = some found) :
    ∃ hole : Hole, hole.Locates program id found := by
  obtain ⟨hi, before, after, hw, hb⟩ := List.find?_eq_some_iff_append.1 h
  obtain ⟨hole, hf, hl⟩ := Hole.exists_of_walk program hw
  exact ⟨hole, hf, by simpa using hi, by simpa [hl] using hb⟩

theorem find?_eq_none_iff : program.find? id = none ↔ ∀ x ∈ program.walk, x.id ≠ id := by
  simp [find?, List.find?_eq_none]

theorem delete?_eq_none (h : program.find? id = none) : program.delete? id = none :=
  Block.deleteIn?_eq_none program (find?_eq_none_iff.1 h)

theorem updateParams_eq_error (h : program.find? id = none) (changes : List (String × Value)) :
    program.updateParams id changes = .error (.noBlock id) := by
  rw [updateParams, Block.modifyIn?_eq_none _ program h]

/-- Finding, changing and deleting by an id mean the same block, the first one of
the walk that has the id, and leave all others as they are. The walk of the program
loses the block and all blocks below it when it is deleted. When it is changed, its
parameters keep their place, with new values if there are any, and new ones follow
in the order given. If no two blocks have the same id, a deleted block and the
blocks below it are not found again. -/
theorem edits_mean_first (program : Program) (id : String) :
    (program.find? id = none →
      (∀ x ∈ program.walk, x.id ≠ id) ∧ program.delete? id = none ∧
        ∀ changes, program.updateParams id changes = .error (.noBlock id)) ∧
    ∀ found, program.find? id = some found → ∃ hole : Hole, hole.Locates program id found ∧
      program.walk = hole.leading [found] ++ (found.walk ++ hole.trailing) ∧
      program.delete? id = some (hole.fill []) ∧
      (hole.fill []).walk = hole.leading [] ++ hole.trailing ∧
      List.Forall₂ (Hole.Refilled [found] []) (hole.leading [found]) (hole.leading []) ∧
      (∀ changes, (Bindings.keys changes).Nodup → ∃ params,
        program.updateParams id changes = .ok (hole.fill [{ found with params := params }]) ∧
        (∀ key, Bindings.get? params key =
          (Bindings.get? changes key).or (Bindings.get? found.params key)) ∧
        Bindings.keys params = Bindings.keys found.params ++
          (Bindings.keys changes).filter fun key => !Bindings.contains found.params key) ∧
      ((program.walk.map Block.id).Nodup →
        ∀ x ∈ found.walk,
          (hole.fill []).find? x.id = none ∧ (hole.fill []).delete? x.id = none) := by
  refine ⟨fun h => ⟨find?_eq_none_iff.1 h, delete?_eq_none h, updateParams_eq_error h⟩, ?_⟩
  intro found hf
  obtain ⟨hole, h⟩ := exists_hole hf
  refine ⟨hole, h, h.walk, h.delete?, hole.walk_fill_nil, hole.leading_refilled _ _, ?_, ?_⟩
  · intro changes hn
    exact ⟨Bindings.update found.params changes, h.updateParams changes,
      Bindings.get?_update hn found.params, Bindings.keys_update hn found.params⟩
  · intro hd x hx
    have hnone := h.find?_fill_nil hd hx
    exact ⟨hnone, delete?_eq_none hnone⟩

/-- Of three blocks with one id the first is the deepest, and all edits mean that
one. In a program with distinct ids a deleted test takes its message with it. -/
theorem edits_mean_first_nested :
    let message : Block := ⟨"x", "print", [("message", .text "hi")], none⟩
    let test : Block := ⟨"q", "if", [], some [message]⟩
    let repeated : Program :=
      [⟨"s", "start", [], none⟩, ⟨"r", "repeat", [], some [test, ⟨"x", "wait", [], none⟩]⟩,
       ⟨"x", "move", [], none⟩]
    let distinct : Program := [⟨"s", "start", [], none⟩, ⟨"r", "repeat", [], some [test]⟩]
    let changes : List (String × Value) := [("tone", .int 1), ("message", .text "bye")]
    (∃ hole : Hole, hole.Locates repeated "x" message ∧
      repeated.delete? "x" = some (hole.fill []) ∧
      ∃ params, repeated.updateParams "x" changes =
          .ok (hole.fill [{ message with params := params }]) ∧
        Bindings.keys params = ["message", "tone"]) ∧
    ∃ rest, distinct.delete? "q" = some rest ∧ rest.find? "x" = none ∧ rest.delete? "q" = none := by
  intro message test repeated distinct changes
  have hx : repeated.find? "x" = some message := rfl
  have hq : distinct.find? "q" = some test := rfl
  obtain ⟨hole, hl, -, hdel, -, -, hup, -⟩ := (edits_mean_first repeated "x").2 message hx
  obtain ⟨params, hu, -, hk⟩ := hup changes (by decide)
  obtain ⟨gap, -, -, hgone, -, -, -, hnone⟩ := (edits_mean_first distinct "q").2 test hq
  have hd : (distinct.walk.map Block.id).Nodup := by decide
  have hw : test.walk = [test, message] := rfl
  refine ⟨⟨hole, hl, hdel, params, hu, hk⟩, gap.fill [], hgone, ?_, ?_⟩
  · exact (hnone hd message (by simp [hw])).1
  · exact (hnone hd test (by simp [hw])).2

end Program

end BlockScript
