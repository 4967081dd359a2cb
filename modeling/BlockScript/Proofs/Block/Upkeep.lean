import BlockScript.Proofs.Block.Holes
import BlockScript.Proofs.Block.Rules

/-!
# Edits of a valid program

A valid program is one whose walk has only lawful blocks, with ids of their own. An
edit takes a stretch out of the walk, exchanges a block for one with the same id, or
puts a new block in, and fills a hole of the program anew. Neither the laws of a
block nor its id look below it, so the blocks that the hole is inside of stay what
they have to be.
-/

set_option autoImplicit false

namespace BlockScript

namespace Clean

theorem sublist {blocks blocks' : List Block} (h : Clean blocks) (hs : blocks'.Sublist blocks) :
    Clean blocks' := by
  rw [iff_lawful] at h ⊢
  exact ⟨fun b hb => h.1 b (hs.subset hb), h.2.sublist (hs.map Block.id)⟩

theorem exchange {before after : List Block} {x y : Block} (h : Clean (before ++ x :: after))
    (hi : y.id = x.id) (hl : y.Lawful) : Clean (before ++ y :: after) := by
  rw [iff_lawful, List.forall_mem_append, List.forall_mem_cons, List.map_append, List.map_cons]
    at h ⊢
  rw [hi]
  exact ⟨⟨h.1.1, hl, h.1.2.2⟩, h.2⟩

theorem insert {before after : List Block} {b : Block} (h : Clean (before ++ after))
    (hl : b.Lawful) (hn : b.id ∉ (before ++ after).map Block.id) :
    Clean (before ++ b :: after) := by
  rw [iff_lawful, List.forall_mem_append] at h
  rw [iff_lawful, List.forall_mem_append, List.forall_mem_cons, List.map_append, List.map_cons,
    List.nodup_middle, List.nodup_cons, ← List.map_append]
  exact ⟨⟨h.1.1, hl, h.1.2⟩, hn, h.2⟩

end Clean

theorem Block.Lawful.refill {b : Block} {inner : List Block}
    (h : Block.Lawful { b with children := some inner }) (inner' : List Block) :
    Block.Lawful { b with children := some inner' } where
  hasId := h.hasId
  known := h.known
  options := h.options
  nesting kind hk hn := nomatch h.nesting kind hk hn

theorem Block.Lawful.pushChild {b : Block} {inner : List Block} (h : b.Lawful)
    (hc : b.children = some inner) (child : Block) : (b.pushChild child).Lawful := by
  obtain ⟨id, type, params, children⟩ := b
  subst hc
  exact h.refill (inner ++ [child])

theorem Hole.clean_leading {hole : Hole} {blocks rest : List Block}
    (h : Clean (hole.leading blocks ++ rest)) (blocks' : List Block) :
    Clean (hole.leading blocks' ++ rest) := by
  -- Neither being lawful nor the id looks below a block, so both lists map to the same.
  have hl : (hole.leading blocks).map Block.Lawful = (hole.leading blocks').map Block.Lawful :=
    map_leading (fun b inner inner' => propext ⟨fun h => h.refill inner', fun h => h.refill inner⟩)
      hole blocks blocks'
  rw [Clean.iff_lawful, List.forall_mem_append, List.map_append] at h ⊢
  rw [hole.leading_ids blocks' blocks]
  refine ⟨⟨fun b hb => ?_, h.1.2⟩, h.2⟩
  have hm : b.Lawful ∈ (hole.leading blocks).map Block.Lawful := hl ▸ List.mem_map_of_mem hb
  obtain ⟨x, hx, he⟩ := List.mem_map.1 hm
  exact he ▸ h.1.1 x hx

namespace Hole.Locates

variable {hole : Hole} {program : Program} {id : String} {found : Block}

theorem clean (h : hole.Locates program id found) (hw : program.WellFormed) :
    Clean (hole.leading [found] ++ found :: (Program.walk found.body ++ hole.trailing)) := by
  rwa [Program.wellFormed_iff_clean, h.walk, Block.walk_eq, List.cons_append] at hw

theorem lawful (h : hole.Locates program id found) (hw : program.WellFormed) : found.Lawful :=
  ((Clean.iff_lawful _).1 (h.clean hw)).1 found (by simp)

theorem wellFormed_fill_nil (h : hole.Locates program id found) (hw : program.WellFormed) :
    Program.WellFormed (hole.fill []) := by
  have hc : Clean (hole.leading [found] ++ hole.trailing) := by
    apply (h.clean hw).sublist
    apply List.Sublist.append_left
    exact (List.sublist_append_right _ _).trans (List.sublist_cons_self _ _)
  rw [Program.wellFormed_iff_clean, walk_fill_nil]
  exact clean_leading hc []

/-- A lawful block with the same id can be put in the place of the block that is found. -/
theorem clean_exchange {found' : Block} (h : hole.Locates program id found)
    (hw : program.WellFormed) (hi : found'.id = found.id) (hl : found'.Lawful) :
    Clean (hole.leading [found'] ++ found' :: (Program.walk found.body ++ hole.trailing)) :=
  clean_leading ((h.clean hw).exchange hi hl) [found']

theorem ids_exchange {found' : Block} (h : hole.Locates program id found)
    (hi : found'.id = found.id) :
    (hole.leading [found'] ++ found' :: (Program.walk found.body ++ hole.trailing)).map Block.id =
      program.walk.map Block.id := by
  rw [h.walk, Block.walk_eq, List.cons_append, List.map_append, List.map_append, List.map_cons,
    List.map_cons, hi, hole.leading_ids [found'] [found]]

end Hole.Locates

namespace Block

variable {type id fresh : String} {kind : Kind}

theorem create_of_unknown (h : Kind.ofWord? type = none) :
    create type (some id) fresh = .error (.unknownType type) := by
  unfold create
  rw [h]

theorem create_of_known (h : Kind.ofWord? type = some kind) :
    ∃ b, create type (some id) fresh = .ok b := by
  unfold create
  rw [h]
  exact ⟨_, rfl⟩

end Block

theorem Kind.accepts_defaults (kind : Kind) :
    ∀ input ∈ kind.inputs, input.Accepts kind.defaults := by
  have h : ∀ input ∈ kind.inputs, ∀ options ∈ input.options,
      ∀ v ∈ Bindings.get? kind.defaults input.name, v.isOption options = true := by
    cases kind <;> decide
  intro input hi _ options ho v hv
  exact (Value.isOption_iff options v).1 (h input hi options ho v hv)

theorem Block.lawful_of_create {type id fresh : String} {b : Block} (hid : id ≠ "")
    (h : Block.create type (some id) fresh = .ok b) : b.id = id ∧ b.Lawful ∧ b.walk = [b] := by
  cases hk : Kind.ofWord? type with
  | none =>
    rw [create_of_unknown hk] at h
    cases h
  | some kind =>
    have hb : b = ⟨id, type, kind.defaults, if kind.nests then some [] else none⟩ := by
      unfold create at h
      rw [hk] at h
      simpa [hid] using h.symm
    subst hb
    refine ⟨rfl, ⟨hid, ?_, ?_, ?_⟩, ?_⟩
    · simp [kind?, hk]
    · intro kind' hk' input hi
      cases hk.symm.trans hk'
      exact kind.accepts_defaults input hi
    · intro kind' hk' hn
      cases hk.symm.trans hk'
      simp [hn]
    · cases kind.nests <;> rfl

def Block.Offers (b : Block) (changes : List (String × Value)) : Prop :=
  ∀ kind, b.kind? = some kind → ∀ input ∈ kind.inputs, input.kind = .choice →
    ∀ options, input.options = some options →
      ∀ v, (input.name, v) ∈ changes → ∃ s ∈ options, v = .text s

theorem Block.Lawful.updateParams {b : Block} {changes : List (String × Value)} (h : b.Lawful)
    (hc : b.Offers changes) : (b.updateParams changes).Lawful where
  hasId := h.hasId
  known := h.known
  options := by
    intro kind hk input hi hkind options ho v hv
    rcases Bindings.mem_or_of_get?_update b.params hv with hm | hg
    · exact hc kind hk input hi hkind options ho v hm
    · exact h.options kind hk input hi hkind options ho v hg
  nesting := h.nesting

theorem Program.walk_concat {b : Block} (h : b.walk = [b]) (program : Program) :
    walk (program ++ [b]) = program.walk ++ [b] := by
  rw [walk_append, walk_cons, h]
  rfl

theorem Program.exists_of_appendChild {program program' : Program} {id : String} {child : Block}
    (h : program.appendChild id child = .ok program') :
    ∃ found inner, program.find? id = some found ∧ found.children = some inner := by
  cases hf : program.find? id with
  | none =>
    rw [appendChild, hf] at h
    cases h
  | some found =>
    cases hc : found.children with
    | none =>
      rw [appendChild_of_childless hf hc] at h
      cases h
    | some inner => exact ⟨found, inner, rfl, hc⟩

namespace Program.WellFormed

variable {program program' : Program} {id : String}

theorem append {child : Block} (hw : program.WellFormed) (hl : child.Lawful)
    (hone : child.walk = [child]) (hn : ∀ x ∈ program.walk, x.id ≠ child.id) :
    (program.append child).WellFormed := by
  rw [Program.wellFormed_iff_clean] at hw ⊢
  rw [Program.append, Program.walk_concat hone]
  exact Clean.insert (by simpa using hw) hl (by simpa using hn)

theorem appendChild {child : Block} (hw : program.WellFormed) (hl : child.Lawful)
    (hone : child.walk = [child]) (hn : ∀ x ∈ program.walk, x.id ≠ child.id)
    (h : program.appendChild id child = .ok program') : program'.WellFormed := by
  obtain ⟨found, inner, hf, hc⟩ := Program.exists_of_appendChild h
  obtain ⟨hole, hole_at⟩ := Program.exists_hole hf
  rw [hole_at.appendChild hf hc] at h
  cases h
  have hbody : (found.pushChild child).body = found.body ++ [child] := by
    simp [Block.pushChild, Block.body, hc]
  have hi : (found.pushChild child).id = found.id := rfl
  -- First the parent is exchanged for one with a longer list, then its new child comes
  -- into the walk, after what was below the parent.
  have hx := hole_at.clean_exchange hw hi ((hole_at.lawful hw).pushChild hc child)
  have hids := hole_at.ids_exchange hi
  rw [← List.cons_append, ← List.append_assoc] at hx hids
  rw [Program.wellFormed_iff_clean, Hole.walk_fill_one, Block.walk_eq, hbody,
    Program.walk_concat hone, ← List.cons_append, List.append_assoc (_ :: _), ← List.append_assoc]
  refine hx.insert hl ?_
  rw [hids]
  simpa using hn

theorem updateParams {changes : List (String × Value)} (hw : program.WellFormed)
    (hc : ∀ found, program.find? id = some found → found.Offers changes)
    (h : program.updateParams id changes = .ok program') : program'.WellFormed := by
  cases hf : program.find? id with
  | none =>
    rw [Program.updateParams_eq_error hf] at h
    cases h
  | some found =>
    obtain ⟨hole, hole_at⟩ := Program.exists_hole hf
    rw [hole_at.updateParams] at h
    cases h
    rw [Program.wellFormed_iff_clean, Hole.walk_fill_one, Block.walk_eq, List.cons_append]
    exact hole_at.clean_exchange hw rfl ((hole_at.lawful hw).updateParams (hc found hf))

theorem delete? (hw : program.WellFormed) (h : program.delete? id = some program') :
    program'.WellFormed := by
  cases hf : program.find? id with
  | none =>
    rw [Program.delete?_eq_none hf] at h
    cases h
  | some found =>
    obtain ⟨hole, hole_at⟩ := Program.exists_hole hf
    rw [hole_at.delete?] at h
    cases h
    exact hole_at.wellFormed_fill_nil hw

end Program.WellFormed

end BlockScript
