import BlockScript.Block.Decode
import BlockScript.Block.Edit
import BlockScript.Proofs.Block.Validity

/-!
# Adding a child

An edit that finds a block by its id exchanges that block, at its place, and
nothing else. So a child goes to the end of the blocks inside its parent. A
parent takes a child if it holds a list of blocks, which in a valid program only
blocks of a kind that nests do. That the kind nests is not enough: a block whose
record came without such a list takes no child.
-/

set_option autoImplicit false

namespace BlockScript

/-- One block of a program, at any depth, is exchanged for another. All other
blocks stay what they are and where they are. -/
inductive Exchanged (x y : Block) : Program → Program → Prop
  | here (before after : Program) : Exchanged x y (before ++ x :: after) (before ++ y :: after)
  | inside (before after : Program) (b : Block) {inner inner' : Program}
      (children : b.children = some inner) (below : Exchanged x y inner inner') :
      Exchanged x y (before ++ b :: after) (before ++ { b with children := some inner' } :: after)

namespace Exchanged

variable {x y : Block} {program program' : Program}

theorem cons (b : Block) (h : Exchanged x y program program') :
    Exchanged x y (b :: program) (b :: program') := by
  cases h with
  | here before after => exact .here (b :: before) after
  | inside before after parent hc below => exact .inside (b :: before) after parent hc below

theorem append_right (rest : Program) (h : Exchanged x y program program') :
    Exchanged x y (program ++ rest) (program' ++ rest) := by
  cases h with
  | here before after => simpa using here before (after ++ rest)
  | inside before after parent hc below =>
    simpa using inside before (after ++ rest) parent hc below

end Exchanged

namespace Block

variable {id : String} {change : Block → Block} {found : Block}

mutual

theorem modify?_eq_none (change : Block → Block) :
    ∀ b : Block, b.walk.find? (fun x => x.id = id) = none → b.modify? id change = none
  | ⟨i, type, params, none⟩, h => by simpa [walk, modify?] using h
  | ⟨i, type, params, some inner⟩, h => by
    simp only [walk, List.find?_eq_none, List.forall_mem_cons, decide_eq_true_eq] at h
    have hi := modifyIn?_eq_none change inner (by simpa using h.2)
    simp [modify?, h.1, hi]

theorem modifyIn?_eq_none (change : Block → Block) :
    ∀ bs : List Block, (walkAll bs).find? (fun x => x.id = id) = none →
      modifyIn? id change bs = none
  | [], _ => rfl
  | b :: bs, h => by
    rw [walkAll, List.find?_append, Option.or_eq_none_iff] at h
    simp [modifyIn?, modify?_eq_none change b h.1, modifyIn?_eq_none change bs h.2]

end

/-- What a change of the block that is found by its id makes of a program. -/
structure Changed (id : String) (found after : Block) (program program' : Program) : Prop where
  exchanged : Exchanged found after program program'
  find : program'.find? id = some after

theorem Changed.append_right {after : Block} {program program' : Program} (rest : Program)
    (h : Changed id found after program program') :
    Changed id found after (program ++ rest) (program' ++ rest) where
  exchanged := h.exchanged.append_right rest
  find := by
    have hf := h.find
    unfold Program.find? at hf ⊢
    rw [Program.walk_append, List.find?_append, hf, Option.some_or]

theorem exists_modify?_of_id {b : Block} (hc : (change b).id = id) (hi : b.id = id) :
    b.modify? id change = some (change b) ∧ Changed id b (change b) [b] [change b] := by
  refine ⟨?_, .here [] [], ?_⟩
  · obtain ⟨i, type, params, children⟩ := b
    cases children <;> exact if_pos hi
  · rw [Program.find?, Program.walk_cons, walk_eq]
    simp [hc]

mutual

theorem exists_modify? (change : Block → Block) (hc : (change found).id = id) :
    ∀ b : Block, b.walk.find? (fun x => x.id = id) = some found →
      ∃ b', b.modify? id change = some b' ∧ Changed id found (change found) [b] [b']
  | ⟨i, type, params, none⟩, h => by
    simp only [walk, List.find?_singleton, decide_eq_true_eq, Option.ite_none_right_eq_some,
      Option.some.injEq] at h
    obtain ⟨hi, rfl⟩ := h
    exact ⟨_, exists_modify?_of_id hc hi⟩
  | ⟨i, type, params, some inner⟩, h => by
    by_cases hi : i = id
    · rw [walk, List.find?_cons_of_pos (by simpa using hi), Option.some.injEq] at h
      subst h
      exact ⟨_, exists_modify?_of_id hc hi⟩
    · rw [walk, List.find?_cons_of_neg (by simpa using hi)] at h
      obtain ⟨inner', hm, hf⟩ := exists_modifyIn? change hc inner h
      refine ⟨⟨i, type, params, some inner'⟩, by simp [modify?, hi, hm],
        .inside [] [] ⟨i, type, params, some inner⟩ rfl hf.exchanged, ?_⟩
      have hw : Program.walk [⟨i, type, params, some inner'⟩] =
          ⟨i, type, params, some inner'⟩ :: Program.walk inner' := by
        simp [Program.walk, walkAll, walk]
      rw [Program.find?, hw, List.find?_cons_of_neg (by simpa using hi)]
      exact hf.find

theorem exists_modifyIn? (change : Block → Block) (hc : (change found).id = id) :
    ∀ bs : List Block, (walkAll bs).find? (fun x => x.id = id) = some found →
      ∃ bs', modifyIn? id change bs = some bs' ∧ Changed id found (change found) bs bs'
  | [], h => by simp [walkAll] at h
  | b :: bs, h => by
    rw [walkAll, List.find?_append] at h
    cases hb : b.walk.find? (fun x => x.id = id) with
    | none =>
      rw [hb, Option.none_or] at h
      obtain ⟨bs', hm, hf⟩ := exists_modifyIn? change hc bs h
      refine ⟨b :: bs', by simp [modifyIn?, modify?_eq_none change b hb, hm],
        hf.exchanged.cons b, ?_⟩
      rw [Program.find?, Program.walk_cons, List.find?_append, hb, Option.none_or]
      exact hf.find
    | some x =>
      rw [hb, Option.some_or] at h
      obtain ⟨b', hm, hf⟩ := exists_modify? change hc b (hb.trans h)
      exact ⟨b' :: bs, by simp [modifyIn?, hm], hf.append_right bs⟩

end

end Block

namespace Program

variable {program : Program} {id : String} {found child : Block}

theorem exists_found (h : ∃ b ∈ program.walk, b.id = id) :
    ∃ found ∈ program.walk, program.find? id = some found ∧ found.id = id := by
  cases hf : program.find? id with
  | none =>
    obtain ⟨b, hb, hi⟩ := h
    exact absurd hi (by simpa using List.find?_eq_none.1 hf b hb)
  | some found =>
    exact ⟨found, List.mem_of_find?_eq_some hf, rfl, by simpa using List.find?_some hf⟩

theorem appendChild_of_childless (hf : program.find? id = some found)
    (hc : found.children = none) (child : Block) :
    program.appendChild id child = .error (.cannotNest id found.type) := by
  simp [appendChild, hf, hc]

/-- A block that holds a list of blocks takes the child as the last of them. -/
theorem exists_appendChild {inner : List Block} (hf : program.find? id = some found)
    (hi : found.id = id) (hc : found.children = some inner) (child : Block) :
    ∃ program', program.appendChild id child = .ok program' ∧
      Block.Changed id found { found with children := some (inner ++ [child]) } program program' := by
  have hp : found.pushChild child = { found with children := some (inner ++ [child]) } := by
    simp [Block.pushChild, hc]
  obtain ⟨program', hm, h⟩ := Block.exists_modifyIn? (·.pushChild child) hi program hf
  rw [hp] at h
  exact ⟨program', by simp [appendChild, hf, hc, hm], h⟩

/-- In a valid program a child can be added under a block if and only if the
block is of a kind that nests and holds a list of blocks. The child becomes the
last of that list, and nothing else changes. -/
theorem appendChild_succeeds_iff (hv : program.validate = .ok ())
    (hid : ∃ b ∈ program.walk, b.id = id) (child : Block) :
    ∃ found kind, program.find? id = some found ∧ found.id = id ∧ found.kind? = some kind ∧
      ((∃ program', program.appendChild id child = .ok program') ↔
        kind.nests = true ∧ found.children.isSome = true) ∧
      (∀ program', program.appendChild id child = .ok program' →
        Block.Changed id found { found with children := some (found.body ++ [child]) }
          program program') ∧
      (found.children = none →
        program.appendChild id child = .error (.cannotNest id found.type)) := by
  obtain ⟨found, hm, hf, hi⟩ := exists_found hid
  obtain ⟨kind, hk⟩ := Validation.passes_of_validate hv found hm
  refine ⟨found, kind, hf, hi, hk.kind, ?_⟩
  cases hc : found.children with
  | none =>
    have he := appendChild_of_childless hf hc child
    simp [he]
  | some inner =>
    obtain ⟨program', ha, h⟩ := exists_appendChild hf hi hc child
    have hn : kind.nests = true := hk.nests (by simp [hc])
    have hb : found.body = inner := by simp [Block.body, hc]
    rw [ha, hb]
    simp [hn, h]

/-- A test inside a loop takes a second child after its first. -/
theorem appendChild_succeeds_below_loop :
    let test : Block := ⟨"q", "if", [], some [⟨"a", "print", [], none⟩]⟩
    let child : Block := ⟨"p", "print", [("message", .text "hi")], none⟩
    let program : Program := [⟨"s", "start", [], none⟩, ⟨"r", "repeat", [], some [test]⟩]
    program.validate = .ok () ∧
      ∃ program', program.appendChild "q" child = .ok program' ∧
        Block.Changed "q" test { test with children := some [⟨"a", "print", [], none⟩, child] }
          program program' := by
  intro test child program
  have hv : program.validate = .ok () := rfl
  have hq : program.find? "q" = some test := rfl
  obtain ⟨found, kind, hf, -, hk, hiff, hfound, -⟩ :=
    appendChild_succeeds_iff hv ⟨test, List.mem_of_find?_eq_some hq, rfl⟩ child
  cases hq.symm.trans hf
  cases (show some Kind.branch = some kind from hk)
  obtain ⟨program', ha⟩ := hiff.2 ⟨rfl, rfl⟩
  exact ⟨hv, program', ha, hfound program' ha⟩

def bareLoop : Value :=
  .list [.record [("id", .text "r"), ("type", .text "repeat"),
    ("params", .record [("times", .int 2)])]]

/-- A loop nests, but one that came without a list of blocks takes no child. -/
theorem appendChild_refuses_bare_loop :
    ∃ program found, Program.ofValue bareLoop = .ok program ∧ program.validate = .ok () ∧
      program.find? "r" = some found ∧ found.kind? = some .loop ∧ Kind.loop.nests = true ∧
      program.appendChild "r" ⟨"p", "print", [], none⟩ = .error (.cannotNest "r" "repeat") :=
  ⟨[⟨"r", "repeat", [("times", .int 2)], none⟩], ⟨"r", "repeat", [("times", .int 2)], none⟩,
    rfl, rfl, rfl, rfl, rfl, rfl⟩

end Program

end BlockScript
