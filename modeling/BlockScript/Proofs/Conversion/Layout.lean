import BlockScript.Proofs.Conversion.Command
import BlockScript.Proofs.Script.Forest

/-!
# The tree of a generated script

The lines written for blocks, read back as a tree, form the same tree: a block
that opens a body owns the nodes of the blocks inside it, every other block is a
leaf, and the start of a program leaves no node. Depth is kept as indentation
and nothing else, so this is where indentation is accounted for.
-/

set_option autoImplicit false

namespace BlockScript

open Script Script.Generate

inductive Renders (names : List String) : List Block → List Node → Prop
  | nil : Renders names [] []
  | start {b : Block} {bs : List Block} {nodes : List Node} :
      b.Says .start → Renders names bs nodes → Renders names (b :: bs) nodes
  | leaf {b : Block} {bs : List Block} {nodes : List Node} {c : Command} {line : Line}
      {statement : Simple} :
      b.Says c → c.Proper names → c.statement? = some (.simple statement) →
      Renders names bs nodes → Renders names (b :: bs) (.leaf line (.simple statement) :: nodes)
  | owner {b : Block} {bs : List Block} {nodes inner : List Node} {c : Command} {line : Line}
      {header : Header} :
      b.Says c → c.Proper names → c.statement? = some (.block header none) →
      Renders names b.body inner → Renders names bs nodes →
      Renders names (b :: bs) (.owner line header inner :: nodes)

def indented (depth : Nat) (text : List Char) : List Char :=
  List.replicate (4 * depth) ' ' ++ text

theorem toList_indented (depth : Nat) (s : String) :
    (indentation depth ++ s).toList = indented depth s.toList := by
  rw [String.toList_append, indentation, String.toList_ofList, indented]

theorem isBlank_of_mem_replicate {n : Nat} : ∀ c ∈ List.replicate n ' ', Text.isBlank c = true := by
  intro c hc
  rw [List.eq_of_mem_replicate hc]
  decide

theorem ofRaw_indented {text : List Char} (ht : Text.Tight text) (n depth : Nat) :
    Line.ofRaw n (indented depth text) = ⟨n, 4 * depth, text⟩ := by
  have hf : ∀ c ∈ text.head?, Text.isBlank c = false := ht.first
  have hs : Text.trimStart (indented depth text) = text :=
    dropWhile_span isBlank_of_mem_replicate hf
  rw [Line.ofRaw, Text.trim, hs, Text.trimEnd_of_tight ht, indented,
    takeWhile_span isBlank_of_mem_replicate hf, List.length_replicate]

/-- Raw lines that are the script of blocks at a depth. -/
structure Layout (names : List String) (depth : Nat) (bs : List Block)
    (raws : List (List Char)) : Prop where
  unbroken : ∀ raw ∈ raws, '\n' ∉ raw
  deep : ∀ n, ∀ line ∈ Line.visible (Line.numbered n raws), 4 * depth ≤ line.indent
  first : ∀ n, ∀ line ∈ (Line.visible (Line.numbered n raws)).head?, line.indent = 4 * depth
  renders : ∀ n, Renders names bs (forest (Line.visible (Line.numbered n raws)))

namespace Layout

variable {names : List String} {depth : Nat} {b : Block} {bs : List Block}
  {raws inner : List (List Char)} {c : Command}

theorem nil : Layout names depth [] [] where
  unbroken raw h := absurd h List.not_mem_nil
  deep n line h := absurd h List.not_mem_nil
  first n line h := nomatch h
  renders n := by
    rw [Line.numbered, Line.visible, List.filter_nil, forest]
    exact .nil

theorem unbroken_indented (hn : ∀ x ∈ names, IsName x) (hp : c.Proper names) (depth : Nat) :
    '\n' ∉ indented depth c.line.toList := by
  have hl := Command.unbroken_line hn hp
  simp [indented, hl]

theorem start (hn : ∀ x ∈ names, IsName x) (hs : b.Says .start)
    (h : Layout names depth bs raws) :
    Layout names depth (b :: bs) (indented depth (Command.line .start).toList :: raws) := by
  have hp : Command.Proper names .start := trivial
  have hv : ∀ n, Line.visible (Line.numbered n
      (indented depth (Command.line .start).toList :: raws)) =
      Line.visible (Line.numbered (n + 1) raws) := by
    intro n
    rw [Line.numbered, ofRaw_indented (Command.tight_line hn hp)]
    exact Line.visible_cons_of_skippable (Command.isSkippable_line hn hp n _) _
  constructor
  · intro raw hr
    rcases List.mem_cons.1 hr with rfl | hr
    · exact unbroken_indented hn hp depth
    · exact h.unbroken raw hr
  · intro n
    rw [hv]
    exact h.deep (n + 1)
  · intro n
    rw [hv]
    exact h.first (n + 1)
  · intro n
    rw [hv]
    exact .start hs (h.renders (n + 1))

theorem isSkippable_of_statement (hn : ∀ x ∈ names, IsName x) (hp : c.Proper names)
    {st : Statement} (hs : c.statement? = some st) (n indent : Nat) :
    (Line.mk n indent c.line.toList).isSkippable = false := by
  rw [Command.isSkippable_line hn hp, hs]
  rfl

/-- A block without a body stands alone. -/
theorem leaf (hn : ∀ x ∈ names, IsName x) (hb : b.Says c) (hp : c.Proper names)
    {statement : Simple} (hs : c.statement? = some (.simple statement))
    (h : Layout names depth bs raws) :
    Layout names depth (b :: bs) (indented depth c.line.toList :: raws) := by
  have hv : ∀ n, Line.visible (Line.numbered n (indented depth c.line.toList :: raws)) =
      ⟨n, 4 * depth, c.line.toList⟩ :: Line.visible (Line.numbered (n + 1) raws) := by
    intro n
    rw [Line.numbered, ofRaw_indented (Command.tight_line hn hp)]
    exact Line.visible_cons (isSkippable_of_statement hn hp hs n _) _
  constructor
  · intro raw hr
    rcases List.mem_cons.1 hr with rfl | hr
    · exact unbroken_indented hn hp depth
    · exact h.unbroken raw hr
  · intro n line hl
    rw [hv] at hl
    rcases List.mem_cons.1 hl with rfl | hl
    · exact Nat.le_refl _
    · exact h.deep (n + 1) line hl
  · intro n line hl
    rw [hv] at hl
    cases hl
    rfl
  · intro n
    rw [hv, forest, Command.classifyChars_line hn hp hs]
    exact .leaf hb hp hs (h.renders (n + 1))

/-- A block with a body owns the lines of the blocks inside it, and no others. -/
theorem owner (hn : ∀ x ∈ names, IsName x) (hb : b.Says c) (hp : c.Proper names)
    {header : Header} (hs : c.statement? = some (.block header none))
    (hi : Layout names (depth + 1) b.body inner) (h : Layout names depth bs raws) :
    Layout names depth (b :: bs) (indented depth c.line.toList :: (inner ++ raws)) := by
  have hv : ∀ n, Line.visible (Line.numbered n (indented depth c.line.toList :: (inner ++ raws))) =
      ⟨n, 4 * depth, c.line.toList⟩ :: (Line.visible (Line.numbered (n + 1) inner) ++
        Line.visible (Line.numbered (n + 1 + inner.length) raws)) := by
    intro n
    rw [Line.numbered, ofRaw_indented (Command.tight_line hn hp), Line.numbered_append,
      ← Line.visible_append]
    exact Line.visible_cons (isSkippable_of_statement hn hp hs n _) _
  constructor
  · intro raw hr
    rcases List.mem_cons.1 hr with rfl | hr
    · exact unbroken_indented hn hp depth
    · exact (List.mem_append.1 hr).elim (hi.unbroken raw) (h.unbroken raw)
  · intro n line hl
    rw [hv] at hl
    rcases List.mem_cons.1 hl with rfl | hl
    · exact Nat.le_refl _
    · rcases List.mem_append.1 hl with hl | hl
      · have := hi.deep _ line hl
        omega
      · exact h.deep _ line hl
  · intro n line hl
    rw [hv] at hl
    cases hl
    rfl
  · intro n
    -- the body ends at the first line that is back at this depth
    have hd : ∀ line ∈ Line.visible (Line.numbered (n + 1) inner),
        decide (4 * depth < line.indent) = true := by
      intro line hl
      have := hi.deep _ line hl
      exact decide_eq_true (by omega)
    have hr : ∀ line ∈ (Line.visible (Line.numbered (n + 1 + inner.length) raws)).head?,
        decide (4 * depth < line.indent) = false := by
      intro line hl
      have := h.first _ line hl
      exact decide_eq_false (by omega)
    rw [hv, forest, Command.classifyChars_line hn hp hs]
    dsimp only
    rw [takeWhile_span hd hr, dropWhile_span hd hr]
    exact .owner hb hp hs (hi.renders _) (h.renders _)

end Layout

structure Block.Convertible (names : List String) (b : Block) : Prop where
  command : ∃ c, b.Says c ∧ c.Proper names
  childless : b.children = none ∨ ∃ kind, b.kind? = some kind ∧ kind.nests = true

theorem Command.exists_header {b : Block} {c : Command} (hb : b.Says c) {kind : Kind}
    (hk : b.kind? = some kind) (hn : kind.nests = true) :
    ∃ header, c.statement? = some (.block header none) := by
  cases c with
  | start =>
    rw [show b.kind? = _ from hb] at hk
    cases hk
    cases hn
  | loop n => exact ⟨_, rfl⟩
  | branch x comparison n => exact ⟨_, rfl⟩
  | printName x | printText x | wait x | move x | set x n | change x n =>
    rw [hb.1] at hk
    cases hk
    cases hn

theorem Layout.single {names : List String} (hn : ∀ x ∈ names, IsName x) {b : Block}
    (hc : b.children = none) {c : Command} (hb : b.Says c) (hp : c.Proper names) {depth : Nat}
    {bs : List Block} {raws : List (List Char)} (h : Layout names depth bs raws) :
    Layout names depth (b :: bs) (indented depth c.line.toList :: raws) := by
  have hi : Layout names (depth + 1) b.body [] := by
    rw [Block.body, hc]
    exact Layout.nil
  cases c with
  | start => exact Layout.start hn hb h
  | loop n => exact Layout.owner hn hb hp rfl hi h
  | branch x comparison n => exact Layout.owner hn hb hp rfl hi h
  | printName x | printText x | wait x | move x | set x n | change x n =>
    exact Layout.leaf hn hb hp rfl h

mutual

theorem exists_linesOf {names : List String} (hn : ∀ x ∈ names, IsName x) (depth : Nat) :
    ∀ b : Block, (∀ x ∈ b.walk, x.Convertible names) →
      ∃ lines, linesOf names depth b = .ok lines ∧
        ∀ bs raws, Layout names depth bs raws →
          Layout names depth (b :: bs) (lines.map String.toList ++ raws)
  | ⟨id, type, params, none⟩, h => by
    obtain ⟨c, hb, hp⟩ := (h _ List.mem_cons_self).command
    refine ⟨[indentation depth ++ c.line], ?_, ?_⟩
    · rw [linesOf, lineOf_eq hb hp]
      rfl
    · intro bs raws hr
      rw [List.map_singleton, toList_indented, List.singleton_append]
      exact Layout.single hn rfl hb hp hr
  | ⟨id, type, params, some inner⟩, h => by
    obtain ⟨c, hb, hp⟩ := (h _ List.mem_cons_self).command
    obtain ⟨lines, hl, hi⟩ := exists_linesOfAll hn (depth + 1) inner
      fun x hx => h x (List.mem_cons_of_mem _ hx)
    obtain hc | ⟨kind, hk, hk'⟩ := (h _ List.mem_cons_self).childless
    · cases hc
    · obtain ⟨header, hs⟩ := Command.exists_header hb hk hk'
      refine ⟨(indentation depth ++ c.line) :: lines, ?_, ?_⟩
      · rw [linesOf, lineOf_eq hb hp, hl]
        rfl
      · intro bs raws hr
        rw [List.map_cons, toList_indented, List.cons_append]
        exact Layout.owner hn hb hp hs hi hr

theorem exists_linesOfAll {names : List String} (hn : ∀ x ∈ names, IsName x) (depth : Nat) :
    ∀ bs : List Block, (∀ x ∈ Block.walkAll bs, x.Convertible names) →
      ∃ lines, linesOfAll names depth bs = .ok lines ∧
        Layout names depth bs (lines.map String.toList)
  | [], _ => ⟨[], by rw [linesOfAll], Layout.nil⟩
  | b :: bs, h => by
    obtain ⟨lines, hl, hb⟩ := exists_linesOf hn depth b
      fun x hx => h x (List.mem_append_left _ hx)
    obtain ⟨more, hm, hbs⟩ := exists_linesOfAll hn depth bs
      fun x hx => h x (List.mem_append_right _ hx)
    refine ⟨lines ++ more, ?_, ?_⟩
    · rw [linesOfAll, hl, hm]
      rfl
    · rw [List.map_append]
      exact hb bs _ hbs

end

end BlockScript
