import Mathlib.Data.List.Forall2
import BlockScript.Proofs.Block.Names
import BlockScript.Proofs.Block.Validity
import BlockScript.Proofs.Conversion.Opening
import BlockScript.Proofs.Conversion.Placement
import BlockScript.Proofs.Conversion.Wording
import BlockScript.Proofs.Engine.Nesting

/-!
# Indentation keeps the tree of a program

The lines of a program come in the order of its walk, each indented by four blanks for
every block around its own. Comments are skipped when the end of a body is looked for,
and the start of a program is written as a comment, so a body can run into lines that
are not of it. None of these is executed: a block that follows is either such a comment,
and then holds no blocks, or it is indented no further than the line whose body it is not.
-/

set_option autoImplicit false

namespace BlockScript

open Script Script.Generate

namespace Block

def Surfaces (depth : Nat) (levels : List (Nat × Block)) : Prop :=
  ∀ level ∈ levels.find? (·.2.kind? != some .start), level.1 ≤ depth

/-- After every block come the blocks below it and then, comments apart, one that is no
deeper than itself. -/
def Parted (levels : List (Nat × Block)) : Prop :=
  ∀ before depth b after, levels = before ++ (depth, b) :: after →
    ∃ later, after = levelsAll (depth + 1) b.body ++ later ∧ Surfaces depth later

mutual

theorem le_of_mem_levels (depth : Nat) :
    ∀ b : Block, ∀ level ∈ b.levels depth, depth ≤ level.1
  | ⟨id, type, params, none⟩, level, h => by
    rw [List.mem_singleton.1 h]
  | ⟨id, type, params, some inner⟩, level, h => by
    rcases List.mem_cons.1 h with rfl | h
    · exact Nat.le_refl _
    · exact Nat.le_of_succ_le (le_of_mem_levelsAll (depth + 1) inner level h)

theorem le_of_mem_levelsAll (depth : Nat) :
    ∀ bs : List Block, ∀ level ∈ levelsAll depth bs, depth ≤ level.1
  | [], level, h => absurd h List.not_mem_nil
  | b :: bs, level, h => by
    rcases List.mem_append.1 h with h | h
    · exact le_of_mem_levels depth b level h
    · exact le_of_mem_levelsAll depth bs level h

end

theorem levels_eq (depth : Nat) (b : Block) :
    b.levels depth = (depth, b) :: levelsAll (depth + 1) b.body := by
  obtain ⟨id, type, params, _ | inner⟩ := b <;> rfl

theorem Surfaces.mono {depth depth' : Nat} {levels : List (Nat × Block)}
    (h : Surfaces depth levels) (hd : depth ≤ depth') : Surfaces depth' levels :=
  fun level hl => Nat.le_trans (h level hl) hd

theorem surfaces_levelsAll {depth : Nat} {bs : List Block} {rest : List (Nat × Block)}
    (h : ∀ b ∈ bs, b.kind? = some .start → b.children = none) (hr : Surfaces depth rest) :
    Surfaces depth (levelsAll depth bs ++ rest) := by
  induction bs with
  | nil => exact hr
  | cons b bs ih =>
    obtain ⟨hb, hbs⟩ := List.forall_mem_cons.1 h
    rw [levelsAll, levels_eq, List.cons_append, List.cons_append]
    intro level hl
    by_cases hk : b.kind? = some .start
    -- nothing is below a comment, so the block beside it comes next
    · rw [List.find?_cons_of_neg (by simp [hk]), body, hb hk] at hl
      exact ih hbs level hl
    · rw [List.find?_cons_of_pos (by simp [hk])] at hl
      cases hl
      exact Nat.le_refl _

theorem Parted.cons {depth : Nat} {b : Block} {later : List (Nat × Block)}
    (hs : Surfaces depth later) (h : Parted (levelsAll (depth + 1) b.body ++ later)) :
    Parted ((depth, b) :: (levelsAll (depth + 1) b.body ++ later)) := by
  intro before depth' b' after he
  rcases List.cons_eq_append_iff.1 he with ⟨rfl, he⟩ | ⟨before', rfl, htail⟩
  · cases he
    exact ⟨later, rfl, hs⟩
  · exact h before' depth' b' after htail

mutual

theorem parted_levels (depth : Nat) : ∀ (b : Block) (rest : List (Nat × Block)),
    (∀ x ∈ b.walk, x.kind? = some .start → x.children = none) →
      Parted rest → Surfaces depth rest → Parted (b.levels depth ++ rest)
  | ⟨_, _, _, none⟩, _, _, hp, hs => Parted.cons hs hp
  | ⟨_, _, _, some inner⟩, rest, h, hp, hs =>
    Parted.cons hs (parted_levelsAll (depth + 1) inner rest
      (fun x hx => h x (List.mem_cons_of_mem _ hx)) hp (hs.mono (Nat.le_succ depth)))

theorem parted_levelsAll (depth : Nat) : ∀ (bs : List Block) (rest : List (Nat × Block)),
    (∀ x ∈ walkAll bs, x.kind? = some .start → x.children = none) →
      Parted rest → Surfaces depth rest → Parted (levelsAll depth bs ++ rest)
  | [], rest, _, hp, _ => hp
  | b :: bs, rest, h, hp, hs => by
    rw [levelsAll, List.append_assoc]
    have hbs : ∀ x ∈ walkAll bs, x.kind? = some .start → x.children = none :=
      fun x hx => h x (List.mem_append_right _ hx)
    have hside : ∀ x ∈ bs, x.kind? = some .start → x.children = none :=
      fun x hx => hbs x (Program.mem_walk_of_mem hx)
    exact parted_levels depth b _ (fun x hx => h x (List.mem_append_left _ hx))
      (parted_levelsAll depth bs rest hbs hp hs) (surfaces_levelsAll hside hs)

end

end Block

/-- A line whose text starts with no blank keeps its first character and its depth. -/
theorem exists_ofRaw_indented {c : Char} (hc : Text.isBlank c = false) (n depth : Nat)
    (rest : List Char) :
    ∃ more, Line.ofRaw n (indented depth (c :: rest)) = ⟨n, 4 * depth, c :: more⟩ := by
  have hf : ∀ d ∈ (c :: rest).head?, Text.isBlank d = false := by
    intro d hd
    cases hd
    exact hc
  have hs : Text.trimStart (indented depth (c :: rest)) = c :: rest :=
    dropWhile_span isBlank_of_mem_replicate hf
  obtain ⟨front, hfront⟩ : ∃ front, (rest.reverse ++ [c]).dropWhile Text.isBlank =
      front ++ [c] := by
    rw [List.dropWhile_append, List.dropWhile_cons_of_neg (by simp [hc])]
    split
    · exact ⟨[], rfl⟩
    · exact ⟨_, rfl⟩
  refine ⟨front.reverse, ?_⟩
  rw [Line.ofRaw, Text.trim, hs, Text.trimEnd, List.reverse_cons, hfront, indented,
    takeWhile_span isBlank_of_mem_replicate hf, List.length_replicate, List.reverse_concat]

structure Block.Written (names : List String) (b : Block) (text : String) : Prop where
  line : lineOf names b = .ok text
  unbroken : '\n' ∉ text.toList
  first : ∃ c rest, text.toList = c :: rest ∧ Text.isBlank c = false ∧
    (c = '#' ↔ b.kind? = some .start)

structure IsLineOf (names : List String) (level : Nat × Block) (line : Line) : Prop where
  indent : line.indent = 4 * level.1
  skippable : line.isSkippable = true ↔ level.2.kind? = some .start
  text : ∃ text, lineOf names level.2 = .ok text ∧
    line = Line.ofRaw line.number (indentation level.1 ++ text).toList

/-- A line of a block, with the lines of the blocks below it right after it: up to the end
of its body there is nothing else to execute. -/
structure Encloses (names : List String) (depth : Nat) (b : Block) (line : Line)
    (inner after : List Line) : Prop where
  own : IsLineOf names (depth, b) line
  below : List.Forall₂ (IsLineOf names) (Block.levelsAll (depth + 1) b.body) inner
  body : ∃ body, inner ++ after = body ++ Line.afterBody (4 * depth) (inner ++ after) ∧
    Line.visible body = Line.visible inner

section Rows

variable {names : List String} {depth : Nat} {levels : List (Nat × Block)} {rows : List Line}

theorem Block.Written.isLineOf {b : Block} {text : String} (h : b.Written names text) (n : Nat) :
    IsLineOf names (depth, b) (Line.ofRaw n (indentation depth ++ text).toList) := by
  obtain ⟨c, rest, hc, hblank, hstart⟩ := h.first
  obtain ⟨more, hmore⟩ := exists_ofRaw_indented hblank n depth rest
  rw [← hc, ← toList_indented] at hmore
  refine ⟨?_, ?_, text, h.line, rfl⟩
  · rw [hmore]
  · rw [hmore, ← hstart]
    simp [Line.isSkippable]

theorem exists_rows (h : ∀ level ∈ levels, ∃ text, level.2.Written names text) :
    ∃ lines, levels.mapM (lineAt names) = .ok lines ∧ (∀ line ∈ lines, '\n' ∉ line.toList) ∧
      ∀ n, List.Forall₂ (IsLineOf names) levels
        (Line.numbered n (lines.map String.toList)) := by
  induction levels with
  | nil => exact ⟨[], rfl, by simp, fun n => .nil⟩
  | cons level levels ih =>
    obtain ⟨⟨text, htext⟩, hrest⟩ := List.forall_mem_cons.1 h
    obtain ⟨lines, hlines, hunbroken, hrows⟩ := ih hrest
    refine ⟨(indentation level.1 ++ text) :: lines, ?_, ?_, ?_⟩
    · rw [List.mapM_cons, lineAt, htext.line, Except.ok_bind, hlines]
      rfl
    · refine List.forall_mem_cons.2 ⟨?_, hunbroken⟩
      rw [toList_indented]
      simp [indented, htext.unbroken]
    · intro n
      exact .cons (htext.isLineOf n) (hrows (n + 1))

theorem indent_of_deep (h : List.Forall₂ (IsLineOf names) levels rows)
    (hd : ∀ level ∈ levels, depth < level.1) : ∀ line ∈ rows, 4 * depth < line.indent := by
  induction h with
  | nil => simp
  | @cons level line levels rows hline _ ih =>
    obtain ⟨hlevel, hlevels⟩ := List.forall_mem_cons.1 hd
    refine List.forall_mem_cons.2 ⟨?_, ih hlevels⟩
    rw [hline.indent]
    omega

theorem indent_of_surfaces (h : List.Forall₂ (IsLineOf names) levels rows)
    (hs : Block.Surfaces depth levels) :
    ∀ line ∈ (Line.visible rows).head?, line.indent ≤ 4 * depth := by
  induction h with
  | nil => simp [Line.visible]
  | @cons level line levels rows hline _ ih =>
    by_cases hk : level.2.kind? = some .start
    · rw [Line.visible_cons_of_skippable (hline.skippable.2 hk)]
      apply ih
      intro other ho
      apply hs other
      rwa [List.find?_cons_of_neg (by simp [hk])]
    · have hv : line.isSkippable = false := by
        rw [← Bool.not_eq_true, hline.skippable]
        exact hk
      rw [Line.visible_cons hv]
      intro other ho
      cases ho
      have hle : level.1 ≤ depth := by
        apply hs level
        rw [List.find?_cons_of_pos (by simp [hk])]
        rfl
      rw [hline.indent]
      omega

/-- What is executed of the lines up to the end of a body is what is inside it. -/
theorem visible_body {after : List Line}
    (hi : ∀ line ∈ rows, 4 * depth < line.indent)
    (ha : ∀ line ∈ (Line.visible after).head?, line.indent ≤ 4 * depth) :
    Line.visible ((rows ++ after).takeWhile (Line.isWithin (4 * depth))) = Line.visible rows := by
  have hdeep : ∀ line ∈ Line.visible rows, decide (4 * depth < line.indent) = true :=
    fun line hm => decide_eq_true (hi line (List.mem_of_mem_filter hm))
  have hafter : ∀ line ∈ (Line.visible after).head?, decide (4 * depth < line.indent) = false :=
    fun line hm => decide_eq_false (Nat.not_lt.2 (ha line hm))
  rw [Line.isWithin_eq, ← Line.takeWhile_visible (Nat.zero_le (4 * depth)),
    Line.takeWhile_belongs_zero, Line.visible_append]
  exact takeWhile_span hdeep hafter

theorem exists_of_forall₂_append {α β : Type} {R : α → β → Prop} {xs ys : List α} {zs : List β}
    (h : List.Forall₂ R (xs ++ ys) zs) :
    ∃ us vs, zs = us ++ vs ∧ List.Forall₂ R xs us ∧ List.Forall₂ R ys vs := by
  induction xs generalizing zs with
  | nil => exact ⟨[], zs, rfl, .nil, h⟩
  | cons x xs ih =>
    obtain ⟨z, zs, hz, hzs, rfl⟩ := List.forall₂_cons_left_iff.1 h
    obtain ⟨us, vs, rfl, hus, hvs⟩ := ih hzs
    exact ⟨z :: us, vs, rfl, .cons hz hus, hvs⟩

/-- Among the lines of blocks, and nothing after them, every line encloses those of the
blocks below its own. -/
theorem exists_encloses (hp : Block.Parted levels)
    (h : List.Forall₂ (IsLineOf names) levels rows) {last : Line}
    (hlast : last.isSkippable = true) {before after : List (Nat × Block)} {b : Block}
    (hs : levels = before ++ (depth, b) :: after) :
    ∃ earlier line inner later, rows ++ [last] = earlier ++ line :: (inner ++ later) ∧
      earlier.length = before.length ∧ Encloses names depth b line inner later := by
  obtain ⟨below, rfl, hsurfaces⟩ := hp before depth b after hs
  rw [hs] at h
  obtain ⟨earlier, tail, rfl, hbefore, htail⟩ := exists_of_forall₂_append h
  obtain ⟨line, rest, hline, hrest, rfl⟩ := List.forall₂_cons_left_iff.1 htail
  obtain ⟨inner, later, rfl, hinner, hlater⟩ := exists_of_forall₂_append hrest
  have hdeep := indent_of_deep hinner (Block.le_of_mem_levelsAll (depth + 1) b.body)
  have hv : Line.visible (later ++ [last]) = Line.visible later := by
    rw [Line.visible_append, Line.visible_cons_of_skippable hlast]
    exact List.append_nil _
  have hafter : ∀ other ∈ (Line.visible (later ++ [last])).head?, other.indent ≤ 4 * depth := by
    rw [hv]
    exact indent_of_surfaces hlater hsurfaces
  refine ⟨earlier, line, inner, later ++ [last], by simp, hbefore.length_eq.symm, hline, hinner,
    _, List.takeWhile_append_dropWhile.symm, visible_body hdeep hafter⟩

end Rows

structure Block.Fits (b : Block) (kind : Kind) : Prop where
  known : b.kind? = some kind
  childless : kind = .start → b.children = none
  word : kind = .setVar ∨ kind = .changeVar →
    ∃ x, b.param "name" = .ok (.text x) ∧ IsWord x.toList
  shown : ∀ input ∈ kind.inputs, ∃ text, b.shown input = .ok text ∧ '\n' ∉ text.toList

namespace Block.Fits

variable {b : Block} {kind : Kind}

theorem exists_spells (h : b.Fits kind) :
    ∃ texts, b.Spells kind texts ∧ ∀ input ∈ kind.inputs, '\n' ∉ (texts input.name).toList := by
  obtain ⟨texts, hspells⟩ := Block.exists_spells fun input hi =>
    (h.shown input hi).imp fun text ht => ht.1
  refine ⟨texts, hspells, fun input hi => ?_⟩
  obtain ⟨text, ht, hn⟩ := h.shown input hi
  rw [hspells input hi] at ht
  cases ht
  exact hn

theorem isWord_name (h : b.Fits kind) {texts : String → String} (hs : b.Spells kind texts)
    (hk : kind = .setVar ∨ kind = .changeVar) : IsWord (texts "name").toList := by
  obtain ⟨x, hx, hw⟩ := h.word hk
  have hn : bareParam b "name" = .ok (texts "name") := by
    rcases hk with rfl | rfl <;> exact hs _ List.mem_cons_self
  rw [bareParam_of_text hx] at hn
  cases hn
  exact hw

theorem exists_written (h : b.Fits kind) (names : List String) :
    ∃ text, b.Written names text := by
  obtain ⟨texts, hspells, hunbroken⟩ := h.exists_spells
  refine ⟨_, lineOf_of_spells h.known hspells, Kind.unbroken_pattern hunbroken, ?_⟩
  by_cases hstart : kind = .start
  · subst hstart
    have hc : "# Program Start".toList = '#' :: " Program Start".toList := by decide
    exact ⟨'#', _, hc, by decide, by simp [h.known]⟩
  · obtain ⟨c, rest, hc, hw⟩ := Kind.exists_pattern names (h.isWord_name hspells) hstart
    have hne : c ≠ '#' := by
      rintro rfl
      exact absurd hw (by decide)
    exact ⟨c, rest, hc, Text.isBlank_of_isWord hw, by simp [hne, h.known, hstart]⟩

theorem exists_bare (h : b.Fits kind) {v : Value} (hv : Program.variableName? b = some v) :
    ∃ x, v.bare = .ok x ∧ '\n' ∉ x.toList := by
  obtain ⟨name, hn, hv⟩ := Program.param_of_variableName? h.known hv
  obtain ⟨input, hi, rfl, hkind, hdefault⟩ := Kind.exists_nameInput hn
  rcases hv with hv | hv
  · obtain ⟨x, hx, hu⟩ := h.shown input hi
    rw [Block.shown, hv, Except.ok_bind, Input.show, hkind] at hx
    exact ⟨x, hx, hu⟩
  · rw [Block.default?, h.known, Option.bind_some, Kind.input?_name hi, Option.map_some,
      hdefault] at hv
    cases hv
    exact ⟨"score", rfl, by decide⟩

end Block.Fits

namespace Program

variable {program : Program}

theorem mem_walk_of_mem_levels {level : Nat × Block} (h : level ∈ program.levels) :
    level.2 ∈ program.walk := by
  rw [walk, ← Block.map_levelsAll 0 program]
  exact List.mem_map_of_mem h

/-- The lines of a script are those of its opening, the rows of its blocks, and nothing. -/
theorem ofSource_textThrough {names lines : List String} (hn : ∀ x ∈ names, '\n' ∉ x.toList)
    (hl : ∀ line ∈ lines, '\n' ∉ line.toList) :
    ∃ first last, Line.ofSource (textThrough names lines) =
      Line.numbered 1 (openingLines names) ++
        (Line.numbered first (lines.map String.toList) ++ [Line.ofRaw last []]) := by
  have ht : (textThrough names lines).toList = broken (openingLines names ++
      lines.map String.toList) := toList_script names lines
  have hu : ∀ line ∈ openingLines names ++ lines.map String.toList, '\n' ∉ line := by
    refine List.forall_mem_append.2 ⟨unbroken_openingLines hn, ?_⟩
    intro line hm
    obtain ⟨text, ht, rfl⟩ := List.mem_map.1 hm
    exact hl text ht
  rw [Line.ofSource, ht, splitOn_broken hu, List.append_assoc, Line.numbered_append,
    Line.numbered_append]
  exact ⟨_, _, rfl⟩

theorem exists_unbroken_names (h : ∀ b ∈ program.walk, ∃ kind, b.Fits kind) :
    ∃ names, program.variableNames = .ok names ∧ ∀ x ∈ names, '\n' ∉ x.toList := by
  have hbare : ∀ b ∈ program.walk, ∀ v, variableName? b = some v →
      ∃ x, v.bare = .ok x ∧ '\n' ∉ x.toList := by
    intro b hb v hv
    obtain ⟨kind, hf⟩ := h b hb
    exact hf.exists_bare hv
  obtain ⟨names, hn⟩ := exists_variableNames fun b hb v hv =>
    (hbare b hb v hv).imp fun x hx => hx.1
  refine ⟨names, hn, fun x hx => ?_⟩
  obtain ⟨b, hb, v, hv, hvx⟩ := (mem_variableNames hn x).1 hx
  obtain ⟨y, hy, hu⟩ := hbare b hb v hv
  rw [hvx] at hy
  cases hy
  exact hu

theorem parted_of_fits (h : ∀ b ∈ program.walk, ∃ kind, b.Fits kind) :
    Block.Parted program.levels := by
  have hc : ∀ b ∈ program.walk, b.kind? = some .start → b.children = none := by
    intro b hb hk
    obtain ⟨kind, hf⟩ := h b hb
    rw [hf.known] at hk
    exact hf.childless (Option.some_inj.1 hk)
  have hp := Block.parted_levelsAll 0 program [] hc
    (fun before depth b after he => absurd he (by simp)) (fun level hl => nomatch hl)
  rwa [List.append_nil] at hp

theorem exists_script (h : ∀ b ∈ program.walk, ∃ kind, b.Fits kind) :
    ∃ names script rows n, program.variableNames = .ok names ∧ program.toScript = .ok script ∧
      Line.ofSource script =
        Line.numbered 1 (openingLines names) ++ (rows ++ [Line.ofRaw n []]) ∧
      List.Forall₂ (IsLineOf names) program.levels rows := by
  obtain ⟨names, hn, hunbroken⟩ := exists_unbroken_names h
  have hwritten : ∀ level ∈ program.levels, ∃ text, level.2.Written names text := by
    intro level hl
    obtain ⟨kind, hf⟩ := h level.2 (mem_walk_of_mem_levels hl)
    exact hf.exists_written names
  obtain ⟨lines, hlines, hbroken, hrows⟩ := exists_rows hwritten
  obtain ⟨first, last, hsource⟩ := ofSource_textThrough hunbroken hbroken
  refine ⟨names, _, _, last, hn, ?_, hsource, hrows first⟩
  rw [levels, ← linesOfAll_eq] at hlines
  rw [toScript, hn, Except.ok_bind, hlines]
  rfl

theorem fits_of_validate (hvalid : program.validate = .ok ())
    (hnames : ∀ b ∈ program.walk, b.kind? = some .setVar ∨ b.kind? = some .changeVar →
      ∃ x, b.param "name" = .ok (.text x) ∧ IsWord x.toList)
    (hshown : ∀ b ∈ program.walk, ∀ kind, b.kind? = some kind → ∀ input ∈ kind.inputs,
      ∃ text, b.shown input = .ok text ∧ '\n' ∉ text.toList) :
    ∀ b ∈ program.walk, ∃ kind, b.Fits kind := by
  intro b hb
  obtain ⟨kind, hp⟩ := Validation.passes_of_validate hvalid b hb
  refine ⟨kind, hp.kind, ?_, ?_, hshown b hb kind hp.kind⟩
  · rintro rfl
    cases hc : b.children with
    | none => rfl
    | some inner => exact absurd (hp.nests (by rw [hc]; rfl)) (by decide)
  · intro hk
    apply hnames b hb
    rwa [hp.kind, Option.some_inj, Option.some_inj]

/-- Every block of a valid program has one line, after the opening and in the order of the
walk, indented by four blanks for each block around it. From the line of a block to the
end of its body, the lines that are executed are those of the blocks below it, all of
them and no others, however comments stand between and after them. -/
theorem script_keeps_tree (hvalid : program.validate = .ok ())
    (hnames : ∀ b ∈ program.walk, b.kind? = some .setVar ∨ b.kind? = some .changeVar →
      ∃ x, b.param "name" = .ok (.text x) ∧ IsWord x.toList)
    (hshown : ∀ b ∈ program.walk, ∀ kind, b.kind? = some kind → ∀ input ∈ kind.inputs,
      ∃ text, b.shown input = .ok text ∧ '\n' ∉ text.toList) :
    ∃ names script rows n, program.variableNames = .ok names ∧ program.toScript = .ok script ∧
      Line.ofSource script =
        Line.numbered 1 (openingLines names) ++ (rows ++ [Line.ofRaw n []]) ∧
      program.levels.map Prod.snd = program.walk ∧
      List.Forall₂ (IsLineOf names) program.levels rows ∧
      ∀ before depth b after, program.levels = before ++ (depth, b) :: after →
        ∃ earlier line inner later,
          rows ++ [Line.ofRaw n []] = earlier ++ line :: (inner ++ later) ∧
          earlier.length = before.length ∧ Encloses names depth b line inner later := by
  have hfits := fits_of_validate hvalid hnames hshown
  obtain ⟨names, script, rows, n, hn, hs, hsource, hrows⟩ := exists_script hfits
  refine ⟨names, script, rows, n, hn, hs, hsource, Block.map_levelsAll 0 program, hrows, ?_⟩
  intro before depth b after hsplit
  exact exists_encloses (parted_of_fits hfits) hrows rfl hsplit

def commentedLoop : Program :=
  [⟨"a", "repeat", [("times", .int 2)], some [⟨"b", "print", [("message", .text "hi")], none⟩]⟩,
   ⟨"c", "start", [], none⟩,
   ⟨"d", "set_var", [("name", .text "x"), ("value", .int 1)], none⟩]

/-- The search for the end of the loop passes the comment, but the assignment is not inside. -/
theorem script_keeps_tree_past_comment :
    ∃ names script rows n b, commentedLoop.variableNames = .ok names ∧
      commentedLoop.toScript = .ok script ∧ commentedLoop.levels.head? = some (0, b) ∧
      Line.ofSource script =
        Line.numbered 1 (openingLines names) ++ (rows ++ [Line.ofRaw n []]) ∧
      ∃ line inner later, rows ++ [Line.ofRaw n []] = line :: (inner ++ later) ∧
        inner.length = 1 ∧ later.length = 3 ∧ Encloses names 0 b line inner later := by
  have hvalid : commentedLoop.validate = .ok () := rfl
  have hnames : ∀ b ∈ commentedLoop.walk, b.kind? = some .setVar ∨ b.kind? = some .changeVar →
      ∃ x, b.param "name" = .ok (.text x) ∧ IsWord x.toList := by
    have hx : IsWord "x".toList := ⟨by decide, List.all_eq_true.1 rfl⟩
    refine List.forall_mem_cons.2 ⟨?_, List.forall_mem_cons.2 ⟨?_, List.forall_mem_cons.2
      ⟨?_, List.forall_mem_singleton.2 fun _ => ⟨"x", rfl, hx⟩⟩⟩⟩
    all_goals exact fun h => absurd h (by decide)
  have hshown : ∀ b ∈ commentedLoop.walk, ∀ kind, b.kind? = some kind → ∀ input ∈ kind.inputs,
      ∃ text, b.shown input = .ok text ∧ '\n' ∉ text.toList := by
    refine List.forall_mem_cons.2 ⟨?_, List.forall_mem_cons.2 ⟨?_, List.forall_mem_cons.2
      ⟨?_, List.forall_mem_singleton.2 ?_⟩⟩⟩ <;> rintro kind ⟨⟩
    · exact List.forall_mem_singleton.2 ⟨"2", rfl, by decide⟩
    · exact List.forall_mem_singleton.2 ⟨"hi", rfl, by decide⟩
    · exact List.forall_mem_nil _
    · exact List.forall_mem_cons.2 ⟨⟨"x", rfl, by decide⟩,
        List.forall_mem_singleton.2 ⟨"1", rfl, by decide⟩⟩
  obtain ⟨names, script, rows, n, hn, hs, hsource, -, hrows, htree⟩ :=
    script_keeps_tree hvalid hnames hshown
  obtain ⟨earlier, line, inner, later, hsplit, hearlier, hencloses⟩ := htree [] 0 _ _ rfl
  obtain rfl := List.eq_nil_of_length_eq_zero hearlier
  have hinner : inner.length = 1 := hencloses.below.length_eq.symm
  have hlength := congrArg List.length hsplit
  have hfour : rows.length = 4 := hrows.length_eq.symm
  simp only [List.length_append, List.length_cons, List.length_nil, hinner, hfour] at hlength
  exact ⟨names, script, rows, n, _, hn, hs, rfl, hsource, line, inner, later, hsplit, hinner,
    by omega, hencloses⟩

end Program

end BlockScript
