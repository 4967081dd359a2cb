import BlockScript.Proofs.Failure
import BlockScript.Proofs.Script.Reading
import BlockScript.Proofs.Script.Sequence
import BlockScript.Script.Generate

/-!
# Where a block stands in a script

A generated script has one line per block, in the order of a depth first walk,
each indented by the depth of its block. So the line of any block of a program
can be pointed at: it comes after the opening, the declarations and the lines of
the blocks before it, and its number counts all of these.
-/

set_option autoImplicit false

namespace BlockScript

namespace Block

mutual

def levels (depth : Nat) : Block → List (Nat × Block)
  | ⟨id, type, params, none⟩ => [(depth, ⟨id, type, params, none⟩)]
  | ⟨id, type, params, some inner⟩ =>
    (depth, ⟨id, type, params, some inner⟩) :: levelsAll (depth + 1) inner

def levelsAll (depth : Nat) : List Block → List (Nat × Block)
  | [] => []
  | b :: bs => b.levels depth ++ levelsAll depth bs

end

mutual

theorem map_levels (depth : Nat) : ∀ b : Block, (b.levels depth).map Prod.snd = b.walk
  | ⟨id, type, params, none⟩ => rfl
  | ⟨id, type, params, some inner⟩ => by simp [levels, walk, map_levelsAll (depth + 1) inner]

theorem map_levelsAll (depth : Nat) :
    ∀ bs : List Block, (levelsAll depth bs).map Prod.snd = walkAll bs
  | [] => rfl
  | b :: bs => by simp [levelsAll, walkAll, map_levels depth b, map_levelsAll depth bs]

end

end Block

def Program.levels (program : Program) : List (Nat × Block) := Block.levelsAll 0 program

namespace Script.Generate

def lineAt (names : List String) (level : Nat × Block) : Except Fault String := do
  let line ← lineOf names level.2
  return indentation level.1 ++ line

mutual

theorem linesOf_eq (names : List String) (depth : Nat) :
    ∀ b : Block, linesOf names depth b = (b.levels depth).mapM (lineAt names)
  | ⟨id, type, params, none⟩ => by simp [linesOf, Block.levels, lineAt]
  | ⟨id, type, params, some inner⟩ => by
    simp [linesOf, Block.levels, lineAt, linesOfAll_eq names (depth + 1) inner]

theorem linesOfAll_eq (names : List String) (depth : Nat) :
    ∀ bs : List Block, linesOfAll names depth bs = (Block.levelsAll depth bs).mapM (lineAt names)
  | [] => rfl
  | b :: bs => by
    simp [linesOfAll, Block.levelsAll, linesOf_eq names depth b, linesOfAll_eq names depth bs]

end

def textThrough (names lines : List String) : String :=
  opening ++ declarations names ++ "\n" ++ String.join (lines.map (· ++ "\n"))

theorem textThrough_append (names lines more : List String) :
    textThrough names (lines ++ more) =
      textThrough names lines ++ String.join (more.map (· ++ "\n")) := by
  simp [textThrough, String.join_append, String.append_assoc]

theorem exists_textThrough (names lines : List String) :
    ∃ front, textThrough names lines = front ++ "\n" := by
  rcases List.eq_nil_or_concat lines with rfl | ⟨lines, line, rfl⟩
  · exact ⟨opening ++ declarations names, by simp [textThrough]⟩
  · exact ⟨textThrough names lines ++ line, by
      simp [textThrough_append, String.join_cons, String.append_assoc]⟩

end Script.Generate

theorem Except.length_of_mapM {ε α β : Type} {f : α → Except ε β} {xs : List α} {ys : List β}
    (h : xs.mapM f = .ok ys) : ys.length = xs.length := by
  induction xs generalizing ys with
  | nil =>
    cases h
    rfl
  | cons x xs ih =>
    rw [List.mapM_cons] at h
    obtain ⟨y, -, h⟩ := exists_of_bind_eq_ok h
    obtain ⟨ys', hs, h⟩ := exists_of_bind_eq_ok h
    cases h
    simp [ih hs]

namespace Program

open Script.Generate

variable {program : Program} {script : String} {before after : List Block} {b : Block}

theorem toScript_eq_ok (h : program.toScript = .ok script) :
    ∃ names lines, program.variableNames = .ok names ∧
      program.levels.mapM (lineAt names) = .ok lines ∧ script = textThrough names lines := by
  obtain ⟨names, hn, h⟩ := Except.exists_of_bind_eq_ok h
  obtain ⟨lines, hl, h⟩ := Except.exists_of_bind_eq_ok h
  cases h
  exact ⟨names, lines, hn, by rw [levels, ← linesOfAll_eq, hl], rfl⟩

theorem exists_levels (h : program.walk = before ++ b :: after) :
    ∃ earlier depth later, program.levels = earlier ++ (depth, b) :: later ∧
      earlier.length = before.length ∧ later.length = after.length := by
  have hm : program.levels.map Prod.snd = before ++ b :: after := by
    rw [levels, Block.map_levelsAll]
    exact h
  obtain ⟨earlier, rest, hl, rfl, hr⟩ := List.map_eq_append_iff.1 hm
  obtain ⟨⟨depth, b'⟩, later, rfl, rfl, rfl⟩ := List.map_eq_cons_iff.1 hr
  exact ⟨earlier, depth, later, hl, by simp, by simp⟩

theorem exists_placement (hs : program.toScript = .ok script)
    (hw : program.walk = before ++ b :: after) :
    ∃ (names earlier later : List String) (depth : Nat) (line : String),
      program.variableNames = .ok names ∧
      program.levels[before.length]? = some (depth, b) ∧ lineOf names b = .ok line ∧
      earlier.length = before.length ∧ later.length = after.length ∧
      script = textThrough names earlier ++ (indentation depth ++ line) ++ "\n" ++
        String.join (later.map (· ++ "\n")) := by
  obtain ⟨names, lines, hn, hl, rfl⟩ := toScript_eq_ok hs
  obtain ⟨above, depth, below, hlevels, hab, hbe⟩ := exists_levels hw
  rw [hlevels, List.mapM_append] at hl
  obtain ⟨earlier, he, hl⟩ := Except.exists_of_bind_eq_ok hl
  obtain ⟨rest, hr, hl⟩ := Except.exists_of_bind_eq_ok hl
  cases hl
  rw [List.mapM_cons] at hr
  obtain ⟨text, ht, hr⟩ := Except.exists_of_bind_eq_ok hr
  obtain ⟨later, hlater, hr⟩ := Except.exists_of_bind_eq_ok hr
  cases hr
  obtain ⟨line, hline, ht⟩ := Except.exists_of_bind_eq_ok ht
  cases ht
  refine ⟨names, earlier, later, depth, line, hn, ?_, hline,
    (Except.length_of_mapM he).trans hab, (Except.length_of_mapM hlater).trans hbe, ?_⟩
  · simp [hlevels, ← hab]
  · simp [textThrough_append, String.join_cons, String.append_assoc]

end Program

namespace Script

theorem lineCount_break (front : String) : lineCount (front ++ "\n") = lineCount front + 1 := by
  have ht : (front ++ "\n").toList = front.toList ++ '\n' :: [] := String.toList_append
  rw [lineCount, rawLines, ht, Text.splitOn_append_separator, List.length_append]
  rfl

/-- A line that was written after a break is a line of the source, and the text
before it says which. -/
theorem mem_ofSource_of_line (front line rest : String) (hl : '\n' ∉ line.toList) :
    Line.ofRaw (lineCount (front ++ "\n")) line.toList ∈
      Line.ofSource (front ++ "\n" ++ line ++ "\n" ++ rest) := by
  have hone : Line.ofSource line = [Line.ofRaw 1 line.toList] := by
    rw [Line.ofSource, Text.splitOn_of_not_mem hl]
    rfl
  rw [show front ++ "\n" ++ line ++ "\n" ++ rest = front ++ "\n" ++ (line ++ "\n" ++ rest) by
    simp [String.append_assoc], ofSource_append, ofSource_append, hone, lineCount_break]
  simp [Line.shift, Line.ofRaw, Nat.add_comm]

end Script

end BlockScript
