import BlockScript.Proofs.Conversion.Simulation

/-!
# The opening of a generated script

A generated script starts with a fixed opening and gives every variable of the
program the value zero, one line each. What follows are the lines of the blocks,
so after the opening the script agrees with a program that has bound nothing.
-/

set_option autoImplicit false

namespace BlockScript

open Script Script.Generate

def openingLines (names : List String) : List (List Char) :=
  ["# Generated Python Code".toList, "import time".toList, [], "# Setup".toList,
    "avatar = Avatar()".toList] ++
  (if names.isEmpty then []
    else "# Initialize variables".toList ::
      names.map fun x => (Command.line (.set x 0)).toList) ++ [[]]

def broken (lines : List (List Char)) : List Char := lines.flatMap (· ++ ['\n'])

theorem broken_append (lines more : List (List Char)) :
    broken (lines ++ more) = broken lines ++ broken more := List.flatMap_append

theorem toList_join_lines (lines : List String) :
    (String.join (lines.map (· ++ "\n"))).toList = broken (lines.map String.toList) := by
  simp [broken, String.toList_join, List.flatMap_map]

theorem splitOn_broken {lines : List (List Char)} (h : ∀ line ∈ lines, '\n' ∉ line) :
    Text.splitOn '\n' (broken lines) = lines ++ [[]] := by
  induction lines with
  | nil => rfl
  | cons line lines ih =>
    have hl : broken (line :: lines) = line ++ '\n' :: broken lines := by
      simp [broken]
    rw [hl, Text.splitOn_append (h line List.mem_cons_self),
      ih fun l hm => h l (List.mem_cons_of_mem line hm)]
    rfl

theorem toList_declaration (x : String) :
    (x ++ " = 0\n").toList = (Command.line (.set x 0)).toList ++ ['\n'] := by
  have hz : (toString (0 : Int)).toList = ['0'] := by decide
  rw [Command.line, Command.toList_surround, hz, String.toList_append, List.append_assoc,
    List.append_assoc]
  rfl

theorem toList_declarations (names : List String) :
    (declarations names).toList =
      broken (if names.isEmpty then []
        else "# Initialize variables".toList ::
          names.map fun x => (Command.line (.set x 0)).toList) := by
  unfold declarations
  split
  · rfl
  · rw [String.toList_append, String.toList_join, List.flatMap_map, broken, List.flatMap_cons,
      List.flatMap_map]
    simp only [toList_declaration]
    rfl

theorem toList_script (names lines : List String) :
    (opening ++ declarations names ++ "\n" ++ String.join (lines.map (· ++ "\n"))).toList =
      broken (openingLines names ++ lines.map String.toList) := by
  rw [String.toList_append, String.toList_append, String.toList_append, toList_join_lines,
    toList_declarations, openingLines, broken_append, broken_append, broken_append]
  rfl

theorem unbroken_openingLines {names : List String} (hn : ∀ x ∈ names, '\n' ∉ x.toList) :
    ∀ line ∈ openingLines names, '\n' ∉ line := by
  intro line hl
  simp only [openingLines, List.mem_append] at hl
  rcases hl with (hl | hl) | hl
  · revert line
    decide
  · split at hl
    · cases hl
    · rcases List.mem_cons.1 hl with rfl | hl
      · decide
      · obtain ⟨x, hx, rfl⟩ := List.mem_map.1 hl
        exact Command.not_mem_surround (hn x hx) (by decide) (Command.unbroken_integer 0)
  · rw [List.mem_singleton.1 hl]
    decide

theorem unbroken_opening {names : List String} (hn : ∀ x ∈ names, IsName x) :
    ∀ line ∈ openingLines names, '\n' ∉ line :=
  unbroken_openingLines fun _ hx => Command.not_mem_name hn hx (by decide)

section Declarations

variable {names : List String} {budget : Int}

theorem visible_skipped {raw : List Char} (h : (Line.ofRaw 0 raw).isSkippable = true) (n : Nat)
    (rest : List (List Char)) :
    Line.visible (Line.numbered n (raw :: rest)) = Line.visible (Line.numbered (n + 1) rest) := by
  have hn : (Line.ofRaw n raw).isSkippable = true := h
  exact Line.visible_cons_of_skippable hn _

theorem visible_opening (rest : List (List Char)) :
    Line.visible (Line.numbered 1 (["# Generated Python Code".toList, "import time".toList, [],
        "# Setup".toList, "avatar = Avatar()".toList] ++ rest)) =
      ⟨2, 0, "import time".toList⟩ :: ⟨5, 0, "avatar = Avatar()".toList⟩ ::
        Line.visible (Line.numbered 6 rest) := by
  have hv : Line.visible (Line.numbered 1 ["# Generated Python Code".toList,
      "import time".toList, [], "# Setup".toList, "avatar = Avatar()".toList]) =
      [⟨2, 0, "import time".toList⟩, ⟨5, 0, "avatar = Avatar()".toList⟩] := by decide
  rw [Line.numbered_append, Line.visible_append, hv]
  rfl

/-- The visible lines of a script: two of the opening, the declarations, and the blocks. -/
theorem exists_visible (names : List String) (raws : List (List Char)) :
    ∃ n m, Line.visible (Line.numbered 1 (openingLines names ++ raws ++ [[]])) =
      ⟨2, 0, "import time".toList⟩ :: ⟨5, 0, "avatar = Avatar()".toList⟩ ::
        (Line.visible (Line.numbered n (names.map fun x => (Command.line (.set x 0)).toList)) ++
          Line.visible (Line.numbered m raws)) := by
  have hlast : ∀ m, Line.visible (Line.numbered m (raws ++ [[]])) =
      Line.visible (Line.numbered m raws) := by
    intro m
    rw [Line.numbered_append, Line.visible_append]
    exact List.append_nil _
  rw [openingLines, List.append_assoc, List.append_assoc, List.append_assoc, visible_opening]
  cases hn : names.isEmpty with
  | true =>
    rw [List.isEmpty_iff.1 hn, if_pos rfl, List.nil_append, List.singleton_append,
      visible_skipped (by decide), hlast]
    exact ⟨0, 7, rfl⟩
  | false =>
    rw [if_neg (by decide), List.cons_append, visible_skipped (by decide), Line.numbered_append,
      Line.visible_append, List.singleton_append, visible_skipped (by decide), hlast]
    exact ⟨7, _, rfl⟩

theorem evalAll_simple_line {line : Line} {statement : Simple} {change : Change} {σ : State}
    (hc : classifyChars line.text = .ok (.simple statement))
    (hch : statement.change σ.vars = .ok change) (hl : (σ.steps + 1 : Nat) ≤ budget)
    (rest : List Line) :
    evalAll budget (forest (line :: rest)) σ =
      evalAll budget (forest rest) ((σ.entered line.number line.text).apply change) := by
  have hch' : statement.change (σ.entered line.number line.text).vars = .ok change := hch
  rw [forest, hc, evalAll]
  apply Process.bind_of_ok
  rw [Node.eval, eval_of_entered line hl, Action.eval, Process.ofRun, runSimple_apply, hch']

/-- The declarations give each of their variables the value zero. -/
theorem evalAll_declarations (hn : ∀ x ∈ names, IsName x) (n : Nat) {σ : State}
    (hl : (σ.steps + names.length : Nat) ≤ budget) (more : List Line) :
    ∃ σ', evalAll budget (forest (Line.visible (Line.numbered n
          (names.map fun x => (Command.line (.set x 0)).toList)) ++ more)) σ =
        evalAll budget (forest more) σ' ∧
      σ'.steps = σ.steps + names.length ∧ σ'.output = σ.output ∧
      (∀ x ∈ names, σ'.vars.get? x = some (.number (.int 0))) ∧
      ∀ x, x ∉ names → σ'.vars.get? x = σ.vars.get? x := by
  induction names generalizing n σ with
  | nil =>
    exact ⟨σ, rfl, rfl, rfl, fun x hx => absurd hx List.not_mem_nil, fun x _ => rfl⟩
  | cons x names ih =>
    have hx : IsName x := hn x List.mem_cons_self
    have hp : (Command.set x 0).Proper (x :: names) := ⟨List.mem_cons_self, by decide⟩
    have hline : Line.ofRaw n (Command.line (.set x 0)).toList =
        ⟨n, 0, (Command.line (.set x 0)).toList⟩ := ofRaw_indented (Command.tight_line hn hp) n 0
    have hskip := Layout.isSkippable_of_statement hn hp rfl n 0
    have hv : Line.visible (Line.numbered n
        ((x :: names).map fun x => (Command.line (.set x 0)).toList)) =
        ⟨n, 0, (Command.line (.set x 0)).toList⟩ :: Line.visible (Line.numbered (n + 1)
          (names.map fun x => (Command.line (.set x 0)).toList)) := by
      rw [List.map_cons, Line.numbered, hline]
      exact Line.visible_cons hskip _
    have hc := Command.classifyChars_line hn hp rfl
    rw [List.length_cons] at hl ⊢
    rw [hv, List.cons_append, evalAll_simple_line hc rfl (by omega)]
    obtain ⟨σ', he, hs, ho, hz, hk⟩ := ih (fun y hy => hn y (List.mem_cons_of_mem x hy)) (n + 1)
      (σ := (σ.entered n (Command.line (.set x 0)).toList).apply (.put x (.number (.int 0))))
      (by change ((σ.steps + 1 + names.length : Nat) : Int) ≤ budget; omega)
    have hput : ∀ y, ((σ.entered n (Command.line (.set x 0)).toList).apply
        (.put x (.number (.int 0)))).vars.get? y =
        if y = x then some (.number (.int 0)) else σ.vars.get? y :=
      fun y => get?_put_string σ.vars x y _
    refine ⟨σ', he, ?_, ho, ?_, ?_⟩
    · rw [hs]
      change σ.steps + 1 + names.length = _
      omega
    · intro y hy
      by_cases hm : y ∈ names
      · exact hz y hm
      · rw [hk y hm, hput, if_pos ((List.mem_cons.1 hy).resolve_right hm)]
    · intro y hy
      rw [List.mem_cons, not_or] at hy
      rw [hk y hy.2, hput, if_neg hy.1]

/-- After its opening a script agrees with a program that has bound nothing. -/
theorem evalAll_opening (hn : ∀ x ∈ names, IsName x)
    (hl : ((2 + names.length : Nat) : Int) ≤ budget) (raws : List (List Char)) :
    ∃ σ m, evalAll budget (forest (Line.visible (Line.numbered 1
          (openingLines names ++ raws ++ [[]])))) initial =
        evalAll budget (forest (Line.visible (Line.numbered m raws))) σ ∧
      Agrees names .empty σ ∧ σ.steps = 2 + names.length ∧
      σ.output.toList = [startMarker] := by
  obtain ⟨n, m, hv⟩ := exists_visible names raws
  have hi : classifyChars "import time".toList = .ok (.simple (.inert "import time")) := by
    rw [classifyChars_of_no_header rfl rfl]
    rfl
  have hw : IsWord "avatar".toList := ⟨by decide, List.all_eq_true.1 rfl⟩
  have ht : Text.Tight "Avatar()".toList := by decide
  have hx : IsExpression "Avatar()".toList := ⟨ht.ne_nil, ht.first, by decide⟩
  have ha : classifyChars "avatar = Avatar()".toList =
      .ok (.simple (.assign "avatar" (.parse "Avatar()".toList))) := classifyChars_assign hw hx
  let σ₁ := (initial.entered 2 "import time".toList).apply .nothing
  let σ₂ := (σ₁.entered 5 "avatar = Avatar()".toList).apply
    (.put "avatar" (resolve σ₁.vars (.parse "Avatar()".toList)))
  have hl₁ : ((initial.steps + 1 : Nat) : Int) ≤ budget := by
    change ((0 + 1 : Nat) : Int) ≤ budget
    omega
  have hl₂ : ((σ₁.steps + 1 : Nat) : Int) ≤ budget := by
    change ((0 + 1 + 1 : Nat) : Int) ≤ budget
    omega
  have hl₃ : ((σ₂.steps + names.length : Nat) : Int) ≤ budget := hl
  obtain ⟨σ, he, hs, ho, hz, -⟩ := evalAll_declarations hn n hl₃ _
  refine ⟨σ, m, ?_, ⟨hz, nofun⟩, hs, ?_⟩
  · rw [hv, evalAll_simple_line hi rfl hl₁, evalAll_simple_line ha rfl hl₂]
    exact he
  · rw [ho]
    rfl

end Declarations

end BlockScript
