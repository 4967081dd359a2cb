import BlockScript.Proofs.Block.Names
import BlockScript.Proofs.Conversion.Placement

/-!
# Variables are declared before they are used

The name that the line of a block starts from, or tests, is the bare form of one
of the names of the program, so the line comes after an assignment of zero to it.
This is so for every block that is not given nothing as its name. With nothing
for a name, the names of the program have the default in its place, while the
line has the bare form of nothing.
-/

set_option autoImplicit false

namespace BlockScript

open Script.Generate

inductive Kind.Writes (name : String) : Kind → String → Prop
  | target (value : String) : Kind.Writes name .setVar s!"{name} = {value}"
  | changed (value : String) : Kind.Writes name .changeVar s!"{name} += {value}"
  | tested (operator value : String) : Kind.Writes name .branch s!"if {name} {operator} {value}:"
  | awaited (operator value : String) :
      Kind.Writes name .loopUntil s!"while not ({name} {operator} {value}):"

variable {b : Block} {kind : Kind} {input : String} {names : List String}

theorem exists_condition_subject {text : String} (h : conditionText b = .ok text) :
    ∃ name operator value : String, bareParam b "condition_var" = .ok name ∧
      text = s!"{name} {operator} {value}" := by
  obtain ⟨name, hn, h⟩ := Except.exists_of_bind_eq_ok h
  obtain ⟨operator, -, h⟩ := Except.exists_of_bind_eq_ok h
  obtain ⟨value, -, h⟩ := Except.exists_of_bind_eq_ok h
  cases h
  exact ⟨name, operator, value, hn, rfl⟩

/-- The name that a line is written with is the parameter of the block. -/
theorem exists_written (hk : b.kind? = some kind) (hi : kind.nameInput? = some input)
    {line : String} (hl : lineOf names b = .ok line) :
    ∃ name, bareParam b input = .ok name ∧ kind.Writes name line := by
  unfold lineOf at hl
  rw [hk] at hl
  cases kind with
  | setVar =>
    cases hi
    obtain ⟨name, hn, hl⟩ := Except.exists_of_bind_eq_ok hl
    obtain ⟨value, -, hl⟩ := Except.exists_of_bind_eq_ok hl
    cases hl
    exact ⟨name, hn, .target value⟩
  | changeVar =>
    cases hi
    obtain ⟨name, hn, hl⟩ := Except.exists_of_bind_eq_ok hl
    obtain ⟨value, -, hl⟩ := Except.exists_of_bind_eq_ok hl
    cases hl
    exact ⟨name, hn, .changed value⟩
  | branch =>
    cases hi
    obtain ⟨text, ht, hl⟩ := Except.exists_of_bind_eq_ok hl
    obtain ⟨name, operator, value, hn, rfl⟩ := exists_condition_subject ht
    cases hl
    exact ⟨name, hn, .tested operator value⟩
  | loopUntil =>
    cases hi
    obtain ⟨text, ht, hl⟩ := Except.exists_of_bind_eq_ok hl
    obtain ⟨name, operator, value, hn, rfl⟩ := exists_condition_subject ht
    cases hl
    exact ⟨name, hn, .awaited operator value⟩
  | start | loop | print | move | wait => cases hi

theorem mem_variableNames_of_bareParam {program : Program}
    (hv : program.variableNames = .ok names) (hb : b ∈ program.walk) (hk : b.kind? = some kind)
    (hi : kind.nameInput? = some input) (hn : Bindings.get? b.params input ≠ some .null)
    {name : String} (hname : bareParam b input = .ok name) : name ∈ names := by
  obtain ⟨v, hp, hbare⟩ := Except.exists_of_bind_eq_ok hname
  exact (Program.mem_variableNames hv name).2
    ⟨b, hb, v, Program.variableName?_eq_param hk hi hn hp, hbare⟩

theorem exists_declaration {name : String} (h : name ∈ names) :
    ∃ declared more, declarations names =
      "# Initialize variables\n" ++ declared ++ (name ++ " = 0\n") ++ more := by
  obtain ⟨before, after, rfl⟩ := List.append_of_mem h
  refine ⟨String.join (before.map (· ++ " = 0\n")), String.join (after.map (· ++ " = 0\n")), ?_⟩
  simp [declarations, String.join_append, String.join_cons, String.append_assoc]

theorem classifyChars_declaration {name : String} (h : Script.IsWord name.toList) :
    Script.classifyChars (name ++ " = 0").toList =
      .ok (.simple (.assign name (.number (.int 0)))) := by
  have hz : integerText 0 = ['0'] := by decide
  have hp : Script.Operand.parse ['0'] = .number (.int 0) := by decide
  have hc := Script.classifyChars_assign h (Script.isExpression_integerText 0)
  rw [hz, hp, String.ofList_toList] at hc
  simpa [String.toList_append] using hc

/-- The name in the line of a block is a name of the program, and it is given
the value zero before the lines of the blocks begin. -/
theorem declared_before_use {program : Program} {script : String} {before after : List Block}
    (hs : program.toScript = .ok script) (hw : program.walk = before ++ b :: after)
    (hk : b.kind? = some kind) (hi : kind.nameInput? = some input)
    (hn : Bindings.get? b.params input ≠ some .null) :
    ∃ (names : List String) (name line : String), program.variableNames = .ok names ∧
      name ∈ names ∧ lineOf names b = .ok line ∧ kind.Writes name line ∧
      (Script.IsWord name.toList → Script.classifyChars (name ++ " = 0").toList =
        .ok (.simple (.assign name (.number (.int 0))))) ∧
      ∃ (declared more : String) (earlier later : List String) (depth : Nat),
        earlier.length = before.length ∧ later.length = after.length ∧
        script = opening ++ "# Initialize variables\n" ++ declared ++ (name ++ " = 0\n") ++ more ++
          "\n" ++ String.join (earlier.map (· ++ "\n")) ++ (indentation depth ++ line ++ "\n") ++
          String.join (later.map (· ++ "\n")) := by
  obtain ⟨names, earlier, later, depth, line, hv, -, hl, he, hlater, rfl⟩ :=
    Program.exists_placement hs hw
  have hb : b ∈ program.walk := by simp [hw]
  obtain ⟨name, hname, hwrites⟩ := exists_written hk hi hl
  have hm : name ∈ names := mem_variableNames_of_bareParam hv hb hk hi hn hname
  obtain ⟨declared, more, hd⟩ := exists_declaration hm
  refine ⟨names, name, line, hv, hm, hl, hwrites, classifyChars_declaration, declared,
    more, earlier, later, depth, he, hlater, ?_⟩
  simp [textThrough, hd, String.append_assoc]

/-- A test inside a loop that is given no name is about the default one. -/
theorem declared_before_use_default :
    let test : Block := ⟨"q", "if", [("operator", .text "=")], some []⟩
    let program : Program := [⟨"p", "print", [], none⟩, ⟨"r", "repeat", [], some [test]⟩]
    program.toScript = .ok (opening ++ "# Initialize variables\nscore = 0\n\n" ++
        "print(\"Hello!\")\nfor i in range(3):\n    if score = 10:\n") ∧
      ∃ names, program.variableNames = .ok names ∧ "score" ∈ names ∧
        lineOf names test = .ok "if score = 10:" ∧ Kind.branch.Writes "score" "if score = 10:" := by
  intro test program
  have hs : program.toScript = .ok (opening ++ "# Initialize variables\nscore = 0\n\n" ++
      "print(\"Hello!\")\nfor i in range(3):\n    if score = 10:\n") := rfl
  have hw : program.walk = [⟨"p", "print", [], none⟩, ⟨"r", "repeat", [], some [test]⟩] ++
      test :: [] := rfl
  have hk : test.kind? = some .branch := rfl
  obtain ⟨names, name, line, hv, hm, hl, hwrites, -⟩ :=
    declared_before_use hs hw hk rfl (by simp [test, Bindings.get?])
  cases (show .ok ["score"] = Except.ok names from hv)
  obtain rfl := List.mem_singleton.1 hm
  cases (show .ok "if score = 10:" = Except.ok line from hl)
  exact ⟨hs, ["score"], hv, hm, hl, hwrites⟩

/-- A block that is given nothing as its name counts as one without a name, so
the default is declared, but its line assigns to the bare form of nothing. -/
theorem undeclared_null_name :
    let block : Block := ⟨"a", "set_var", [("name", .null), ("value", .int 5)], none⟩
    Program.toScript [block] = .ok (opening ++ "# Initialize variables\nscore = 0\n\nNone = 5\n") ∧
      Program.variableNames [block] = .ok ["score"] ∧
      lineOf ["score"] block = .ok "None = 5" ∧ "None" ∉ ["score"] := by
  intro block
  refine ⟨rfl, rfl, rfl, by decide⟩

end BlockScript
