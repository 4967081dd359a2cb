import BlockScript.Proofs.Conversion.Wording

/-!
# Each line is read as what its block means

The line of a block whose parameters are of the sorts that their inputs ask for is
read back as one statement, with the parameters of the block in it, whatever the
names and however large the numbers.
-/

set_option autoImplicit false

namespace BlockScript

open Script Script.Generate

def Input.Legible (names : List String) (input : Input) (v : Value) : Prop :=
  match input.kind with
  | .name => ∃ x, v = .text x ∧ IsName x
  | .number => ∃ n, v = .int n ∧ IsShort n
  | .choice => ∃ s, v = .text s ∧ s ∈ input.options.getD []
  | .text => ∃ m, v = .text m ∧ if m ∈ names then IsName m else IsQuotable m

def Block.ReadsAs (names : List String) (b : Block) (line : String) : Kind → Prop
  | .start => ∀ number, (Line.ofRaw number line.toList).isSkippable = true
  | .setVar => ∃ x n, b.param "name" = .ok (.text x) ∧ b.param "value" = .ok (.int n) ∧
      classify line = .ok (.simple (.assign x (.number (.int n))))
  | .changeVar => ∃ x n, b.param "name" = .ok (.text x) ∧ b.param "value" = .ok (.int n) ∧
      classify line = .ok (.simple (.increase x (.number (.int n))))
  | .print => ∃ m, b.param "message" = .ok (.text m) ∧
      classify line = .ok (.simple (.print [if m ∈ names then .name m else .text m]))
  | .wait | .move => classify line = .ok (.simple (.trace line))
  | .loop => ∃ n, b.param "times" = .ok (.int n) ∧
      classify line = .ok (.block (.rounds (.number (.int n))) none)
  | .branch => ∃ x s n, b.param "condition_var" = .ok (.text x) ∧
      b.param "operator" = .ok (.text s) ∧ b.param "value" = .ok (.int n) ∧
      classify line = .ok (.block (.test (.name x) s (.number (.int n))) none)
  | .loopUntil => classify line = .ok (.simple (.inert line))

section Lines

variable {names : List String} {b : Block}

/-- Only the line of a print block depends on the variables of the program. -/
theorem lineOf_congr (hk : b.kind? ≠ some .print) (names others : List String) :
    lineOf names b = lineOf others b := by
  unfold lineOf
  cases h : b.kind? with
  | none => rfl
  | some kind =>
    cases kind with
    | print => exact absurd h hk
    | start | wait | move | setVar | changeVar | loop | loopUntil | branch => rfl

/-- A block that says a command, other than to print, has its line and its statement. -/
theorem lineOf_reads {others : List String} {c : Command} {st : Statement}
    (hn : ∀ x ∈ others, IsName x) (hk : b.kind? ≠ some .print) (hs : b.Says c)
    (hp : c.Proper others) (hst : c.statement? = some st) (names : List String) :
    lineOf names b = .ok c.line ∧ classify c.line = .ok st :=
  ⟨(lineOf_congr hk names others).trans (lineOf_eq hs hp), Command.classifyChars_line hn hp hst⟩

theorem lineOf_print_reads {m : String} (hk : b.kind? = some .print)
    (hm : b.param "message" = .ok (.text m)) (h : if m ∈ names then IsName m else IsQuotable m) :
    ∃ line, lineOf names b = .ok line ∧
      classify line = .ok (.simple (.print [if m ∈ names then .name m else .text m])) := by
  by_cases hv : m ∈ names
  · rw [if_pos hv] at h ⊢
    have hs : b.Says (.printName m) := ⟨hk, hm⟩
    have hn : ∀ y ∈ [m], IsName y := List.forall_mem_singleton.2 h
    have hp : (Command.printName m).Proper [m] := List.mem_singleton_self m
    exact ⟨_, lineOf_eq hs hv, Command.classifyChars_line hn hp rfl⟩
  · rw [if_neg hv] at h ⊢
    have hs : b.Says (.printText m) := ⟨hk, hm⟩
    have hn : ∀ y ∈ ([] : List String), IsName y := List.forall_mem_nil _
    have hp : (Command.printText m).Proper [] := ⟨List.not_mem_nil, h⟩
    exact ⟨_, lineOf_eq hs ⟨hv, h⟩, Command.classifyChars_line hn hp rfl⟩

theorem lineOf_loop_reads {n : Int} (hk : b.kind? = some .loop)
    (hn : b.param "times" = .ok (.int n)) (hs : IsShort n) (names : List String) :
    ∃ line, lineOf names b = .ok line ∧
      classify line = .ok (.block (.rounds (.number (.int n))) none) := by
  have ht : displayParam b "times" = .ok (toString n) := displayParam_of_int hn hs
  have hspells : b.Spells .loop fun _ => toString n := List.forall_mem_singleton.2 ht
  refine ⟨_, lineOf_of_spells hk hspells, ?_⟩
  rw [classify, Kind.pattern, Command.toList_surround, Command.toList_integer,
    classifyChars_rounds, Operand.parse_integerText hs]

theorem classifyChars_while (rest : List Char) :
    classifyChars ("while not (".toList ++ rest) =
      .ok (.simple (.inert (String.ofList ("while not (".toList ++ rest)))) := by
  rw [classifyChars_of_no_header rfl rfl]
  rfl

theorem lineOf_loopUntil_reads {texts : String → String} (hk : b.kind? = some .loopUntil)
    (h : b.Spells .loopUntil texts) :
    ∃ line, lineOf names b = .ok line ∧ classify line = .ok (.simple (.inert line)) := by
  refine ⟨_, lineOf_of_spells hk h, ?_⟩
  rw [classify, Kind.pattern, Command.toList_surround, List.append_assoc, classifyChars_while,
    ← List.append_assoc, ← Command.toList_surround, String.ofList_toList]

theorem Input.Legible.exists_show {input : Input} {v : Value} (h : input.Legible names v) :
    ∃ text, input.show v = .ok text := by
  unfold Input.Legible at h
  unfold Input.show
  cases hk : input.kind <;> rw [hk] at h
  case number =>
    obtain ⟨n, rfl, hn⟩ := h
    exact ⟨toString n, showInt_of_isShort hn⟩
  all_goals
    obtain ⟨s, rfl, -⟩ := h
    exact ⟨s, rfl⟩

theorem exists_shown_of_legible {input : Input}
    (h : ∃ v, b.param input.name = .ok v ∧ input.Legible names v) :
    ∃ text, b.shown input = .ok text := by
  obtain ⟨v, hv, hl⟩ := h
  rw [Block.shown, hv]
  exact hl.exists_show

/-- The line of a block is read back as the statement that the block means, whatever
words its names are, whatever the signs of its numbers, and whatever else the text of
its message could be taken for. -/
theorem line_reads_back {kind : Kind} (hk : b.kind? = some kind)
    (h : ∀ input ∈ kind.inputs, ∃ v, b.param input.name = .ok v ∧ input.Legible names v) :
    ∃ line, lineOf names b = .ok line ∧ b.ReadsAs names line kind := by
  cases kind with
  | start =>
    refine ⟨"# Program Start", ?_, fun number => rfl⟩
    rw [lineOf, hk]
  | setVar =>
    obtain ⟨_, hname, x, rfl, hx⟩ := h _ List.mem_cons_self
    obtain ⟨_, hvalue, n, rfl, hn⟩ := h _ (List.mem_cons_of_mem _ List.mem_cons_self)
    have hs : b.Says (.set x n) := ⟨hk, hname, hvalue⟩
    have hp : (Command.set x n).Proper [x] := ⟨List.mem_singleton_self x, hn⟩
    obtain ⟨hline, hread⟩ :=
      lineOf_reads (List.forall_mem_singleton.2 hx) (by simp [hk]) hs hp rfl names
    exact ⟨_, hline, x, n, hname, hvalue, hread⟩
  | changeVar =>
    obtain ⟨_, hname, x, rfl, hx⟩ := h _ List.mem_cons_self
    obtain ⟨_, hvalue, n, rfl, hn⟩ := h _ (List.mem_cons_of_mem _ List.mem_cons_self)
    have hs : b.Says (.change x n) := ⟨hk, hname, hvalue⟩
    have hp : (Command.change x n).Proper [x] := ⟨List.mem_singleton_self x, hn⟩
    obtain ⟨hline, hread⟩ :=
      lineOf_reads (List.forall_mem_singleton.2 hx) (by simp [hk]) hs hp rfl names
    exact ⟨_, hline, x, n, hname, hvalue, hread⟩
  | branch =>
    obtain ⟨_, hsubject, x, rfl, hx⟩ := h _ List.mem_cons_self
    obtain ⟨_, hoperator, s, rfl, ho⟩ := h _ (List.mem_cons_of_mem _ List.mem_cons_self)
    obtain ⟨_, hvalue, n, rfl, hn⟩ :=
      h _ (List.mem_cons_of_mem _ (List.mem_cons_of_mem _ List.mem_cons_self))
    obtain ⟨comparison, -, rfl⟩ := List.mem_map.1 ho
    have hs : b.Says (.branch x comparison n) := ⟨hk, hsubject, hoperator, hvalue⟩
    have hp : (Command.branch x comparison n).Proper [x] := ⟨List.mem_singleton_self x, hn⟩
    obtain ⟨hline, hread⟩ :=
      lineOf_reads (List.forall_mem_singleton.2 hx) (by simp [hk]) hs hp rfl names
    exact ⟨_, hline, x, comparison.symbol, n, hsubject, hoperator, hvalue, hread⟩
  | wait =>
    obtain ⟨_, hseconds, n, rfl, hn⟩ := h _ List.mem_cons_self
    have hs : b.Says (.wait n) := ⟨hk, hseconds⟩
    exact ⟨_, lineOf_reads (List.forall_mem_nil _) (by simp [hk]) hs hn rfl names⟩
  | move =>
    obtain ⟨_, hdirection, d, rfl, hd⟩ := h _ List.mem_cons_self
    have hs : b.Says (.move d) := ⟨hk, hdirection⟩
    exact ⟨_, lineOf_reads (List.forall_mem_nil _) (by simp [hk]) hs hd rfl names⟩
  | print =>
    obtain ⟨_, hmessage, m, rfl, hm⟩ := h _ List.mem_cons_self
    obtain ⟨line, hline, hread⟩ := lineOf_print_reads hk hmessage hm
    exact ⟨line, hline, m, hmessage, hread⟩
  | loop =>
    obtain ⟨_, htimes, n, rfl, hn⟩ := h _ List.mem_cons_self
    obtain ⟨line, hline, hread⟩ := lineOf_loop_reads hk htimes hn names
    exact ⟨line, hline, n, htimes, hread⟩
  | loopUntil =>
    obtain ⟨texts, hspells⟩ := Block.exists_spells fun input hi => exists_shown_of_legible (h input hi)
    exact lineOf_loopUntil_reads hk hspells

end Lines

def keywordTest : Block :=
  ⟨"b1", "if", [("condition_var", .text "for"), ("operator", .text "=="), ("value", .int (-7))],
    none⟩

/-- A test of a variable that is named like a loop. -/
theorem line_reads_back_keyword :
    ∃ line, lineOf ["for"] keywordTest = .ok line ∧
      classify line = .ok (.block (.test (.name "for") "==" (.number (.int (-7)))) none) := by
  have hname : IsName "for" := ⟨by decide, List.all_eq_true.1 rfl, by decide⟩
  have hlegible : ∀ input ∈ Kind.inputs .branch, ∃ v,
      keywordTest.param input.name = .ok v ∧ input.Legible ["for"] v := by
    refine List.forall_mem_cons.2 ⟨⟨_, rfl, "for", rfl, hname⟩, List.forall_mem_cons.2
      ⟨⟨_, rfl, "==", rfl, by decide⟩, List.forall_mem_singleton.2 ⟨_, rfl, -7, rfl, by decide⟩⟩⟩
  obtain ⟨line, hline, x, s, n, hx, hs, hn, hread⟩ := line_reads_back rfl hlegible
  cases hx
  cases hs
  cases hn
  exact ⟨line, hline, hread⟩

end BlockScript
