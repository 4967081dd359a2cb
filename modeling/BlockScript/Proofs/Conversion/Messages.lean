import BlockScript.Proofs.Conversion.Command
import BlockScript.Proofs.Conversion.Layout
import BlockScript.Proofs.Conversion.Placement
import BlockScript.Proofs.Engine.Bound
import BlockScript.Proofs.Script.Trail

/-!
# Printed text in a generated script

A message that is neither a name of the program nor number text is quoted in the
script, and the line with it puts out the message as the block does: whatever
quotes, blanks, brackets or marks are in it, wherever the line stands, and
however often it is executed. Only two characters are not safe in a message. A
comma parts the arguments of a print call also between quotes, and a line break
ends the line.
-/

set_option autoImplicit false

namespace BlockScript

open Script Script.Generate

theorem Script.Line.eq_of_number {source : String} {line other : Line}
    (hl : line ∈ Line.ofSource source) (ho : other ∈ Line.ofSource source)
    (h : line.number = other.number) : line = other := by
  obtain ⟨i, raw, hr, rfl⟩ := Line.mem_numbered hl
  obtain ⟨j, raw', hr', rfl⟩ := Line.mem_numbered ho
  obtain rfl : i = j := Nat.add_left_cancel h
  obtain rfl : raw = raw' := Option.some.inj (hr.symm.trans hr')
  rfl

def Script.State.told (s : State) (entry : Nat × String) (line : String) : State :=
  { s with
    output := s.output.push ("> " ++ line)
    visited := s.visited.push entry }

variable {m : String}

def messageLine (m : String) : String := Command.line (.printText m)

theorem proper_message (hq : IsQuotable m) : Command.Proper [] (.printText m) :=
  ⟨List.not_mem_nil, hq⟩

theorem classifyChars_message (hq : IsQuotable m) :
    classifyChars (messageLine m).toList = .ok (.simple (.print [.text m])) :=
  Command.classifyChars_line (fun _ h => absurd h List.not_mem_nil) (proper_message hq) rfl

theorem Script.State.follow_message (hq : IsQuotable m) (s : State) (number : Nat) :
    s.follow (number, messageLine m) = s.told (number, messageLine m) m := by
  have hc : changeOf s.vars (messageLine m).toList = .say m := by
    rw [changeOf_simple (classifyChars_message hq)]
    rfl
  rw [follow, hc]
  rfl

theorem eq_of_leaves_message (hq : IsQuotable m) {line : Line} {entry : Nat × String}
    (ht : line.text = (messageLine m).toList) (h : line.Leaves entry) :
    entry = (line.number, messageLine m) := by
  obtain ⟨hn, htext | ⟨header, inline, hc, -⟩⟩ := h
  · rw [ht, String.ofList_toList] at htext
    exact Prod.ext hn htext
  · rw [ht, classifyChars_message hq] at hc
    cases hc

/-- Each time that a run executes the line, this comes to one more entry of the output. -/
theorem Script.run_message (hq : IsQuotable m) {source : String} {line : Line}
    (hl : line ∈ Line.ofSource source) (ht : line.text = (messageLine m).toList) (budget : Int)
    {trail more : List (Nat × String)} {entry : Nat × String}
    (hv : (run budget source).state.visited.toList = trail ++ entry :: more)
    (he : entry.1 = line.number) :
    initial.replay (trail ++ [entry]) = (initial.replay trail).told entry m ∧
      ∃ said, (run budget source).state.output.toList =
        (initial.replay trail).output.toList ++ ("> " ++ m) :: said := by
  obtain ⟨hreplay, hleaves⟩ := run_replays budget source
  obtain ⟨other, ho, hleft⟩ := hleaves entry (by simp [← Array.mem_toList_iff, hv])
  obtain rfl : other = line := Line.eq_of_number ho hl (hleft.1.symm.trans he)
  obtain rfl := eq_of_leaves_message hq ht hleft
  have hone : initial.replay (trail ++ [(other.number, messageLine m)]) =
      (initial.replay trail).told (other.number, messageLine m) m := by
    rw [State.replay_append]
    exact State.follow_message hq (initial.replay trail) other.number
  refine ⟨hone, ?_⟩
  obtain ⟨said, hsaid⟩ :=
    (initial.replay (trail ++ [(other.number, messageLine m)])).exists_output_replay more
  refine ⟨said, ?_⟩
  have hout : (run budget source).state.output = (initial.replay (trail ++
      (other.number, messageLine m) :: more)).output := by
    rw [← hv, ← hreplay]
    rfl
  rw [hout, List.append_cons, State.replay_append, hsaid, hone]
  simp [State.told]

theorem Engine.step_message {program : Program} {names : List String}
    (hv : program.variableNames = .ok names) {b : Block} (hk : b.kind? = some .print)
    (hm : b.param "message" = .ok (.text m)) (hn : m ∉ names) (n : Nat) {frame : Frame}
    {below : List Frame} (ha : (runFor n (start program)).isTerminal = false)
    (hs : settle (runFor n (start program)).store.vars (runFor n (start program)).stack =
      some (b, frame, below)) :
    (runFor n (start program)).step.store =
      (runFor n (start program)).store.apply (.say m) := by
  have hg := get?_runFor_of_not_mem n hv hn
  have he : b.effect (runFor n (start program)).store.vars = .ok (.say m) := by
    simp only [Block.effect, hk, Block.effectOf, hm, Except.ok_bind, Block.messageText, hg]
    rfl
  rw [step_of_effect ha hs he]

/-- The line of a block is a line of the script of its program, under a number
that counts all that is written before it. -/
theorem Program.exists_message_line {program : Program} {script : String} {names : List String}
    {before after : List Block} {b : Block} (hs : program.toScript = .ok script)
    (hv : program.variableNames = .ok names) (hw : program.walk = before ++ b :: after)
    (hk : b.kind? = some .print) (hm : b.param "message" = .ok (.text m)) (hn : m ∉ names)
    (hq : IsQuotable m) :
    ∃ (earlier : List String) (depth : Nat) (rest : String),
      earlier.length = before.length ∧
      script = textThrough names earlier ++ (indentation depth ++ messageLine m) ++ rest ∧
      ⟨lineCount (textThrough names earlier), 4 * depth, (messageLine m).toList⟩ ∈
        Line.ofSource script := by
  obtain ⟨names', earlier, later, depth, line, hv', -, hl, he, -, rfl⟩ := exists_placement hs hw
  obtain rfl : names = names' := Except.ok.inj (hv.symm.trans hv')
  have hproper : Command.Proper names (.printText m) := ⟨hn, hq⟩
  have hsays : b.Says (.printText m) := ⟨hk, hm⟩
  obtain rfl : messageLine m = line := Except.ok.inj ((lineOf_eq hsays hproper).symm.trans hl)
  refine ⟨earlier, depth, "\n" ++ String.join (later.map (· ++ "\n")), he,
    by simp [String.append_assoc], ?_⟩
  obtain ⟨front, hfront⟩ := exists_textThrough names earlier
  have hnone : ∀ x ∈ ([] : List String), IsName x := fun _ h => absurd h List.not_mem_nil
  have htight := Command.tight_line hnone (proper_message hq)
  have hbreak := Layout.unbroken_indented hnone (proper_message hq) depth
  rw [← toList_indented] at hbreak
  have hmem := mem_ofSource_of_line front (indentation depth ++ messageLine m)
    (String.join (later.map (· ++ "\n"))) hbreak
  rwa [toList_indented, messageLine, ofRaw_indented htight, ← hfront] at hmem

/-- Printed text survives conversion. The line of a block whose message is text,
is not a name of the program and is not number text, and has neither a comma nor
a line break in it, puts out the message each time a run of the script executes
it, and changes nothing else. The block does the same at every point of a run. -/
theorem printed_text_survives {program : Program} {script : String} {names : List String}
    {before after : List Block} {b : Block} (hs : program.toScript = .ok script)
    (hv : program.variableNames = .ok names) (hw : program.walk = before ++ b :: after)
    (hk : b.kind? = some .print) (hm : b.param "message" = .ok (.text m)) (hn : m ∉ names)
    (hnumber : isNumberText m = false) (hcomma : ',' ∉ m.toList) (hbreak : '\n' ∉ m.toList) :
    (∃ (earlier : List String) (depth : Nat) (rest : String) (line : Line),
      earlier.length = before.length ∧
      script = textThrough names earlier ++ (indentation depth ++ messageLine m) ++ rest ∧
      line ∈ Line.ofSource script ∧ line.number = lineCount (textThrough names earlier) ∧
      line.text = (messageLine m).toList ∧
      ∀ budget : Int, let s := (run budget script).state
        s.unclocked = initial.replay s.visited.toList ∧
        ∀ trail entry more, s.visited.toList = trail ++ entry :: more →
          entry.1 = line.number →
          initial.replay (trail ++ [entry]) = (initial.replay trail).told entry m ∧
            ∃ said, s.output.toList =
              (initial.replay trail).output.toList ++ ("> " ++ m) :: said) ∧
    (∀ (n : Nat) (frame : Frame) (below : List Frame),
      let e := Engine.runFor n (Engine.start program)
      e.isTerminal = false → settle e.store.vars e.stack = some (b, frame, below) →
      e.step.store.vars = e.store.vars ∧
        e.step.store.console = e.store.console.push ("> " ++ m)) := by
  have hq : IsQuotable m := ⟨hnumber, hcomma, hbreak⟩
  constructor
  · obtain ⟨earlier, depth, rest, he, hscript, hl⟩ :=
      Program.exists_message_line hs hv hw hk hm hn hq
    refine ⟨earlier, depth, rest, _, he, hscript, hl, rfl, rfl, fun budget => ?_⟩
    exact ⟨(run_replays budget script).1,
      fun trail entry more hvisited hentry => run_message hq hl rfl budget hvisited hentry⟩
  · intro n frame below e ha hnext
    have hstore : e.step.store = e.store.apply (.say m) :=
      Engine.step_message hv hk hm hn n ha hnext
    rw [hstore]
    exact ⟨rfl, rfl⟩

/-- A message with quotes of both kinds, brackets, a comment mark and blanks at its
ends, in a loop of two rounds. Its line is the seventh. -/
theorem printed_text_survives_quotes :
    let m := " it's \"(#1)\" "
    let b : Block := ⟨"p", "print", [("message", .text m)], none⟩
    let program : Program := [⟨"r", "repeat", [("times", .int 2)], some [b]⟩]
    let script := opening ++ "\nfor i in range(2):\n    print(' it's \"(#1)\" ')\n"
    program.toScript = .ok script ∧ program.variableNames = .ok [] ∧
      (run 100 script).output = [startMarker, "> " ++ m, "> " ++ m, finishMarker] ∧
      (∃ line ∈ Line.ofSource script, line.text = (messageLine m).toList ∧
        ∀ budget trail entry more,
          (run budget script).state.visited.toList = trail ++ entry :: more →
          entry.1 = line.number →
          initial.replay (trail ++ [entry]) = (initial.replay trail).told entry m) ∧
      (Engine.runFor 1 (Engine.start program)).step.store.console = #["> " ++ m] := by
  intro m b program script
  have hs : program.toScript = .ok script := by decide +kernel
  have hv : program.variableNames = .ok [] := rfl
  have hw : program.walk = [⟨"r", "repeat", [("times", .int 2)], some [b]⟩] ++ b :: [] := rfl
  obtain ⟨⟨_, _, _, line, -, -, hl, -, ht, hrun⟩, hengine⟩ :=
    printed_text_survives hs hv hw rfl (m := m) rfl List.not_mem_nil (by decide) (by decide)
      (by decide)
  refine ⟨hs, hv, by decide +kernel, ⟨line, hl, ht, ?_⟩, ?_⟩
  · intro budget trail entry more hvisited hentry
    exact ((hrun budget).2 trail entry more hvisited hentry).1
  · exact (hengine 1 _ _ rfl rfl).2

/-- A comma in a message parts it in two arguments, which keep a quote each and are
joined by a blank. A line break parts the line, and the call is left open. The
blocks print both messages as they are. -/
theorem printed_text_lost_at_comma_or_break :
    let comma : Program := [⟨"p", "print", [("message", .text "Hello, world")], none⟩]
    let broken : Program := [⟨"p", "print", [("message", .text "one\ntwo")], none⟩]
    let commaScript := opening ++ "\nprint(\"Hello, world\")\n"
    let brokenScript := opening ++ "\nprint(\"one\ntwo\")\n"
    comma.validate = .ok () ∧ comma.variableNames = .ok [] ∧
      isNumberText "Hello, world" = false ∧ comma.toScript = .ok commaScript ∧
      (run 2000 commaScript).output = [startMarker, "> \"Hello world\"", finishMarker] ∧
      (Engine.runFor 1 (Engine.start comma)).store.console = #["> Hello, world"] ∧
    broken.validate = .ok () ∧ broken.variableNames = .ok [] ∧
      isNumberText "one\ntwo" = false ∧ broken.toScript = .ok brokenScript ∧
      (run 2000 brokenScript).output = [startMarker,
        "Error on line 7: Expected ')' to close print call: print(\"one", finishMarker] ∧
      (Engine.runFor 1 (Engine.start broken)).store.console = #["> one\ntwo"] := by
  intro comma broken commaScript brokenScript
  exact ⟨rfl, rfl, by decide, by decide +kernel, by decide +kernel, rfl, rfl, rfl, by decide,
    by decide +kernel, by decide +kernel, rfl⟩

end BlockScript
