import BlockScript.Command.Perform
import BlockScript.Proofs.Bindings
import BlockScript.Proofs.Script.Pieces
import BlockScript.Proofs.Script.Sequence
import BlockScript.Proofs.Text.OneLine

/-!
# The entries of an output

Whatever a script prints stands behind a mark of its own, on one line: the text
of a line has no break, numbers and quoted text have none, and variables hold
nothing else. So the entries that tell how a run ended cannot be mistaken for
anything that the script has said, and a tool that looks for them is never
deceived.
-/

set_option autoImplicit false

namespace BlockScript

theorem Text.not_mem_of_mem_splitOn {separator : Char} {cs part : List Char}
    (h : part ∈ splitOn separator cs) : separator ∉ part := by
  induction cs generalizing part with
  | nil => simp_all [splitOn]
  | cons c cs ih =>
    obtain ⟨first, rest, hs⟩ := exists_splitOn separator cs
    by_cases hc : c = separator
    · simp only [splitOn, hc, if_true, List.mem_cons] at h
      rcases h with rfl | h
      · exact List.not_mem_nil
      · exact ih h
    · simp only [splitOn, hc, if_false, hs, List.mem_cons] at h
      rcases h with rfl | h
      · have hf : separator ∉ first := ih (by simp [hs])
        simp [hf, Ne.symm hc]
      · exact ih (by simp [hs, h])

namespace Script

variable {α β : Type}

def OneLine (text : String) : Prop := '\n' ∉ text.toList

instance (text : String) : Decidable (OneLine text) := inferInstanceAs (Decidable (_ ∉ _))

theorem OneLine.append {a b : String} (ha : OneLine a) (hb : OneLine b) : OneLine (a ++ b) := by
  simpa [OneLine] using And.intro ha hb

def Yields (p : α → Prop) : Except Fault α → Prop
  | .ok a => p a
  | .error fault => OneLine fault.message

theorem Yields.bind {p : α → Prop} {q : β → Prop} {x : Except Fault α}
    {next : α → Except Fault β} (h : Yields p x) (hn : ∀ a, p a → Yields q (next a)) :
    Yields q (x >>= next) := by
  cases x with
  | ok a => exact hn a h
  | error fault => exact h

theorem oneLine_tooManyDigits : OneLine Fault.tooManyDigits.message := by decide +kernel

theorem oneLine_integerTooLarge : OneLine Fault.integerTooLarge.message := by decide

theorem oneLine_notNumber {shown : String} (h : OneLine shown) :
    OneLine (Fault.notNumber shown).message := by
  have ha : OneLine "Expected a number, got " := by decide
  have hb : OneLine "." := by decide
  exact (ha.append h).append hb

theorem oneLine_lineFault {fault : LineFault} (h : '\n' ∉ fault.chars) :
    OneLine fault.message := by
  cases fault with
  | unclosedPrint text =>
    have ha : OneLine "Expected ')' to close print call: " := by decide
    exact ha.append h
  | nestedHeader inline =>
    have ha : OneLine "Expected a simple statement after ':', got block header: " := by decide
    exact ha.append h

theorem showInt_yields (n : Int) : Yields OneLine (Number.showInt n) := by
  cases hs : Number.showInt n with
  | ok text => exact Number.not_mem_showInt hs
  | error fault =>
    unfold Number.showInt at hs
    split at hs
    · cases hs
    · cases hs
      exact oneLine_tooManyDigits

theorem display_yields (n : Number) : Yields OneLine n.display := by
  cases n with
  | int n => exact showInt_yields n
  | float x =>
    simp only [Number.display]
    split
    · exact showInt_yields _
    · exact Number.not_mem_write x

theorem addBy_yields (convert : Int → Option Binary64) (m n : Number) :
    Yields (fun _ => True) (m.addBy convert n) := by
  unfold Number.addBy
  split
  · exact True.intro
  · exact True.intro
  · split
    · exact True.intro
    · exact oneLine_integerTooLarge
  · split
    · exact True.intro
    · exact oneLine_integerTooLarge

namespace Datum

def OneLine : Datum → Prop
  | .number _ => True
  | .text s => Script.OneLine s

theorem display_yields {d : Datum} (h : d.OneLine) : Yields Script.OneLine d.display := by
  cases d with
  | number n => exact Script.display_yields n
  | text s => exact h

theorem add_yields {a b : Datum} (ha : a.OneLine) (hb : b.OneLine) :
    Yields OneLine (a.add b) := by
  have hj : Yields OneLine (do
      let left ← a.display
      return .text (left ++ (← b.display))) :=
    (display_yields ha).bind fun left hl => (display_yields hb).bind fun right hr => hl.append hr
  unfold add
  split
  · exact (addBy_yields _ _ _).bind fun _ _ => True.intro
  · exact hj

theorem toNumber_yields (d : Datum) : Yields (fun _ => True) d.toValue.toNumber := by
  cases d with
  | number n => exact True.intro
  | text s =>
    simp only [toValue, Value.toNumber]
    split
    · exact True.intro
    · split
      · exact True.intro
      · exact oneLine_notNumber (Text.not_mem_quoted s)

end Datum

def TidyVars (vars : Bindings String Datum) : Prop := ∀ binding ∈ vars, binding.2.OneLine

def Change.OneLine : Change → Prop
  | .nothing => True
  | .say line => Script.OneLine line
  | .put _ d => d.OneLine

section Statements

variable {vars : Bindings String Datum} (hv : TidyVars vars)

include hv

theorem get?_oneLine {name : String} {d other : Datum} (ho : other.OneLine)
    (h : (vars.get? name).getD other = d) : d.OneLine := by
  cases hg : vars.get? name with
  | none =>
    rw [hg] at h
    exact h ▸ ho
  | some found =>
    obtain ⟨k, hm⟩ := Bindings.exists_of_get? hg
    rw [hg] at h
    exact h ▸ hv _ hm

theorem resolve_oneLine {operand : Operand} (ho : '\n' ∉ operand.chars) :
    (resolve vars operand).OneLine := by
  cases operand with
  | number n => exact True.intro
  | text s => exact ho
  | name name =>
    have hn : (Datum.text name).OneLine := ho
    exact get?_oneLine hv hn rfl

theorem displayAll_yields {args : List Operand} (ha : '\n' ∉ args.flatMap Operand.chars) :
    Yields (fun parts => ∀ part ∈ parts, OneLine part) (displayAll vars args) := by
  induction args with
  | nil => exact fun part hp => absurd hp List.not_mem_nil
  | cons arg args ih =>
    rw [List.flatMap_cons, List.mem_append, not_or] at ha
    rw [displayAll, List.mapM_cons]
    refine (Datum.display_yields (resolve_oneLine hv ha.1)).bind fun first hf => ?_
    refine (ih ha.2).bind fun rest hr => ?_
    exact List.forall_mem_cons.2 ⟨hf, hr⟩

theorem change_yields {statement : Simple} (hs : '\n' ∉ statement.chars) :
    Yields Change.OneLine (statement.change vars) := by
  cases statement with
  | assign name value =>
    rw [Simple.chars, List.mem_append, not_or] at hs
    exact resolve_oneLine hv hs.2
  | increase name value =>
    rw [Simple.chars, List.mem_append, not_or] at hs
    have hz : (Datum.number (.int 0)).OneLine := True.intro
    have hc : ((vars.get? name).getD (.number (.int 0))).OneLine := get?_oneLine hv hz rfl
    exact (Datum.add_yields hc (resolve_oneLine hv hs.2)).bind fun d hd => hd
  | print args =>
    refine (displayAll_yields hv hs).bind fun parts hp => ?_
    exact not_mem_intercalate (by decide) hp
  | trace text =>
    have ha : OneLine "Executing: " := by decide
    exact ha.append hs
  | inert text => exact True.intro

end Statements

def IsSaid (entry : String) : Prop := (∃ line, entry = "> " ++ line) ∧ OneLine entry

structure State.Tidy (s : State) : Prop where
  vars : TidyVars s.vars
  output : ∀ entry ∈ s.output, IsSaid entry

theorem State.Tidy.apply {s : State} (h : s.Tidy) {change : Change} (hc : change.OneLine) :
    (s.apply change).Tidy := by
  cases change with
  | nothing => exact h
  | say line =>
    refine ⟨h.vars, fun entry he => ?_⟩
    rcases Array.mem_push.1 he with he | rfl
    · exact h.output entry he
    · have hm : OneLine "> " := by decide
      exact ⟨⟨line, rfl⟩, hm.append hc⟩
  | put name d =>
    refine ⟨fun binding hb => ?_, h.output⟩
    rcases Bindings.mem_put hb with hb | ⟨hd, -⟩
    · exact h.vars binding hb
    · exact hd ▸ hc

def Stop.Tidy (executed : Nat → Prop) : Stop → Prop
  | .runaway => True
  | .failed line cause => executed line ∧ OneLine cause.message

def Keeps (executed : Nat → Prop) (run : Run α) : Prop := ∀ s : State, s.Tidy →
  match run s with
  | .ok _ s' => s'.Tidy
  | .error stop s' => s'.Tidy ∧ stop.Tidy executed

namespace Keeps

variable {executed : Nat → Prop} {budget : Int}

theorem pure (a : α) : Keeps executed (Pure.pure a) := fun _ h => h

theorem bind {run : Run α} {next : α → Run β} (h : Keeps executed run)
    (hn : ∀ a, Keeps executed (next a)) : Keeps executed (run >>= next) := by
  intro s hs
  have hr := h s hs
  rw [Run.bind_apply]
  cases hx : run s with
  | ok a s' =>
    rw [hx] at hr
    exact hn a s' hr
  | error stop s' =>
    rw [hx] at hr
    exact hr

theorem enter (number : Nat) (text : List Char) : Keeps executed (enter budget number text) := by
  intro s hs
  by_cases hb : budget < (s.steps + 1 : Nat)
  · rw [enter_of_lt hb]
    exact ⟨⟨hs.vars, hs.output⟩, True.intro⟩
  · rw [enter_of_le (Int.not_lt.mp hb)]
    exact ⟨hs.vars, hs.output⟩

theorem runSimple {number : Nat} (hn : executed number) {statement : Simple}
    (hs : '\n' ∉ statement.chars) : Keeps executed (runSimple number statement) := by
  intro s h
  have hc := change_yields h.vars hs
  rw [runSimple_apply]
  cases hx : statement.change s.vars with
  | ok change =>
    rw [hx] at hc
    exact h.apply hc
  | error fault =>
    rw [hx] at hc
    exact ⟨h, hn, hc⟩

theorem roundCount {number : Nat} (hn : executed number) (count : Operand) :
    Keeps executed (roundCount number count) := by
  intro s h
  have hc := Datum.toNumber_yields (resolve s.vars count)
  rw [roundCount_apply]
  cases hx : (resolve s.vars count).toValue.toNumber with
  | ok n => exact h
  | error fault =>
    rw [hx] at hc
    exact ⟨h, hn, hc⟩

theorem runInline {number : Nat} (hn : executed number) {inline : Inline}
    (hi : '\n' ∉ inline.statement.chars) : Keeps executed (runInline budget number inline) := by
  rw [runInline_eq]
  exact bind (enter number _) fun _ => runSimple hn hi

theorem repeatBody {count : Number} {body : Run Unit} (hb : Keeps executed body)
    (fuel finished : Nat) : Keeps executed (repeatBody budget count body fuel finished) := by
  induction fuel generalizing finished with
  | zero =>
    intro s h
    by_cases hc : count.exceeds finished
    · rw [repeatBody_of_used_up hc (Or.inl rfl)]
      exact ⟨h, True.intro⟩
    · rw [repeatBody_of_not_exceeds (by simpa using hc)]
      exact h
  | succ fuel ih =>
    intro s h
    by_cases hc : count.exceeds finished
    · by_cases hs : budget < s.steps
      · rw [repeatBody_of_used_up hc (Or.inr hs)]
        exact ⟨h, True.intro⟩
      · rw [repeatBody_succ hc (Int.not_lt.mp hs)]
        exact bind hb (fun _ => ih (finished + 1)) s h
    · rw [repeatBody_of_not_exceeds (by simpa using hc)]
      exact h

theorem headed {number : Nat} (hn : executed number) (header : Header) (isEmpty : Bool)
    {body : Run Unit} (hb : Keeps executed body) :
    Keeps executed (headed budget number header isEmpty body) := by
  cases header with
  | rounds count =>
    refine bind (roundCount hn count) fun n => ?_
    cases isEmpty with
    | true => exact pure ()
    | false => exact repeatBody hb _ 0
  | test subject operator value =>
    have ht : Keeps executed (testHolds subject operator value) := fun _ h => h
    refine bind ht fun holds => ?_
    cases holds with
    | true => exact hb
    | false => exact pure ()

theorem act {line : Line} (hn : executed line.number) (hl : '\n' ∉ line.text) (rest : List Line)
    {inside : Run Unit} (hi : Keeps executed inside) :
    Keeps executed (act budget line rest inside) := by
  have hm := classifyChars_madeOf line.text
  unfold Script.act
  cases hc : classifyChars line.text with
  | error fault =>
    rw [hc] at hm
    exact fun s h => ⟨h, hn, oneLine_lineFault fun h => hl (hm h)⟩
  | ok statement =>
    rw [hc] at hm
    have hs : '\n' ∉ statement.chars := fun h => hl (hm h)
    cases statement with
    | simple statement => exact runSimple hn hs
    | block header inline =>
      cases inline with
      | some inline =>
        simp only [Statement.chars, Inline.chars, List.mem_append, not_or] at hs
        exact headed hn header false (runInline hn hs.2.2)
      | none => exact headed hn header _ hi

end Keeps

def Lines (executed : Nat → Prop) (lines : List Line) : Prop :=
  ∀ line ∈ lines, '\n' ∉ line.text ∧ (line.isSkippable = false → executed line.number)

theorem runLines_keeps {executed : Nat → Prop} (budget : Int) (floor : Nat) {lines : List Line}
    (hl : Lines executed lines) : Keeps executed (runLines budget floor lines) := by
  induction floor, lines using runLines.induct with
  | case1 floor =>
    rw [runLines]
    exact .pure []
  | case2 floor line rest hs ih =>
    rw [runLines, if_pos hs]
    exact ih fun l hm => hl l (List.mem_cons_of_mem line hm)
  | case3 floor line rest hs hf =>
    rw [runLines, if_neg hs, if_pos hf]
    exact .pure (line :: rest)
  | case4 floor line rest hs hf ih₁ ih₂ ih₃ =>
    have hs' : line.isSkippable = false := by simpa using hs
    obtain ⟨ht, hn⟩ := hl line List.mem_cons_self
    have hrest : Lines executed rest := fun l hm => hl l (List.mem_cons_of_mem line hm)
    have hafter : Lines executed (Line.afterBody line.indent rest) := fun l hm =>
      hrest l ((List.dropWhile_sublist _).subset hm)
    rw [runLines_line budget rest hs' hf]
    refine .bind (.enter line.number line.text) fun _ => ?_
    refine .bind (.act (hn hs') ht rest (.bind (ih₃ hrest) fun _ => .pure ())) fun _ => ?_
    unfold Line.onward
    split
    · exact ih₂ hafter
    · exact ih₁ hrest

def HasStatement (source : String) (number : Nat) : Prop :=
  1 ≤ number ∧ number ≤ lineCount source ∧
    ∃ raw, (rawLines source)[number - 1]? = some raw ∧ (lineOf raw).isSkippable = false

theorem Line.mem_numbered {n : Nat} {raws : List (List Char)} {line : Line}
    (h : line ∈ numbered n raws) : ∃ i raw, raws[i]? = some raw ∧ line = ofRaw (n + i) raw := by
  induction raws generalizing n with
  | nil => cases h
  | cons raw raws ih =>
    rcases List.mem_cons.1 h with rfl | h
    · exact ⟨0, raw, rfl, rfl⟩
    · obtain ⟨i, found, hr, rfl⟩ := ih h
      exact ⟨i + 1, found, hr, by rw [Nat.add_right_comm, Nat.add_assoc]⟩

theorem lines_ofSource (source : String) : Lines (HasStatement source) (Line.ofSource source) := by
  intro line hl
  obtain ⟨i, raw, hr, rfl⟩ := Line.mem_numbered hl
  have hlt : i < lineCount source := (List.getElem?_eq_some_iff.1 hr).1
  refine ⟨fun hb => ?_, fun hs => ⟨by simp [Line.ofRaw], ?_, raw, ?_, hs⟩⟩
  · exact Text.not_mem_of_mem_splitOn (List.mem_of_getElem? hr) (Text.trim_subset raw hb)
  · simp only [Line.ofRaw]
    omega
  · simpa [Line.ofRaw, rawLines] using hr

theorem initial_tidy : initial.Tidy where
  vars binding hb := absurd hb List.not_mem_nil
  output entry he := by
    obtain rfl : entry = startMarker := by simpa [initial] using he
    exact ⟨⟨"Starting execution...", rfl⟩, by decide⟩

theorem run_tidy (budget : Int) (source : String) :
    (run budget source).state.Tidy ∧
      ∀ stop, (run budget source).stop = some stop → stop.Tidy (HasStatement source) := by
  have h := runLines_keeps budget 0 (lines_ofSource source) initial initial_tidy
  rw [run_eq]
  cases hr : runLines budget 0 (Line.ofSource source) initial with
  | ok rest s =>
    rw [hr] at h
    exact ⟨h, nofun⟩
  | error stop s =>
    rw [hr] at h
    refine ⟨h.1, ?_⟩
    rintro _ ⟨⟩
    exact h.2

theorem exists_said (budget : Int) (source : String) :
    ∃ said, (run budget source).state.output.toList = startMarker :: said := by
  have h := (runLines_cutShort (Int.le_refl budget) 0 (Line.ofSource source) initial).1
  rw [run_eq, Result.ending_state]
  obtain ⟨said, hs⟩ := h
  exact ⟨said, hs.symm⟩

theorem oneLine_failureMarker (number : Nat) {cause : Cause} (h : OneLine cause.message) :
    OneLine (failureMarker number cause) := by
  have ha : OneLine "Error on line " := by decide
  have hb : OneLine ": " := by decide
  have hn : OneLine (toString number) := by
    apply Json.Printable.not_mem_break
    intro c hc
    rw [Nat.toString_eq_repr, Nat.toList_repr] at hc
    exact Json.printable_of_isDigit (isDigit_of_mem_digits hc)
  exact ((ha.append hn).append hb).append h

theorem closing_oneLine {ending : Ending} {executed : Nat → Prop}
    (h : ∀ stop, ending.stop = some stop → stop.Tidy executed) :
    ∀ entry ∈ ending.closing, OneLine entry := by
  have hf : OneLine finishMarker := by decide
  intro entry he
  unfold Ending.closing at he
  cases hs : ending.stop with
  | none =>
    rw [hs, List.mem_singleton] at he
    exact he ▸ hf
  | some stop =>
    cases stop with
    | runaway =>
      rw [hs, List.mem_singleton] at he
      rw [he]
      decide
    | failed number cause =>
      simp only [hs, List.mem_cons, List.not_mem_nil, or_false] at he
      rcases he with rfl | rfl
      · exact oneLine_failureMarker number (h _ hs).2
      · exact hf

end Script

theorem Text.after?_append (word rest : List Char) : after? word (word ++ rest) = some rest := by
  induction word with
  | nil => rfl
  | cons c word ih => simp [after?, ih]

namespace Command

open Script

theorem tellsFailure_said (line : String) : tellsFailure ("> " ++ line) = false := by
  have hl : ("> " ++ line).toList = '>' :: ' ' :: line.toList := by simp
  rw [tellsFailure, hl]
  rfl

theorem tellsFailure_failureMarker (number : Nat) (cause : Cause) :
    tellsFailure (failureMarker number cause) = true := by
  have hl : (failureMarker number cause).toList = "Error on line".toList ++
      (' ' :: ((toString number).toList ++ ": ".toList ++ cause.message.toList)) := by
    change ("Error on line " ++ toString number ++ ": " ++ cause.message).toList = _
    simp [String.toList_append]
  have ha := Text.after?_append "Error on line".toList
    (' ' :: ((toString number).toList ++ ": ".toList ++ cause.message.toList))
  rw [tellsFailure, hl, Text.startsWith, Text.startsWith, ha]
  simp

theorem any_tellsFailure (budget : Int) (source : String) :
    (run budget source).output.any tellsFailure = (run budget source).stop.isSome := by
  have hsaid : (run budget source).state.output.toList.any tellsFailure = false := by
    rw [List.any_eq_false]
    intro entry he
    obtain ⟨line, rfl⟩ := ((run_tidy budget source).1.output entry (Array.mem_toList_iff.1 he)).1
    simp [tellsFailure_said]
  have hfinish : tellsFailure finishMarker = false := tellsFailure_said "Execution finished."
  rw [Ending.output, List.any_append, hsaid, Bool.false_or]
  unfold Ending.closing
  cases (run budget source).stop with
  | none => simp [hfinish]
  | some stop =>
    cases stop with
    | runaway => rfl
    | failed number cause =>
      have hf := tellsFailure_failureMarker number cause
      simp only [List.any_cons, Option.isSome_some, Bool.or_eq_true]
      exact Or.inl hf

theorem printOutput_verdict (budget : Int) (source : String) (report : Report) :
    (printOutput (run budget source).output report).2 =
      if (run budget source).stop.isSome then .failed none else .done := by
  rw [printOutput, any_tellsFailure]

/-- The tool that runs a script ends with one if the run failed and with zero if not. -/
theorem runIn_exit {limit : Nat} {args : List String} {folder : Folder} {request : Request}
    {octets : Option (List UInt8)} {budget : Int} {source : String}
    (hr : read args = .ok request) (hv : request.verb = .run)
    (hb : request.settings.maxSteps = some budget) (hf : folder.read request.input = .ok octets)
    (hl : Storage.loadScript request.input octets = .ok source) :
    (runIn limit args folder).ending =
      .exit (if (run budget source).stop.isSome then 1 else 0) := by
  have hp : (perform limit request octets).2 =
      if (run budget source).stop.isSome then .failed none else .done := by
    simp only [perform, hv, hl, hb, runScript, Option.isNone_some, Bool.false_and,
      Bool.false_eq_true, if_false, Option.getD_some]
    exact printOutput_verdict budget source _
  simp only [runIn, hr, hf, conclude, hp]
  cases (run budget source).stop <;> rfl

end Command

namespace Script

/-- The output of a run tells how it ended, and nothing that a script prints can
pass for that. The start marker comes first, and then what the script has said,
each entry behind its mark. Last comes the finish marker, or the entry on a run
that its budget cut off; a line that failed, which is one of the source and not
skipped, is told of just before the finish marker. No entry has a line break. So
the tool, which only looks at the fronts of entries, takes a run for failed exactly
if it was cut off or a line of it failed, and says so by its exit code. -/
theorem output_tells_ending (budget : Int) (source : String) :
    let ending := run budget source
    (∃ said : List String, (∀ entry ∈ said, ∃ line, entry = "> " ++ line) ∧
      match ending.stop with
      | none => ending.output = startMarker :: said ++ [finishMarker]
      | some .runaway => ending.output = startMarker :: said ++
          ["Runtime Error: Infinite loop detected (max steps reached)"]
      | some (.failed number cause) => ending.output = startMarker :: said ++
          [s!"Error on line {number}: {cause.message}", finishMarker] ∧
            HasStatement source number) ∧
    (∀ entry ∈ ending.output, '\n' ∉ entry.toList) ∧
    (∀ report, (Command.printOutput ending.output report).2 =
      if ending.stop.isSome then .failed none else .done) ∧
    (∀ limit args folder request octets, Command.read args = .ok request →
      request.verb = .run → request.settings.maxSteps = some budget →
      folder.read request.input = .ok octets →
      Storage.loadScript request.input octets = .ok source →
      (Command.runIn limit args folder).ending =
        .exit (if ending.stop.isSome then 1 else 0)) := by
  intro ending
  obtain ⟨htidy, hstop⟩ : ending.state.Tidy ∧ _ := run_tidy budget source
  obtain ⟨said, hsaid⟩ : ∃ said, ending.state.output.toList = startMarker :: said :=
    exists_said budget source
  refine ⟨⟨said, ?_, ?_⟩, ?_, Command.printOutput_verdict budget source, ?_⟩
  · intro entry he
    have hm : entry ∈ ending.state.output.toList := hsaid ▸ List.mem_cons_of_mem _ he
    exact (htidy.output entry (Array.mem_toList_iff.1 hm)).1
  · have hclosing : ending.output = startMarker :: said ++ ending.closing := by
      rw [Ending.output, hsaid]
    cases hs : ending.stop with
    | none => simpa [Ending.closing, hs] using hclosing
    | some stop =>
      cases stop with
      | runaway =>
        rw [hclosing, Ending.closing_of_runaway hs]
        rfl
      | failed number cause =>
        refine ⟨?_, (hstop _ hs).1⟩
        simpa [Ending.closing, hs] using hclosing
  · intro entry he
    rcases List.mem_append.1 he with he | he
    · exact (htidy.output entry (Array.mem_toList_iff.1 he)).2
    · exact closing_oneLine hstop entry he
  · intro limit args folder request octets hr hv hb hf hl
    exact Command.runIn_exit hr hv hb hf hl

end Script

end BlockScript
