import BlockScript.Proofs.Script.Trail

/-!
# Where a body ends

There are two ways to find the end of the body of a line. One looks at the lines
after it, one by one, for the first that is not skipped and not indented further. The
other executes the body, jumping over the bodies of the headers in it, and stops where
there is nothing more to execute. No body inside reaches past the end of the one
around it, however unevenly lines are indented, so both come to the same place. A
header then goes on at that place, whether or how often its body was executed.
-/

set_option autoImplicit false

namespace BlockScript.Script

namespace Line

/-- The first place, from a given one on, of a line outside the body of a line of the
given indentation, or the end of the lines. -/
def bodyEnd (lines : List Line) (indent place : Nat) : Nat :=
  if h : place < lines.length then
    if isWithin indent lines[place] then bodyEnd lines indent (place + 1) else place
  else place
termination_by lines.length - place

theorem bodyEnd_eq (lines : List Line) (indent place : Nat) :
    bodyEnd lines indent place =
      place + ((lines.drop place).takeWhile (isWithin indent)).length := by
  fun_induction bodyEnd lines indent place with
  | case1 place h hw ih =>
    rw [ih, List.drop_eq_getElem_cons h, List.takeWhile_cons_of_pos hw, List.length_cons]
    omega
  | case2 place h hw =>
    rw [List.drop_eq_getElem_cons h, List.takeWhile_cons_of_neg hw, List.length_nil, Nat.add_zero]
  | case3 place h =>
    rw [List.drop_eq_nil_of_le (Nat.not_lt.mp h), List.takeWhile_nil, List.length_nil,
      Nat.add_zero]

theorem bodyEnd_le {lines : List Line} {place : Nat} (h : place ≤ lines.length) (indent : Nat) :
    bodyEnd lines indent place ≤ lines.length := by
  have hl := (List.takeWhile_sublist (isWithin indent) (l := lines.drop place)).length_le
  rw [List.length_drop] at hl
  rw [bodyEnd_eq]
  omega

/-- What is left from the place where a body ends is what follows the body. -/
theorem drop_bodyEnd (lines : List Line) (indent place : Nat) :
    lines.drop (bodyEnd lines indent place) = afterBody indent (lines.drop place) := by
  rw [bodyEnd_eq, ← List.drop_drop]
  conv =>
    lhs
    arg 2
    rw [← List.takeWhile_append_dropWhile (p := isWithin indent) (l := lines.drop place)]
  rw [List.drop_left]
  rfl

theorem getElem?_numbered (n : Nat) (raws : List (List Char)) (i : Nat) :
    (numbered n raws)[i]? = raws[i]?.map (ofRaw (n + i)) := by
  induction raws generalizing n i with
  | nil => rfl
  | cons raw raws ih =>
    cases i with
    | zero => rfl
    | succ i =>
      rw [numbered, List.getElem?_cons_succ, ih, List.getElem?_cons_succ, Nat.add_right_comm,
        Nat.add_assoc]

theorem number_of_mem_body {raws : List (List Char)} {indent place : Nat} {line : Line}
    (h : line ∈ ((numbered 1 raws).drop place).takeWhile (isWithin indent)) :
    place < line.number ∧ line.number ≤ bodyEnd (numbered 1 raws) indent place := by
  obtain ⟨j, hj, hl⟩ := List.mem_iff_getElem.1 h
  have hline : (numbered 1 raws)[place + j]? = some line := by
    rw [← List.getElem?_drop, ← hl, ← List.getElem?_eq_getElem hj]
    obtain ⟨after, ha⟩ :=
      List.takeWhile_prefix (l := (numbered 1 raws).drop place) (isWithin indent)
    conv_lhs => rw [← ha]
    exact List.getElem?_append_left hj
  rw [getElem?_numbered] at hline
  obtain ⟨raw, -, rfl⟩ := Option.map_eq_some_iff.1 hline
  rw [bodyEnd_eq]
  simp only [ofRaw]
  omega

end Line

/-- Lines are executed up to the first that does not belong to them, as if there were
no lines from there on. -/
theorem runLines_eq (budget : Int) (floor : Nat) (lines : List Line) :
    runLines budget floor lines = (do
      runAll budget (lines.takeWhile (Line.belongs floor))
      pure (lines.dropWhile (Line.belongs floor))) := by
  have h : Process.lines id budget floor lines = Process.ofRun (do
      runAll budget (lines.takeWhile (Line.belongs floor))
      pure (lines.dropWhile (Line.belongs floor))) := by
    rw [lines_eq_evalAll, evalAll_forest, Process.ofRun_bind]
    rfl
  funext s
  have hs := Process.lines_eq id budget floor lines s
  rw [h] at hs
  exact (Option.some.inj hs).symm

theorem eq_afterBody_of_runLines {budget : Int} {indent : Nat} {rest after : List Line}
    {s s' : State} (h : runLines budget (indent + 1) rest s = .ok after s') :
    after = Line.afterBody indent rest := by
  rw [runLines_eq, Run.bind_apply] at h
  split at h
  · cases h
    rfl
  · cases h

/-- However the execution of lines ends, it has entered only lines that belong to them. -/
theorem exists_trail {p : Nat × String → Prop} {floor : Nat} {lines : List Line}
    (h : ∀ line ∈ lines.takeWhile (Line.belongs floor), ∀ entry, line.Leaves entry → p entry)
    (budget : Int) (s : State) :
    ∃ trail, (Result.state (runLines budget floor lines s)).visited.toList =
      s.visited.toList ++ trail ∧ ∀ entry ∈ trail, p entry := by
  have hreplays : Replays p s (runLines budget floor lines s) := by
    rw [runLines_eq, runAll, bind_assoc]
    exact .bind (runLines_replays budget 0 h s) fun _ _ => .same rfl
  obtain ⟨trail, ht, he⟩ := hreplays
  have hv := congrArg (fun s => s.visited.toList) he
  rw [State.visited_replay] at hv
  exact ⟨trail, hv, ht⟩

section Places

variable {α : Type}

def repeatTo (budget : Int) (count : Number) (body : Run α) : Nat → Nat → α → Run α
  | fuel, finished, place =>
    if count.exceeds finished then
      match fuel with
      | 0 => throw .runaway
      | fuel + 1 => do
        if budget < (← get).steps then throw .runaway
        let place ← body
        repeatTo budget count body fuel (finished + 1) place
    else pure place

def headedTo (budget : Int) (number : Nat) (header : Header) (isEmpty : Bool) (body : Run α)
    (place : α) : Run α :=
  match header with
  | .rounds count => do
    let count ← roundCount number count
    if isEmpty then pure place else repeatTo budget count body (budget.toNat + 1) 0 place
  | .test subject operator value => do
    if ← testHolds subject operator value then body else pure place

variable {budget : Int} (body : Run Unit) (place : α)

/-- If a body ends at one place whenever it ends, so do its rounds, however many. -/
theorem repeatTo_eq (count : Number) (fuel finished : Nat) :
    repeatTo budget count (do body; pure place) fuel finished place = (do
      repeatBody budget count body fuel finished
      pure place) := by
  induction fuel generalizing finished with
  | zero =>
    rw [repeatTo, repeatBody]
    split <;> rfl
  | succ fuel ih =>
    rw [repeatTo, repeatBody]
    split
    · simp only [bind_assoc, pure_bind, ih]
      refine congrArg (get >>= ·) (funext fun s => ?_)
      split
      · rfl
      · simp only [bind_assoc]
    · rfl

theorem headedTo_eq (number : Nat) (header : Header) (isEmpty : Bool) :
    headedTo budget number header isEmpty (do body; pure place) place = (do
      headed budget number header isEmpty body
      pure place) := by
  cases header with
  | rounds count =>
    simp only [headedTo, headed, bind_assoc, repeatTo_eq]
    refine congrArg (roundCount number count >>= ·) (funext fun n => ?_)
    cases isEmpty <;> rfl
  | test subject operator value =>
    simp only [headedTo, headed, bind_assoc]
    refine congrArg (testHolds subject operator value >>= ·) (funext fun holds => ?_)
    cases holds <;> rfl

end Places

/-- A header goes on where its body has ended, which the search finds as well. -/
theorem runLines_header {line : Line} {header : Header} {floor : Nat}
    (hs : line.isSkippable = false) (hf : ¬ line.indent < floor)
    (hc : classifyChars line.text = .ok (.block header none)) (budget : Int) (rest : List Line) :
    runLines budget floor (line :: rest) = (do
      enter budget line.number line.text
      let after ← headedTo budget line.number header (!Line.hasBody line.indent rest)
        (runLines budget (line.indent + 1) rest) (Line.afterBody line.indent rest)
      runLines budget floor after) := by
  have hbody := runLines_eq budget (line.indent + 1) rest
  rw [← Line.isWithin_eq] at hbody
  rw [runLines_line budget rest hs hf, act, hc, Line.onward, hc, hbody]
  simp only [Line.afterBody, headedTo_eq, bind_assoc, pure_bind, bind_pure_unit]

/-- The two ways to find the end of the body of a line agree. Where the lines after it are
executed as its body and that is not cut short, the execution ends at the place that the
search finds. However it ends, it has entered only lines after the line and before that
place. So a header goes on at the same place after no round, one or many, and whether its
test holds or not: to go on where the last run of the body has ended is to go on where the
search ends. -/
theorem body_scans_agree {raws : List (List Char)} {i : Nat} {raw : List Char}
    (hi : raws[i]? = some raw) (hs : (Line.ofRaw (i + 1) raw).isSkippable = false) :
    let lines := Line.numbered 1 raws
    let line := Line.ofRaw (i + 1) raw
    let past := Line.bodyEnd lines line.indent (i + 1)
    (∀ budget s after s',
      runLines budget (line.indent + 1) (lines.drop (i + 1)) s = .ok after s' →
        after = lines.drop past ∧ lines.length - after.length = past) ∧
    (∀ budget s, ∃ trail,
      (Result.state (runLines budget (line.indent + 1) (lines.drop (i + 1)) s)).visited.toList =
        s.visited.toList ++ trail ∧ ∀ entry ∈ trail, i + 1 < entry.1 ∧ entry.1 ≤ past) ∧
    ∀ budget floor header, floor ≤ line.indent →
      classifyChars line.text = .ok (.block header none) →
      runLines budget floor (lines.drop i) = (do
        enter budget line.number line.text
        let after ← headedTo budget line.number header
          (!Line.hasBody line.indent (lines.drop (i + 1)))
          (runLines budget (line.indent + 1) (lines.drop (i + 1))) (lines.drop past)
        runLines budget floor after) := by
  intro lines line past
  obtain ⟨hlt, hl⟩ : ∃ h : i < lines.length, lines[i] = line := by
    rw [← List.getElem?_eq_some_iff, Line.getElem?_numbered, hi, Nat.add_comm]
    rfl
  refine ⟨?_, ?_, ?_⟩
  · intro budget s after s' h
    have ha : after = lines.drop past := by
      rw [Line.drop_bodyEnd]
      exact eq_afterBody_of_runLines h
    have hle : past ≤ lines.length := Line.bodyEnd_le hlt line.indent
    refine ⟨ha, ?_⟩
    rw [ha, List.length_drop]
    omega
  · intro budget s
    refine exists_trail (fun l hm entry he => ?_) budget s
    rw [he.1]
    exact Line.number_of_mem_body hm
  · intro budget floor header hf hc
    rw [List.drop_eq_getElem_cons hlt, hl, Line.drop_bodyEnd]
    exact runLines_header hs (Nat.not_lt.mpr hf) hc budget _

def unevenLoop : List (List Char) :=
  ["for i in range(2):", "    if x > 0:", "        y = 1", "   z = 2", "", " z = 3", "# c",
    "w = 4"].map String.toList

theorem body_scans_agree_uneven :
    ∃ after s', runLines 100 1 ((Line.numbered 1 unevenLoop).drop 1) initial = .ok after s' ∧
      Line.bodyEnd (Line.numbered 1 unevenLoop) 0 1 = 7 ∧
      after = (Line.numbered 1 unevenLoop).drop 7 := by
  have hi : unevenLoop[0]? = some "for i in range(2):".toList := rfl
  have hs : (Line.ofRaw 1 "for i in range(2):".toList).isSkippable = false := by decide
  have hend : Line.bodyEnd (Line.numbered 1 unevenLoop) 0 1 = 7 := by decide +kernel
  have hreturns :
      (Result.ending (runLines 100 1 ((Line.numbered 1 unevenLoop).drop 1) initial)).stop.isNone =
        true := by
    decide +kernel
  cases hr : runLines 100 1 ((Line.numbered 1 unevenLoop).drop 1) initial with
  | error stop s' =>
    rw [hr] at hreturns
    cases hreturns
  | ok after s' =>
    have ha : after = (Line.numbered 1 unevenLoop).drop
        (Line.bodyEnd (Line.numbered 1 unevenLoop) 0 1) :=
      ((body_scans_agree hi hs).1 100 initial after s' hr).1
    rw [hend] at ha
    exact ⟨after, s', rfl, hend, ha⟩

end BlockScript.Script
