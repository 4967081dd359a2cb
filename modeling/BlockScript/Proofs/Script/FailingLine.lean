import BlockScript.Proofs.Script.Trail

/-!
# A line that fails has done nothing

What ends well under some budget ends in the same way under every budget that
covers its steps. What fails on a line is cut off by the budget that covers the
steps before this line, and in the state in which the line was to be entered. So
a failing line leaves variables and output as it finds them, however deep it
stands in loops and tests, and nothing is executed after it.
-/

set_option autoImplicit false

namespace BlockScript.Script

variable {α β : Type}

def failureOf (vars : Bindings String Datum) (text : List Char) : Option Cause :=
  match classifyChars text with
  | .error fault => some (.line fault)
  | .ok (.simple statement) =>
    match statement.change vars with
    | .ok _ => none
    | .error fault => some (.value fault)
  | .ok (.block (.rounds count) _) =>
    match (resolve vars count).toValue.toNumber with
    | .ok _ => none
    | .error fault => some (.value fault)
  | .ok (.block (.test _ _ _) _) => none

namespace State

structure Before (s t : State) : Prop where
  steps : s.steps ≤ t.steps
  recorded : t.visited.size + s.steps = s.visited.size + t.steps

theorem Before.refl (s : State) : s.Before s := ⟨Nat.le_refl _, rfl⟩

theorem Before.trans {s t u : State} (h : s.Before t) (h' : t.Before u) : s.Before u where
  steps := Nat.le_trans h.steps h'.steps
  recorded := by
    have := h.recorded
    have := h'.recorded
    omega

theorem before_entered (s : State) (number : Nat) (text : List Char) :
    s.Before (s.entered number text) where
  steps := Nat.le_succ _
  recorded := by
    simp only [entered, Array.size_push]
    omega

theorem before_apply (s : State) (change : Change) : s.Before (s.apply change) := by
  cases change <;> exact ⟨Nat.le_refl _, rfl⟩

def cut (s : State) : State := { s with steps := s.steps + 1 }

end State

/-- What a result of a process tells of other budgets. If it ended well, it ends
so under all that cover its steps. If it failed, then on a text that fails by
itself in the state before it was entered, and that is the state in which the
budget for the steps until then cuts the process off. -/
def Foretells (p : Int → Process α) (s : State) : Result α → Prop
  | .ok a t => s.Before t ∧ ∀ budget : Int, t.steps ≤ budget → p budget s = some (.ok a t)
  | .error .runaway _ => True
  | .error (.failed number cause) t =>
    ∃ (u : State) (text : List Char), s.Before u ∧ t = u.entered number text ∧
      failureOf u.vars text = some cause ∧ p u.steps s = some (.error .runaway u.cut)

/-- What follows a part that ended well starts where that part ends under every budget. -/
theorem Foretells.andThen {p : Int → Process α} {next : α → Int → Process β} {s t : State} {a : α}
    {result : Result β} (h : Foretells p s (.ok a t)) (hn : Foretells (next a) t result) :
    Foretells (fun budget => p budget >>= fun a => next a budget) s result := by
  obtain ⟨hst, hp⟩ := h
  have hfirst : ∀ budget : Int, t.steps ≤ budget →
      (p budget >>= fun a => next a budget) s = next a budget t :=
    fun budget hb => Process.bind_of_ok (hp budget hb) _
  cases result with
  | ok b u =>
    obtain ⟨htu, hn⟩ := hn
    refine ⟨hst.trans htu, fun budget hb => ?_⟩
    have := htu.steps
    exact (hfirst budget (by omega)).trans (hn budget hb)
  | error stop v =>
    cases stop with
    | runaway => trivial
    | failed number cause =>
      obtain ⟨u, text, htu, hv, hf, hcut⟩ := hn
      have := htu.steps
      exact ⟨u, text, hst.trans htu, hv, hf, (hfirst u.steps (by omega)).trans hcut⟩

theorem Foretells.bind {p : Int → Process α} {next : α → Int → Process β} {budget : Int}
    {s : State} (h : ∀ first, p budget s = some first → Foretells p s first)
    (hn : ∀ a t, p budget s = some (.ok a t) →
      ∀ result, next a budget t = some result → Foretells (next a) t result)
    {result : Result β} (hr : (p budget >>= fun a => next a budget) s = some result) :
    Foretells (fun budget => p budget >>= fun a => next a budget) s result := by
  cases hp : p budget s with
  | none =>
    change Process.bind _ _ s = _ at hr
    rw [Process.bind, hp] at hr
    cases hr
  | some first =>
    have hf := h first hp
    cases first with
    | ok a t => exact hf.andThen (hn a t hp result ((Process.bind_of_ok hp _).symm.trans hr))
    | error stop t =>
      obtain rfl : .error stop t = result :=
        Option.some.inj ((Process.bind_of_error hp _).symm.trans hr)
      cases stop with
      | runaway => trivial
      | failed number cause =>
        obtain ⟨u, text, hsu, ht, hcause, hcut⟩ := hf
        exact ⟨u, text, hsu, ht, hcause, Process.bind_of_error hcut _⟩

def Steady (p : Int → Process α) : Prop :=
  ∀ budget s result, p budget s = some result → Foretells p s result

def Tries (number : Nat) (text : List Char) (p : Int → Process Unit) : Prop :=
  ∀ budget s result, p budget s = some result →
    (∃ cause, result = .error (.failed number cause) s ∧ failureOf s.vars text = some cause) ∨
      Foretells p s result

namespace Steady

theorem pure (a : α) : Steady (fun _ => Pure.pure a : Int → Process α) := by
  rintro budget s result ⟨⟩
  exact ⟨.refl s, fun _ _ => rfl⟩

theorem bind {p : Int → Process α} {next : α → Int → Process β} (h : Steady p)
    (hn : ∀ a, Steady (next a)) : Steady fun budget => p budget >>= fun a => next a budget :=
  fun budget s _ hr => .bind (h budget s) (fun a t _ => hn a budget t) hr

/-- A text that is entered and tried: if it fails at once, the budget that covers the
steps before it does not let it be entered. -/
theorem enter {number : Nat} {text : List Char} {p : Int → Process Unit}
    (h : Tries number text p) :
    Steady fun budget => Process.ofRun (enter budget number text) >>= fun _ => p budget := by
  intro budget s result hr
  have hlt : ∀ budget : Int, budget < (s.steps + 1 : Nat) →
      Process.ofRun (Script.enter budget number text) s = some (.error .runaway s.cut) :=
    fun budget hb => congrArg some (enter_of_lt hb number text)
  have hle : ∀ budget : Int, (s.steps + 1 : Nat) ≤ budget →
      Process.ofRun (Script.enter budget number text) s = some (.ok () (s.entered number text)) :=
    fun budget hb => congrArg some (enter_of_le hb number text)
  by_cases hb : budget < (s.steps + 1 : Nat)
  · obtain rfl : .error .runaway s.cut = result :=
      Option.some.inj ((Process.bind_of_error (hlt budget hb) _).symm.trans hr)
    trivial
  · have hr' := (Process.bind_of_ok (hle budget (by omega)) _).symm.trans hr
    rcases h budget _ result hr' with ⟨cause, rfl, hf⟩ | hf
    · exact ⟨s, text, .refl s, rfl, hf, Process.bind_of_error (hlt s.steps (by omega)) _⟩
    · have hentered : Foretells (fun budget => Process.ofRun (Script.enter budget number text)) s
          (.ok () (s.entered number text)) := ⟨s.before_entered number text, hle⟩
      exact hentered.andThen hf

theorem whileBelow {p : Int → Process Unit} (h : Steady p) (count : Number) (finished : Nat) :
    Steady fun budget => Process.whileBelow count (p budget) finished := by
  intro budget s result hr
  -- The loop ends, so its rounds can be counted: induction on those that are left.
  refine PFun.fixInduction (C := fun a => ∀ result,
    Process.whileBelow count (p budget) a.1 a.2 = some result →
      Foretells (fun budget => Process.whileBelow count (p budget) a.1) a.2 result)
    (Process.whileBelow_eq_some.1 hr) ?_ result hr
  rintro ⟨finished, s⟩ - ih result hr
  dsimp only at ih hr ⊢
  cases hc : count.exceeds finished with
  | false =>
    rw [Process.whileBelow_of_not_exceeds hc] at hr
    cases hr
    exact ⟨.refl s, fun budget _ => Process.whileBelow_of_not_exceeds hc (p budget) s⟩
  | true =>
    simp only [Process.whileBelow_of_exceeds hc] at hr ⊢
    refine .bind (h budget s) (fun a t hp => ih (finished + 1, t) ?_) hr
    rw [Process.round, if_pos hc, hp]
    exact (Part.mem_map_iff _).2 ⟨_, Part.mem_some _, rfl⟩

end Steady

namespace Tries

variable {number : Nat} {text : List Char}

theorem simple {statement : Simple} (hc : classifyChars text = .ok (.simple statement)) :
    Tries number text fun _ => Process.ofRun (runSimple number statement) := by
  intro budget s result hr
  have hrun := runSimple_apply number statement s
  cases hch : statement.change s.vars with
  | error fault =>
    rw [hch] at hrun
    refine .inl ⟨.value fault, (Option.some.inj hr).symm.trans hrun, ?_⟩
    rw [failureOf, hc]
    simp only [hch]
  | ok change =>
    rw [hch] at hrun
    obtain rfl : .ok () (s.apply change) = result := hrun.symm.trans (Option.some.inj hr)
    exact .inr ⟨s.before_apply change, fun _ _ => congrArg some hrun⟩

/-- A header fails on its count or not at all; everything else is up to its body. -/
theorem header {header : Header} {inline : Option Inline}
    (hc : classifyChars text = .ok (.block header inline)) (isEmpty : Bool)
    {p : Int → Process Unit} (hp : Steady p) :
    Tries number text fun budget => header.eval number isEmpty (p budget) := by
  cases header with
  | rounds count =>
    let rounds (n : Number) (budget : Int) : Process Unit :=
      if isEmpty then Pure.pure () else Process.whileBelow n (p budget) 0
    have hrounds : ∀ n, Steady (rounds n) := by
      intro n
      cases isEmpty with
      | true => exact .pure ()
      | false => exact hp.whileBelow n 0
    intro budget s result hr
    have hrun := roundCount_apply number count s
    cases hn : (resolve s.vars count).toValue.toNumber with
    | error fault =>
      rw [hn] at hrun
      obtain rfl : .error (.failed number (.value fault)) s = result :=
        Option.some.inj ((Process.bind_of_error (congrArg some hrun) _).symm.trans hr)
      refine .inl ⟨.value fault, rfl, ?_⟩
      rw [failureOf, hc]
      simp only [hn]
    | ok n =>
      rw [hn] at hrun
      have hcount : Foretells (fun _ => Process.ofRun (roundCount number count)) s (.ok n s) :=
        ⟨.refl s, fun _ _ => congrArg some hrun⟩
      have hrest : rounds n budget s = some result :=
        (Process.bind_of_ok (congrArg some hrun) (rounds · budget)).symm.trans hr
      exact .inr (hcount.andThen (hrounds n budget s result hrest))
  | test subject operator value =>
    have htest : Steady fun _ => Process.ofRun (testHolds subject operator value) := by
      rintro budget s result ⟨⟩
      exact ⟨.refl s, fun _ _ => rfl⟩
    have hbody : ∀ holds : Bool, Steady fun budget => if holds then p budget else Pure.pure () := by
      intro holds
      cases holds with
      | true => exact hp
      | false => exact .pure ()
    intro budget s result hr
    exact .inr (htest.bind hbody budget s result hr)

end Tries

/-- A body on the line of its header is entered under the number of that line. -/
theorem steady_runInline (number : Nat) {inline : Inline}
    (hc : classifyChars inline.text.toList = .ok (.simple inline.statement)) :
    Steady fun budget => Process.ofRun (runInline budget number inline) := by
  simp only [runInline_eq, Process.ofRun_bind]
  exact .enter (.simple hc)

/-- The tree of any lines is evaluated steadily. -/
theorem steady_forest (lines : List Line) : Steady fun budget => evalAll budget (forest lines) := by
  induction lines using forest.induct with
  | case1 =>
    rw [forest]
    simp only [evalAll]
    exact .pure ()
  | case2 line rest fault hc ih =>
    have hfails : Tries line.number line.text fun _ =>
        Process.ofRun (throw (.failed line.number (.line fault))) := by
      rintro budget s result ⟨⟩
      refine .inl ⟨.line fault, rfl, ?_⟩
      rw [failureOf, hc]
    rw [forest, hc]
    simp only [evalAll, Node.eval, Action.eval]
    exact (Steady.enter hfails).bind fun _ => ih
  | case3 line rest statement hc ih =>
    rw [forest, hc]
    simp only [evalAll, Node.eval, Action.eval]
    exact (Steady.enter (.simple hc)).bind fun _ => ih
  | case4 line rest header inline hc ih =>
    have hinline := steady_runInline line.number (classifyChars_inline hc)
    rw [forest, hc]
    simp only [evalAll, Node.eval, Action.eval]
    exact (Steady.enter (.header hc false hinline)).bind fun _ => ih
  | case5 line rest header hc ihBody ihRest =>
    rw [forest, hc]
    simp only [evalAll, Node.eval]
    exact (Steady.enter (.header hc _ ihBody)).bind fun _ => ihRest

/-- A run that fails is cut off just before the failing line by the budget for one
step less. -/
theorem exists_cut {budget : Int} {source : String} {number : Nat} {cause : Cause}
    (h : (run budget source).stop = some (.failed number cause)) :
    ∃ (u : State) (text : List Char), initial.Before u ∧
      run budget source = ⟨u.entered number text, some (.failed number cause)⟩ ∧
      failureOf u.vars text = some cause ∧ run u.steps source = ⟨u.cut, some .runaway⟩ := by
  obtain ⟨result, he, hr⟩ := exists_evalAll budget source
  rw [hr] at h ⊢
  cases result with
  | ok a t => cases h
  | error stop t =>
    cases h
    obtain ⟨u, text, hu, rfl, hf, hcut⟩ := steady_forest _ budget initial _ he
    obtain ⟨result, he', hr'⟩ := exists_evalAll u.steps source
    obtain rfl : .error .runaway u.cut = result := Option.some.inj (hcut.symm.trans he')
    exact ⟨u, text, hu, rfl, hf, hr'⟩

/-- The line of a source that an entry of a trail comes from stands where its number says. -/
theorem exists_leaving {budget : Int} {source : String} {entry : Nat × String}
    (h : entry ∈ (run budget source).state.visited) :
    ∃ raw, 1 ≤ entry.1 ∧ (rawLines source)[entry.1 - 1]? = some raw ∧
      (Line.ofRaw entry.1 raw).Leaves entry := by
  obtain ⟨line, hl, hleaves⟩ := (run_replays budget source).2 entry h
  obtain ⟨i, raw, hraw, rfl⟩ := Line.mem_numbered hl
  have hnumber : entry.1 = 1 + i := hleaves.1
  rw [hnumber]
  exact ⟨raw, by omega, by simpa [rawLines] using hraw, hleaves⟩

/-- Line errors are atomic and located. If a run fails on a line, the run with a
budget of one step less than it took is cut off, with the same variables and, but
for the entries that tell of the end, the same output. The failing run has entered
one text more: as the last of its steps, all of which are recorded, it entered a
text under the number that the failure carries. This is the number of a line of the
source, counted from one, and the text is that of the line or of the body that
stands on it; it fails by itself, for the cause that is told. -/
theorem failing_line_atomic {budget : Int} {source : String} {number : Nat} {cause : Cause}
    (h : (run budget source).stop = some (.failed number cause)) :
    let failed := run budget source
    let cut := run (failed.state.steps - 1) source
    cut.stop = some .runaway ∧ cut.state.vars = failed.state.vars ∧
    (∃ entries, cut.output = entries ++ [cutMarker] ∧
      failed.output = entries ++ [failureMarker number cause, finishMarker]) ∧
    ∃ (raw : List Char) (text : String),
      failed.state.visited = cut.state.visited.push (number, text) ∧
      failed.state.visited.size = failed.state.steps ∧
      1 ≤ number ∧ (rawLines source)[number - 1]? = some raw ∧
      (Line.ofRaw number raw).Leaves (number, text) ∧
      failureOf cut.state.vars text.toList = some cause := by
  intro failed cut
  obtain ⟨u, text, hu, hfailed, hf, hrun⟩ := exists_cut h
  have hfailed : failed = ⟨u.entered number text, some (.failed number cause)⟩ := hfailed
  have hcut : cut = ⟨u.cut, some .runaway⟩ := by
    rw [← hrun]
    have hsteps : failed.state.steps = u.steps + 1 := by rw [hfailed]; rfl
    have hbudget : (failed.state.steps : Int) - 1 = u.steps := by omega
    exact congrArg (run · source) hbudget
  have hentry : (number, String.ofList text) ∈ failed.state.visited := by
    rw [hfailed]
    exact Array.mem_push_self
  obtain ⟨raw, hnumber, hraw, hleaves⟩ := exists_leaving hentry
  rw [hcut, hfailed]
  refine ⟨rfl, rfl, ⟨u.output.toList, rfl, rfl⟩, raw, String.ofList text, rfl, ?_, hnumber, hraw,
    hleaves, by rwa [String.toList_ofList]⟩
  have hsize := hu.recorded
  simp only [initial, List.size_toArray, List.length_nil] at hsize
  simp only [State.entered, Array.size_push]
  omega

/-- The count of a loop that stands in a loop becomes text in the first round. The
second round fails on it, as the sixth step and on the third line. -/
theorem failing_line_atomic_second_round :
    let source := "n = 1\nfor i in range(3):\n  for j in range(n): print(n)\n  n = \"a\""
    (run 100 source).stop = some (.failed 3 (.value (.notNumber "'a'"))) ∧
      (run 100 source).state.steps = 6 ∧ (run 5 source).stop = some .runaway ∧
      (run 5 source).state.vars = (run 100 source).state.vars ∧
      (run 5 source).output = [startMarker, "> 1", cutMarker] ∧
      (run 100 source).output = [startMarker, "> 1",
        "Error on line 3: Expected a number, got 'a'.", finishMarker] := by
  intro source
  have hstop : (run 100 source).stop = some (.failed 3 (.value (.notNumber "'a'"))) := by
    decide +kernel
  have hsteps : (run 100 source).state.steps = 6 := by decide +kernel
  obtain ⟨hcut, hvars, ⟨entries, houtput, hfailed⟩, -⟩ := failing_line_atomic hstop
  rw [hsteps] at hcut hvars houtput
  have hentries : (run 5 source).output = [startMarker, "> 1"] ++ [cutMarker] := by decide +kernel
  obtain rfl : entries = [startMarker, "> 1"] :=
    List.append_cancel_right (houtput.symm.trans hentries)
  exact ⟨hstop, hsteps, hcut, hvars, houtput, hfailed⟩

end BlockScript.Script
