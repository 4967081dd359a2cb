import BlockScript.Proofs.Script.Entries

/-!
# What a run leaves is the sum of the lines it has executed

A run records the number and the text of every line, or body on the line of its
header, that it executes. This trail alone determines the variables and the
output: a simple statement makes its change in the variables it finds, and a
header, or a line that fails, makes none. So what one line contributes to a run
can be read off from its text, wherever the line stands and however often it is
executed.
-/

set_option autoImplicit false

namespace BlockScript.Script

variable {α β : Type}

def changeOf (vars : Bindings String Datum) (text : List Char) : Change :=
  match classifyChars text with
  | .ok (.simple statement) =>
    match statement.change vars with
    | .ok change => change
    | .error _ => .nothing
  | _ => .nothing

def State.follow (s : State) (entry : Nat × String) : State :=
  { s.apply (changeOf s.vars entry.2.toList) with visited := s.visited.push entry }

def State.replay (s : State) (trail : List (Nat × String)) : State := trail.foldl State.follow s

def State.unclocked (s : State) : State := { s with steps := 0 }

theorem State.replay_append (s : State) (trail more : List (Nat × String)) :
    s.replay (trail ++ more) = (s.replay trail).replay more := List.foldl_append

theorem State.unclocked_follow (s : State) (entry : Nat × String) :
    (s.follow entry).unclocked = s.unclocked.follow entry := by
  have hv : s.unclocked.vars = s.vars := rfl
  rw [follow, follow, hv]
  cases changeOf s.vars entry.2.toList <;> rfl

theorem State.visited_replay (s : State) (trail : List (Nat × String)) :
    (s.replay trail).visited.toList = s.visited.toList ++ trail := by
  induction trail generalizing s with
  | nil => simp [replay]
  | cons entry trail ih =>
    change ((s.follow entry).replay trail).visited.toList = _
    rw [ih]
    simp [follow]

theorem State.exists_output_follow (s : State) (entry : Nat × String) :
    ∃ said, (s.follow entry).output.toList = s.output.toList ++ said := by
  unfold follow
  cases changeOf s.vars entry.2.toList with
  | nothing => exact ⟨[], by simp [apply]⟩
  | say line => exact ⟨["> " ++ line], by simp [apply]⟩
  | put name d => exact ⟨[], by simp [apply]⟩

theorem State.exists_output_replay (s : State) (trail : List (Nat × String)) :
    ∃ said, (s.replay trail).output.toList = s.output.toList ++ said := by
  induction trail generalizing s with
  | nil => exact ⟨[], by simp [replay]⟩
  | cons entry trail ih =>
    obtain ⟨first, hf⟩ := s.exists_output_follow entry
    obtain ⟨rest, hr⟩ := ih (s.follow entry)
    exact ⟨first ++ rest, by rw [← List.append_assoc, ← hf]; exact hr⟩

section Texts

variable {text : List Char} {statement : Simple}

theorem changeOf_simple (h : classifyChars text = .ok (.simple statement))
    (vars : Bindings String Datum) :
    changeOf vars text =
      match statement.change vars with
      | .ok change => change
      | .error _ => .nothing := by
  rw [changeOf, h]

theorem changeOf_block {header : Header} {inline : Option Inline}
    (h : classifyChars text = .ok (.block header inline)) (vars : Bindings String Datum) :
    changeOf vars text = .nothing := by
  rw [changeOf, h]

theorem changeOf_error {fault : LineFault} (h : classifyChars text = .error fault)
    (vars : Bindings String Datum) : changeOf vars text = .nothing := by
  rw [changeOf, h]

theorem classifyChars_inline {header : Header} {inline : Inline}
    (h : classifyChars text = .ok (.block header (some inline))) :
    classifyChars inline.text.toList = .ok (.simple inline.statement) := by
  rw [classifyChars] at h
  split at h
  · cases hs : simple text <;> simp [hs, Except.map] at h
  · split at h
    · cases hs : simple text <;> simp [hs, Except.map] at h
    · split at h
      · cases h
      · split at h
        · cases h
        · cases h
        · next hc =>
          cases h
          simpa using hc

end Texts

def Replays (p : Nat × String → Prop) (s : State) (result : Result α) : Prop :=
  ∃ trail, (∀ entry ∈ trail, p entry) ∧ result.state.unclocked = s.unclocked.replay trail

namespace Replays

variable {p : Nat × String → Prop} {s : State} {budget : Int}

theorem same {result : Result α} (h : result.state.unclocked = s.unclocked) :
    Replays p s result := ⟨[], by simp, h⟩

theorem replays_congr {s s' : State} {result : Result α} (h : s.unclocked = s'.unclocked) :
    Replays p s result ↔ Replays p s' result := by
  rw [Replays, Replays, h]

theorem bind {run : Run α} {next : α → Run β} {s' : State} (h : Replays p s (run s'))
    (hn : ∀ a t, Replays p t (next a t)) : Replays p s ((run >>= next) s') := by
  rw [Run.bind_apply]
  cases hr : run s' with
  | error stop t =>
    rw [hr] at h
    exact h
  | ok a t =>
    rw [hr] at h
    obtain ⟨trail, ht, he⟩ := h
    obtain ⟨more, hm, he'⟩ := hn a t
    refine ⟨trail ++ more, ?_, ?_⟩
    · intro entry hmem
      exact (List.mem_append.1 hmem).elim (ht entry) (hm entry)
    · rw [State.replay_append, ← he]
      exact he'

theorem follow {entry : Nat × String} (hp : p entry) {result : Result α}
    (h : Replays p (s.follow entry) result) : Replays p s result := by
  obtain ⟨trail, ht, he⟩ := h
  refine ⟨entry :: trail, List.forall_mem_cons.2 ⟨hp, ht⟩, ?_⟩
  rw [he, State.unclocked_follow]
  rfl

theorem enter {number : Nat} {text : List Char} (hp : p (number, String.ofList text))
    {next : Unit → Run α}
    (h : Replays p (s.follow (number, String.ofList text))
      (next () (s.entered number text))) :
    Replays p s ((enter budget number text >>= next) s) := by
  rw [Run.bind_apply]
  by_cases hb : budget < (s.steps + 1 : Nat)
  · rw [enter_of_lt hb]
    exact same rfl
  · rw [enter_of_le (Int.not_lt.mp hb)]
    exact follow hp h

theorem unclocked_entered (number : Nat) {text : List Char}
    (h : changeOf s.vars text = .nothing) :
    (s.entered number text).unclocked = (s.follow (number, String.ofList text)).unclocked := by
  rw [State.follow, String.toList_ofList, h]
  rfl

theorem runSimple {number : Nat} {text : List Char} {statement : Simple}
    (hc : classifyChars text = .ok (.simple statement)) :
    Replays p (s.follow (number, String.ofList text))
      (runSimple number statement (s.entered number text)) := by
  have hv : (s.entered number text).vars = s.vars := rfl
  apply same
  rw [runSimple_apply, State.follow, String.toList_ofList, changeOf_simple hc, hv]
  cases statement.change s.vars with
  | error fault => rfl
  | ok change => cases change <;> rfl

theorem runInline {number : Nat} {inline : Inline} (hp : p (number, inline.text))
    (hc : classifyChars inline.text.toList = .ok (.simple inline.statement)) :
    Replays p s (runInline budget number inline s) := by
  rw [runInline_eq]
  exact enter (by rwa [String.ofList_toList]) (runSimple hc)

theorem roundCount (number : Nat) (count : Operand) :
    Replays p s (roundCount number count s) := by
  rw [roundCount_apply]
  split <;> exact same rfl

theorem repeatBody {count : Number} {body : Run Unit} (hb : ∀ s, Replays p s (body s))
    (fuel finished : Nat) (s : State) :
    Replays p s (repeatBody budget count body fuel finished s) := by
  induction fuel generalizing finished s with
  | zero =>
    by_cases hc : count.exceeds finished
    · rw [repeatBody_of_used_up hc (Or.inl rfl)]
      exact same rfl
    · rw [repeatBody_of_not_exceeds (by simpa using hc)]
      exact same rfl
  | succ fuel ih =>
    by_cases hc : count.exceeds finished
    · by_cases hs : budget < s.steps
      · rw [repeatBody_of_used_up hc (Or.inr hs)]
        exact same rfl
      · rw [repeatBody_succ hc (Int.not_lt.mp hs)]
        exact bind (hb s) fun _ t => ih (finished + 1) t
    · rw [repeatBody_of_not_exceeds (by simpa using hc)]
      exact same rfl

theorem headed (number : Nat) (header : Header) (isEmpty : Bool) {body : Run Unit}
    (hb : ∀ s, Replays p s (body s)) (s : State) :
    Replays p s (headed budget number header isEmpty body s) := by
  cases header with
  | rounds count =>
    refine bind (roundCount number count) fun n t => ?_
    cases isEmpty with
    | true => exact same rfl
    | false => exact repeatBody hb _ 0 t
  | test subject operator value =>
    have ht : Replays p s (testHolds subject operator value s) := same rfl
    refine bind ht fun holds t => ?_
    cases holds with
    | true => exact hb t
    | false => exact same rfl

end Replays

def Line.Leaves (line : Line) (entry : Nat × String) : Prop :=
  entry.1 = line.number ∧ (entry.2 = String.ofList line.text ∨
    ∃ header inline, classifyChars line.text = .ok (.block header (some inline)) ∧
      entry.2 = inline.text)

theorem Replays.act {p : Nat × String → Prop} {budget : Int} {line : Line} {rest : List Line}
    {inside : Run Unit} (hp : ∀ entry, line.Leaves entry → p entry)
    (hi : ∀ s, Replays p s (inside s)) (s : State) :
    Replays p (s.follow (line.number, String.ofList line.text))
      (act budget line rest inside (s.entered line.number line.text)) := by
  unfold Script.act
  cases hc : classifyChars line.text with
  | error fault => exact same (unclocked_entered line.number (changeOf_error hc s.vars))
  | ok statement =>
    cases statement with
    | simple statement => exact runSimple hc
    | block header inline =>
      -- a header has nothing left to do but what comes after it
      rw [replays_congr (unclocked_entered line.number (changeOf_block hc s.vars)).symm]
      cases inline with
      | none => exact headed line.number header _ hi _
      | some inline =>
        have hl : line.Leaves (line.number, inline.text) := ⟨rfl, .inr ⟨header, inline, hc, rfl⟩⟩
        exact headed line.number header false
          (fun _ => runInline (hp _ hl) (classifyChars_inline hc)) _

/-- A run of lines is the replay of entries that these lines leave. -/
theorem runLines_replays {p : Nat × String → Prop} (budget : Int) (floor : Nat)
    {lines : List Line} (hl : ∀ line ∈ lines, ∀ entry, line.Leaves entry → p entry) (s : State) :
    Replays p s (runLines budget floor lines s) := by
  induction floor, lines using runLines.induct generalizing s with
  | case1 floor =>
    rw [runLines]
    exact .same rfl
  | case2 floor line rest hs ih =>
    rw [runLines, if_pos hs]
    exact ih (fun l hm => hl l (List.mem_cons_of_mem line hm)) s
  | case3 floor line rest hs hf =>
    rw [runLines, if_neg hs, if_pos hf]
    exact .same rfl
  | case4 floor line rest hs hf ih₁ ih₂ ih₃ =>
    have hs' : line.isSkippable = false := by simpa using hs
    have hline := hl line List.mem_cons_self
    have hrest : ∀ l ∈ rest, ∀ entry, l.Leaves entry → p entry := fun l hm =>
      hl l (List.mem_cons_of_mem line hm)
    have hafter : ∀ l ∈ Line.afterBody line.indent rest, ∀ entry, l.Leaves entry → p entry :=
      fun l hm => hrest l ((List.dropWhile_sublist _).subset hm)
    rw [runLines_line budget rest hs' hf]
    refine .enter (hline _ ⟨rfl, .inl rfl⟩) ?_
    refine .bind (.act hline (fun t => .bind (ih₃ hrest t) fun _ _ => .same rfl) s)
      fun _ t => ?_
    unfold Line.onward
    split
    · exact ih₂ hafter t
    · exact ih₁ hrest t

/-- A run of a source is the replay of its trail, and every entry of the trail is
one that a line of the source leaves. -/
theorem run_replays (budget : Int) (source : String) :
    let s := (run budget source).state
    s.unclocked = initial.replay s.visited.toList ∧
      ∀ entry ∈ s.visited, ∃ line ∈ Line.ofSource source, line.Leaves entry := by
  intro s
  obtain ⟨trail, ht, he⟩ : Replays
      (fun entry => ∃ line ∈ Line.ofSource source, line.Leaves entry) initial
      (runLines budget 0 (Line.ofSource source) initial) :=
    runLines_replays budget 0 (fun line hl entry h => ⟨line, hl, h⟩) initial
  have hs : s = Result.state (runLines budget 0 (Line.ofSource source) initial) := by
    rw [← Result.ending_state, ← run_eq]
  have hvisited : s.visited.toList = trail := by
    change s.unclocked.visited.toList = trail
    rw [hs, he, State.visited_replay]
    rfl
  refine ⟨by rw [hvisited, hs, he]; rfl, fun entry hm => ht entry ?_⟩
  rw [← hvisited]
  exact Array.mem_toList_iff.2 hm

end BlockScript.Script
