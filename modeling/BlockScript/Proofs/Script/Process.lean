import BlockScript.Script.Interpreter
import Mathlib.Data.PFun

/-!
# Runs without a bound on rounds

A process is a part of a run that may also go on forever. Its loop goes round as
long as the count says and keeps no record of how often it may still do so. The
interpreter of this module reads lines as a script run does, but with that loop;
what it does when a round starts with the budget used up is left open.
-/

set_option autoImplicit false

namespace BlockScript.Script

variable {α β : Type}

abbrev Result (α : Type) := EStateM.Result Stop State α

namespace Result

def state : Result α → State
  | .ok _ s => s
  | .error _ s => s

def ending : Result α → Ending
  | .ok _ s => ⟨s, none⟩
  | .error stop s => ⟨s, some stop⟩

end Result

theorem Run.bind_apply (run : Run α) (next : α → Run β) (s : State) :
    (run >>= next) s =
      match run s with
      | .ok a s' => next a s'
      | .error stop s' => .error stop s' := by
  change EStateM.bind run next s = _
  unfold EStateM.bind
  cases run s <;> rfl

theorem countStep_apply (budget : Int) (s : State) :
    countStep budget s =
      if budget < (s.steps + 1 : Nat) then .error .runaway { s with steps := s.steps + 1 }
      else .ok () { s with steps := s.steps + 1 } := by
  by_cases h : budget < (s.steps + 1 : Nat)
  · rw [if_pos h]
    change (if budget < (s.steps + 1 : Nat) then _ else _ : Run Unit) _ = _
    rw [if_pos h]
    rfl
  · rw [if_neg h]
    change (if budget < (s.steps + 1 : Nat) then _ else _ : Run Unit) _ = _
    rw [if_neg h]
    rfl

theorem runSimple_apply (line : Nat) (statement : Simple) (s : State) :
    runSimple line statement s =
      match statement.change s.vars with
      | .ok change => .ok () (s.apply change)
      | .error fault => .error (.failed line (.value fault)) s := by
  change (orFail line (statement.change s.vars) >>= fun c => modify fun s => s.apply c) s = _
  cases statement.change s.vars <;> rfl

theorem roundCount_apply (line : Nat) (count : Operand) (s : State) :
    roundCount line count s =
      match (resolve s.vars count).toValue.toNumber with
      | .ok n => .ok n s
      | .error fault => .error (.failed line (.value fault)) s := by
  change orFail line _ s = _
  cases (resolve s.vars count).toValue.toNumber <;> rfl

theorem repeatBody_of_not_exceeds {count : Number} {finished : Nat}
    (hc : count.exceeds finished = false) (budget : Int) (body : Run Unit) (fuel : Nat)
    (s : State) : repeatBody budget count body fuel finished s = .ok () s := by
  cases fuel <;> simp only [repeatBody, hc, Bool.false_eq_true, if_false] <;> rfl

theorem repeatBody_succ {count : Number} {finished : Nat} (hc : count.exceeds finished = true)
    {budget : Int} {s : State} (hs : (s.steps : Int) ≤ budget) (body : Run Unit) (fuel : Nat) :
    repeatBody budget count body (fuel + 1) finished s =
      (body >>= fun _ => repeatBody budget count body fuel (finished + 1)) s := by
  have hn : ¬ budget < (s.steps : Int) := by omega
  rw [repeatBody, if_pos hc]
  change (if budget < (s.steps : Int) then _ else _ : Run Unit) s = _
  rw [if_neg hn]

def enter (budget : Int) (number : Nat) (text : List Char) : Run Unit := do
  countStep budget
  visit number text

def State.entered (s : State) (number : Nat) (text : List Char) : State :=
  { s with
    steps := s.steps + 1
    visited := s.visited.push (number, String.ofList text) }

theorem enter_of_le {budget : Int} {s : State} (h : (s.steps + 1 : Nat) ≤ budget) (number : Nat)
    (text : List Char) : enter budget number text s = .ok () (s.entered number text) := by
  rw [enter, Run.bind_apply, countStep_apply, if_neg (by omega)]
  rfl

theorem enter_of_lt {budget : Int} {s : State} (h : budget < (s.steps + 1 : Nat)) (number : Nat)
    (text : List Char) :
    enter budget number text s = .error .runaway { s with steps := s.steps + 1 } := by
  rw [enter, Run.bind_apply, countStep_apply, if_pos h]

theorem runInline_eq (budget : Int) (number : Nat) (inline : Inline) :
    runInline budget number inline = (do
      enter budget number inline.text.toList
      runSimple number inline.statement) := by
  simp only [runInline, enter, bind_assoc]

def headed (budget : Int) (number : Nat) (header : Header) (isEmpty : Bool) (body : Run Unit) :
    Run Unit :=
  match header with
  | .rounds count => do
    let count ← roundCount number count
    if isEmpty then pure () else rounds budget count body
  | .test subject operator value => do
    if ← testHolds subject operator value then body

def act (budget : Int) (line : Line) (rest : List Line) (inside : Run Unit) : Run Unit :=
  match classifyChars line.text with
  | .error fault => throw (.failed line.number (.line fault))
  | .ok (.simple statement) => runSimple line.number statement
  | .ok (.block header (some inline)) =>
    headed budget line.number header false (runInline budget line.number inline)
  | .ok (.block header none) =>
    headed budget line.number header (!Line.hasBody line.indent rest) inside

namespace Line

def belongs (floor : Nat) (line : Line) : Bool := line.isSkippable || floor ≤ line.indent

def anyFrom (floor : Nat) (lines : List Line) : Bool :=
  (lines.takeWhile (belongs floor)).any (!·.isSkippable)

theorem isWithin_eq (indent : Nat) : isWithin indent = belongs (indent + 1) := rfl

theorem anyFrom_of_skippable {line : Line} (h : line.isSkippable = true) (floor : Nat)
    (rest : List Line) : anyFrom floor (line :: rest) = anyFrom floor rest := by
  simp [anyFrom, belongs, h]

theorem anyFrom_of_lt {line : Line} {floor : Nat} (h : line.isSkippable = false)
    (hf : line.indent < floor) (rest : List Line) : anyFrom floor (line :: rest) = false := by
  simp [anyFrom, belongs, h, Nat.not_le.mpr hf]

theorem anyFrom_of_ge {line : Line} {floor : Nat} (h : line.isSkippable = false)
    (hf : ¬ line.indent < floor) (rest : List Line) : anyFrom floor (line :: rest) = true := by
  simp [anyFrom, belongs, h, Nat.not_lt.mp hf]

end Line

def Line.onward (line : Line) (rest : List Line) : List Line :=
  match classifyChars line.text with
  | .ok (.block _ none) => afterBody line.indent rest
  | _ => rest

theorem Line.onward_length_le (line : Line) (rest : List Line) :
    (line.onward rest).length ≤ rest.length := by
  unfold onward
  split
  · exact afterBody_length_le line.indent rest
  · exact Nat.le_refl _

/-- A line is entered, acts, and gives way to the lines after it. -/
theorem runLines_line (budget : Int) {floor : Nat} {line : Line} (rest : List Line)
    (hs : line.isSkippable = false) (hf : ¬ line.indent < floor) :
    runLines budget floor (line :: rest) = (do
      enter budget line.number line.text
      act budget line rest (do let _ ← runLines budget (line.indent + 1) rest)
      runLines budget floor (line.onward rest)) := by
  rw [runLines]
  simp only [hs, Bool.false_eq_true, if_false, hf, enter, bind_assoc]
  refine congrArg (countStep budget >>= ·) (funext fun _ => ?_)
  refine congrArg (visit line.number line.text >>= ·) (funext fun _ => ?_)
  unfold act Line.onward
  cases hc : classifyChars line.text with
  | error fault => rfl
  | ok statement =>
    cases statement with
    | simple statement => rfl
    | block header inline =>
      cases header with
      | rounds count =>
        cases inline with
        | some inline => simp [headed]
        | none => cases Line.hasBody line.indent rest <;> simp [headed]
      | test subject operator value =>
        cases inline with
        | some inline =>
          simp only [headed, bind_assoc]
          refine congrArg (testHolds subject operator value >>= ·) (funext fun holds => ?_)
          cases holds <;> simp
        | none =>
          simp only [headed, bind_assoc]
          refine congrArg (testHolds subject operator value >>= ·) (funext fun holds => ?_)
          cases holds <;> simp

def Process (α : Type) := State → Option (Result α)

namespace Process

def bind (p : Process α) (next : α → Process β) : Process β := fun s =>
  match p s with
  | none => none
  | some (.ok a s') => next a s'
  | some (.error stop s') => some (.error stop s')

instance : Monad Process where
  pure a := fun s => some (.ok a s)
  bind := bind

theorem bind_ok (p : Process α) : p.bind (fun a s => some (.ok a s)) = p := by
  funext s
  unfold bind
  split <;> simp_all

theorem bind_bind {γ : Type} (p : Process α) (q : α → Process β) (r : β → Process γ) :
    (p.bind q).bind r = p.bind fun a => (q a).bind r := by
  funext s
  unfold bind
  cases p s with
  | none => rfl
  | some result => cases result <;> rfl

instance : LawfulMonad Process :=
  LawfulMonad.mk' Process bind_ok (fun _ _ => rfl) bind_bind

theorem bind_of_ok {p : Process α} {s s' : State} {a : α} (h : p s = some (.ok a s'))
    (next : α → Process β) : (p >>= next) s = next a s' := by
  change Process.bind p next s = _
  rw [Process.bind, h]

theorem bind_of_error {p : Process α} {s s' : State} {stop : Stop}
    (h : p s = some (.error stop s')) (next : α → Process β) :
    (p >>= next) s = some (.error stop s') := by
  change Process.bind p next s = _
  rw [Process.bind, h]

def ofRun (run : Run α) : Process α := fun s => some (run s)

def round (count : Number) (body : Process Unit) :
    Nat × State →. Result Unit ⊕ Nat × State := fun (finished, s) =>
  if count.exceeds finished then
    (Part.ofOption (body s)).map fun
      | .ok _ s' => .inr (finished + 1, s')
      | .error stop s' => .inl (.error stop s')
  else .some (.inl (.ok () s))

open Classical in
noncomputable def whileBelow (count : Number) (body : Process Unit) (finished : Nat) :
    Process Unit := fun s => (PFun.fix (round count body) (finished, s)).toOption

open Classical in
theorem whileBelow_eq_some {count : Number} {body : Process Unit} {finished : Nat} {s : State}
    {result : Result Unit} :
    whileBelow count body finished s = some result ↔
      result ∈ PFun.fix (round count body) (finished, s) := by
  unfold whileBelow
  exact Part.toOption_eq_some_iff

theorem whileBelow_of_not_exceeds {count : Number} {finished : Nat}
    (hc : count.exceeds finished = false) (body : Process Unit) (s : State) :
    whileBelow count body finished s = some (.ok () s) := by
  rw [whileBelow_eq_some]
  apply PFun.fix_stop
  rw [round, if_neg (by simp [hc])]
  exact Part.mem_some _

theorem whileBelow_of_exceeds {count : Number} {finished : Nat}
    (hc : count.exceeds finished = true) (body : Process Unit) :
    whileBelow count body finished = (do body; whileBelow count body (finished + 1)) := by
  funext s
  apply Option.ext
  intro result
  change _ ↔ Process.bind body _ s = some result
  unfold Process.bind
  rw [whileBelow_eq_some, PFun.mem_fix_iff, round, if_pos hc]
  cases body s with
  | none => simp
  | some first =>
    cases first with
    | ok a s' => simp [whileBelow_eq_some]
    | error stop s' => simp [eq_comm]

def guarded (exhausted : Process Unit → Process Unit) (budget : Int) (body : Process Unit) :
    Process Unit := fun s => if budget < s.steps then exhausted body s else body s

noncomputable def headed (exhausted : Process Unit → Process Unit) (budget : Int) (number : Nat)
    (header : Header) (isEmpty : Bool) (body : Process Unit) : Process Unit :=
  match header with
  | .rounds count => do
    let count ← ofRun (roundCount number count)
    if isEmpty then pure () else whileBelow count (guarded exhausted budget body) 0
  | .test subject operator value => do
    if ← ofRun (testHolds subject operator value) then body

noncomputable def act (exhausted : Process Unit → Process Unit) (budget : Int) (line : Line)
    (rest : List Line) (inside : Process Unit) : Process Unit :=
  match classifyChars line.text with
  | .error fault => ofRun (throw (.failed line.number (.line fault)))
  | .ok (.simple statement) => ofRun (runSimple line.number statement)
  | .ok (.block header (some inline)) =>
    headed exhausted budget line.number header false (ofRun (runInline budget line.number inline))
  | .ok (.block header none) =>
    headed exhausted budget line.number header (!Line.hasBody line.indent rest) inside

noncomputable def lines (exhausted : Process Unit → Process Unit) (budget : Int) (floor : Nat)
    (lines : List Line) : Process (List Line) :=
  match lines with
  | [] => pure []
  | line :: rest =>
    if line.isSkippable then Process.lines exhausted budget floor rest
    else if line.indent < floor then pure (line :: rest)
    else do
      ofRun (enter budget line.number line.text)
      act exhausted budget line rest
        (do let _ ← Process.lines exhausted budget (line.indent + 1) rest)
      Process.lines exhausted budget floor (line.onward rest)
termination_by lines.length
decreasing_by
  all_goals
    have := Line.onward_length_le line rest
    simp only [List.length_cons]
    omega

end Process

end BlockScript.Script
