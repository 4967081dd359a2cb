import BlockScript.Proofs.Script.Forest

/-!
# Trees that differ only in where their lines stand

Evaluating a tree reads the texts of its lines and nothing else of them, but for
the number that a failure carries. So two trees of the same form, over lines of
the same texts, do the same step for step, and where one of them fails the other
fails for the same cause at the corresponding line.
-/

set_option autoImplicit false

namespace BlockScript.Script

variable {α β : Type} {same : Nat → Nat → Prop}

structure State.Alike (s t : State) : Prop where
  vars : s.vars = t.vars
  output : s.output = t.output
  steps : s.steps = t.steps

inductive Stop.Alike (same : Nat → Nat → Prop) : Stop → Stop → Prop
  | runaway : Alike same .runaway .runaway
  | failed {n m : Nat} (cause : Cause) : same n m →
      Alike same (.failed n cause) (.failed m cause)

inductive Result.Alike (same : Nat → Nat → Prop) : Result α → Result α → Prop
  | ok (a : α) {s t : State} : s.Alike t → Alike same (.ok a s) (.ok a t)
  | error {stop stop' : Stop} {s t : State} : stop.Alike same stop' → s.Alike t →
      Alike same (.error stop s) (.error stop' t)

/-- Forests of the same form, whose lines have the same texts and
corresponding numbers. -/
inductive Matching (same : Nat → Nat → Prop) : List Node → List Node → Prop
  | nil : Matching same [] []
  | leaf {line line' : Line} (action : Action) {nodes nodes' : List Node} :
      line.text = line'.text → same line.number line'.number → Matching same nodes nodes' →
      Matching same (.leaf line action :: nodes) (.leaf line' action :: nodes')
  | owner {line line' : Line} (header : Header) {body body' nodes nodes' : List Node} :
      line.text = line'.text → same line.number line'.number → Matching same body body' →
      Matching same nodes nodes' →
      Matching same (.owner line header body :: nodes) (.owner line' header body' :: nodes')

theorem Matching.isEmpty_eq {nodes nodes' : List Node} (h : Matching same nodes nodes') :
    nodes.isEmpty = nodes'.isEmpty := by
  cases h <;> rfl

namespace State.Alike

variable {s t : State}

theorem entered (h : s.Alike t) {n m : Nat} (text : List Char) :
    (s.entered n text).Alike (t.entered m text) :=
  ⟨h.vars, h.output, by simp [State.entered, h.steps]⟩

theorem apply (h : s.Alike t) (change : Change) : (s.apply change).Alike (t.apply change) := by
  cases change with
  | nothing => exact h
  | say line => exact ⟨h.vars, by simp [State.apply, h.output], h.steps⟩
  | put name d => exact ⟨by simp [State.apply, h.vars], h.output, h.steps⟩

theorem enter (h : s.Alike t) (budget : Int) {n m : Nat} (text : List Char) :
    Result.Alike same (enter budget n text s) (enter budget m text t) := by
  by_cases hb : budget < (s.steps + 1 : Nat)
  · rw [enter_of_lt hb, enter_of_lt (h.steps ▸ hb)]
    exact .error .runaway ⟨h.vars, h.output, by simp [h.steps]⟩
  · rw [enter_of_le (by omega), enter_of_le (by rw [← h.steps]; omega)]
    exact .ok () (h.entered text)

theorem runSimple (h : s.Alike t) {n m : Nat} (hn : same n m) (statement : Simple) :
    Result.Alike same (runSimple n statement s) (runSimple m statement t) := by
  rw [runSimple_apply, runSimple_apply, ← h.vars]
  cases statement.change s.vars with
  | error fault => exact .error (.failed _ hn) h
  | ok change => exact .ok () (h.apply change)

theorem roundCount (h : s.Alike t) {n m : Nat} (hn : same n m) (count : Operand) :
    Result.Alike same (roundCount n count s) (roundCount m count t) := by
  rw [roundCount_apply, roundCount_apply, ← h.vars]
  cases (resolve s.vars count).toValue.toNumber with
  | error fault => exact .error (.failed _ hn) h
  | ok number => exact .ok number h

theorem testHolds (h : s.Alike t) (subject : Operand) (operator : String) (value : Operand) :
    Result.Alike same (testHolds subject operator value s) (testHolds subject operator value t) := by
  have ht : Script.testHolds subject operator value t =
      .ok ((resolve t.vars subject).toValue.holds (.text operator) (resolve t.vars value).toValue)
        t := rfl
  rw [ht, ← h.vars]
  exact .ok _ h

end State.Alike

theorem Process.ofRun_bind (run : Run α) (next : α → Run β) :
    ofRun (run >>= next) = ofRun run >>= fun a => ofRun (next a) := by
  funext s
  change some ((run >>= next) s) = Process.bind (ofRun run) _ s
  rw [Run.bind_apply, Process.bind, ofRun]
  cases run s <;> rfl

def EndsAlike (same : Nat → Nat → Prop) (first second : Option (Result α)) : Prop :=
  ∀ result, first = some result →
    ∃ result', second = some result' ∧ Result.Alike same result result'

theorem EndsAlike.of_alike {result result' : Result α} (h : Result.Alike same result result') :
    EndsAlike same (some result) (some result') := by
  rintro _ ⟨⟩
  exact ⟨result', rfl, h⟩

theorem EndsAlike.bind {p q : Process α} {next next' : α → Process β} {s t : State}
    (h : EndsAlike same (p s) (q t))
    (hn : ∀ a s' t', p s = some (.ok a s') → s'.Alike t' →
      EndsAlike same (next a s') (next' a t')) :
    EndsAlike same ((p >>= next) s) ((q >>= next') t) := by
  intro result hr
  change Process.bind p next s = _ at hr
  change ∃ result', Process.bind q next' t = _ ∧ _
  unfold Process.bind at hr ⊢
  cases hp : p s with
  | none =>
    rw [hp] at hr
    cases hr
  | some first =>
    obtain ⟨first', hq, hf⟩ := h first hp
    rw [hp] at hr
    rw [hq]
    cases hf with
    | ok a hst => exact hn a _ _ hp hst result hr
    | error hstop hst =>
      cases hr
      exact ⟨_, rfl, .error hstop hst⟩

def Process.Follows (same : Nat → Nat → Prop) (p q : Process α) : Prop :=
  ∀ s t : State, s.Alike t → EndsAlike same (p s) (q t)

namespace Process.Follows

theorem ofRun {run run' : Run α}
    (h : ∀ s t : State, s.Alike t → Result.Alike same (run s) (run' t)) :
    Follows same (ofRun run) (ofRun run') :=
  fun s t hst => .of_alike (h s t hst)

theorem pure (a : α) : Follows same (Pure.pure a) (Pure.pure a) :=
  fun _ _ hst => .of_alike (.ok a hst)

theorem bind {p q : Process α} {next next' : α → Process β} (h : Follows same p q)
    (hn : ∀ a, Follows same (next a) (next' a)) : Follows same (p >>= next) (q >>= next') :=
  fun s t hst => .bind (h s t hst) fun a s' t' _ hst' => hn a s' t' hst'

theorem enter (budget : Int) {n m : Nat} (text : List Char) :
    Follows same (Process.ofRun (enter budget n text)) (Process.ofRun (Script.enter budget m text)) :=
  ofRun fun _ _ h => h.enter budget text

theorem runInline (budget : Int) {n m : Nat} (hn : same n m) (inline : Inline) :
    Follows same (Process.ofRun (runInline budget n inline))
      (Process.ofRun (Script.runInline budget m inline)) := by
  rw [runInline_eq, runInline_eq, ofRun_bind, ofRun_bind]
  exact bind (enter budget _) fun _ => ofRun fun _ _ h => h.runSimple hn inline.statement

theorem whileBelow {p q : Process Unit} (h : Follows same p q) (count : Number) (finished : Nat) :
    Follows same (whileBelow count p finished) (whileBelow count q finished) := by
  intro s t hst result hr
  -- The first loop ends, so its rounds can be counted: induction on those that are left.
  refine PFun.fixInduction (C := fun a => ∀ t, a.2.Alike t →
    EndsAlike same (Process.whileBelow count p a.1 a.2) (Process.whileBelow count q a.1 t))
    (whileBelow_eq_some.1 hr) ?_ t hst result hr
  rintro ⟨finished, s⟩ - ih t hst
  dsimp only at ih hst ⊢
  cases hc : count.exceeds finished with
  | false =>
    rw [whileBelow_of_not_exceeds hc, whileBelow_of_not_exceeds hc]
    exact .of_alike (.ok () hst)
  | true =>
    rw [whileBelow_of_exceeds hc, whileBelow_of_exceeds hc]
    refine .bind (h s t hst) fun a s' t' hp hst' => ih (finished + 1, s') ?_ t' hst'
    rw [round, if_pos hc, hp]
    exact (Part.mem_map_iff _).2 ⟨_, Part.mem_some _, rfl⟩

theorem header {n m : Nat} (hn : same n m) (isEmpty : Bool) {p q : Process Unit}
    (h : Follows same p q) (header : Header) :
    Follows same (header.eval n isEmpty p) (header.eval m isEmpty q) := by
  cases header with
  | rounds count =>
    refine bind (ofRun fun _ _ hst => hst.roundCount hn count) fun number => ?_
    cases isEmpty with
    | true => exact pure ()
    | false => exact whileBelow h number 0
  | test subject operator value =>
    refine bind (ofRun fun _ _ hst => hst.testHolds subject operator value) fun holds => ?_
    cases holds with
    | true => exact h
    | false => exact pure ()

theorem action (budget : Int) {n m : Nat} (hn : same n m) (action : Action) :
    Follows same (action.eval budget n) (action.eval budget m) := by
  cases action with
  | fails fault => exact ofRun fun _ _ hst => .error (.failed _ hn) hst
  | simple statement => exact ofRun fun _ _ hst => hst.runSimple hn statement
  | inline header body => exact Follows.header hn false (runInline budget hn body) header

end Process.Follows

theorem Matching.follows (budget : Int) {nodes nodes' : List Node}
    (h : Matching same nodes nodes') :
    Process.Follows same (evalAll budget nodes) (evalAll budget nodes') := by
  induction h with
  | nil =>
    rw [evalAll]
    exact .pure ()
  | leaf action ht hn _ ih =>
    rw [evalAll, evalAll, Node.eval, Node.eval, ht]
    exact .bind (.bind (.enter budget _) fun _ => .action budget hn action) fun _ => ih
  | owner header ht hn hb _ ihb ih =>
    rw [evalAll, evalAll, Node.eval, Node.eval, ht, hb.isEmpty_eq]
    exact .bind (.bind (.enter budget _) fun _ => .header hn _ ihb header) fun _ => ih

end BlockScript.Script
