import BlockScript.Proofs.Conversion.Agreement

/-!
# A script follows its program

The tree of a generated script is evaluated beside the structured meaning of the
program. One block is one step of the script, the start of a program apart; a
body is entered when the program enters it, and as often.
-/

set_option autoImplicit false

namespace BlockScript

open Script Script.Generate

namespace Script.Process

theorem bind_congr {p q : Process Unit} {σ : State} (h : p σ = q σ)
    (next : Unit → Process Unit) : (p >>= next) σ = (q >>= next) σ := by
  change Process.bind p next σ = Process.bind q next σ
  rw [Process.bind, Process.bind, h]

theorem whileBelow_of_le {n : Int} {finished : Nat} (h : n ≤ finished) (body : Process Unit)
    (σ : State) : whileBelow (.int n) body finished σ = some (.ok () σ) := by
  have he : (Number.int n).exceeds finished = false := by
    rw [← Bool.not_eq_true, Number.exceeds_int]
    omega
  exact whileBelow_of_not_exceeds he body σ

theorem whileBelow_of_lt {n : Int} {finished : Nat} (h : finished < n) {body : Process Unit}
    {σ σ' : State} (hb : body σ = some (.ok () σ')) :
    whileBelow (.int n) body finished σ = whileBelow (.int n) body (finished + 1) σ' := by
  rw [whileBelow_of_exceeds ((Number.exceeds_int n finished).2 h), bind_of_ok hb]

theorem whileBelow_pure (n : Int) (finished : Nat) (σ : State) :
    whileBelow (.int n) (pure ()) finished σ = some (.ok () σ) := by
  generalize hk : (n - finished).toNat = k
  induction k generalizing finished with
  | zero => exact whileBelow_of_le (by omega) _ σ
  | succ k ih =>
    rw [whileBelow_of_lt (by omega) (show (pure () : Process Unit) σ = some (.ok () σ) from rfl)]
    exact ih (finished + 1) (by omega)

end Script.Process

def Matches (budget : Int) (names : List String) : Task → Process Unit → Prop
  | .blocks bs, p => ∃ nodes, Renders names bs nodes ∧ p = evalAll budget nodes
  | .times k body, p => ∃ (n : Int) (finished : Nat) (nodes : List Node),
      k = (n - finished).toNat ∧ Renders names body nodes ∧
        p = Process.whileBelow (.int n) (evalAll budget nodes) finished
  | .untilHolds _ _, _ => False

theorem matches_nothing (budget : Int) (names : List String) :
    Matches budget names (.blocks []) (pure ()) := ⟨[], .nil, by rw [evalAll]⟩

theorem Renders.eq_nil {names : List String} {nodes : List Node} (h : Renders names [] nodes) :
    nodes = [] := by
  cases h
  rfl

theorem Renders.eq_nil_of_childless {names : List String} {b : Block} {nodes : List Node}
    (h : Renders names b.body nodes) (hc : b.hasChildren = false) : nodes = [] := by
  have hb : b.body = [] := by simpa [Block.hasChildren] using hc
  rw [hb] at h
  exact h.eq_nil

section Owners

variable {budget : Int} {names : List String} {b : Block} {s : Store} {σ : State}
  {nodes : List Node}

theorem rounds_matches {n : Int} (hb : b.Says (.loop n)) (hn : 1 ≤ n)
    (hr : Renders names b.body nodes) (number : Nat) (σ : State) :
    ∃ p, Matches budget names (b.inner s.vars) p ∧
      (Header.rounds (.number (.int n))).eval number nodes.isEmpty (evalAll budget nodes) σ =
        p σ := by
  -- a body of nothing but comments makes no rounds, and rounds over it would do nothing
  have hw : (Header.rounds (.number (.int n))).eval number nodes.isEmpty (evalAll budget nodes) σ =
      Process.whileBelow (.int n) (evalAll budget nodes) 0 σ := by
    cases nodes with
    | nil =>
      rw [evalAll, Process.whileBelow_pure]
      rfl
    | cons node rest => rfl
  rw [hw]
  cases hc : b.hasChildren with
  | false =>
    rw [hr.eq_nil_of_childless hc, evalAll, Process.whileBelow_pure]
    refine ⟨pure (), ?_, rfl⟩
    rw [Block.inner, hc]
    exact matches_nothing budget names
  | true =>
    have hp : b.passes = (n - (0 : Nat)).toNat := by
      rw [Block.passes, hb.2]
      change ((max 1 n.toNat : ℕ) : ℕ∞) = _
      congr 1
      omega
    refine ⟨_, ?_, rfl⟩
    rw [Block.inner, hc, hb.1]
    exact ⟨n, 0, nodes, hp, hr, rfl⟩

/-- A condition holds in a program exactly if its test does in the script. -/
theorem holdsIn_eq (ha : Agrees names s σ) {x : String} (hx : x ∈ names)
    (comparison : Comparison) (n : Int) :
    Condition.holdsIn ⟨.text x, .text comparison.symbol, .int n⟩ s.vars =
      (resolve σ.vars (.name x)).toValue.holds (.text comparison.symbol)
        (resolve σ.vars (.number (.int n))).toValue := by
  rw [ha.resolve_name hx, Condition.holdsIn, Condition.holds]
  cases s.vars.get? (.text x) <;> rfl

theorem test_matches (ha : Agrees names s σ) {x : String} {comparison : Comparison} {n : Int}
    (hb : b.Says (.branch x comparison n)) (hx : x ∈ names) (hr : Renders names b.body nodes)
    (number : Nat) :
    ∃ p, Matches budget names (b.inner s.vars) p ∧
      (Header.test (.name x) comparison.symbol (.number (.int n))).eval number nodes.isEmpty
        (evalAll budget nodes) σ = p σ := by
  obtain ⟨hk, hsubject, hoperator, hvalue⟩ := hb
  have hcond : b.condition = .ok ⟨.text x, .text comparison.symbol, .int n⟩ := by
    rw [Block.condition, hsubject, hoperator, hvalue]
    rfl
  have ht : (Header.test (.name x) comparison.symbol (.number (.int n))).eval number nodes.isEmpty
      (evalAll budget nodes) σ =
      (if Condition.holdsIn ⟨.text x, .text comparison.symbol, .int n⟩ s.vars then
        evalAll budget nodes else pure ()) σ := by
    rw [holdsIn_eq ha hx]
    rfl
  refine ⟨_, ?_, ht⟩
  cases hc : b.hasChildren with
  | false =>
    rw [hr.eq_nil_of_childless hc, evalAll, ite_self, Block.inner, hc]
    exact matches_nothing budget names
  | true =>
    rw [Block.inner, hc, hk, hcond, if_pos rfl]
    dsimp only
    split
    · exact ⟨nodes, hr, rfl⟩
    · exact matches_nothing budget names

end Owners

section Runs

variable {budget : Int} {names : List String} {b : Block} {bs : List Block} {s : Store}
  {σ : State} {effect : Effect} {nodes : List Node}

theorem after_entered (ha : Agrees names s σ) (hv : (s.apply effect).vars = s.vars)
    (hc : Execution.counts ⟨b, s⟩ = true) (he : Execution.echo ⟨b, s⟩ = []) (line : Line) :
    After names σ [⟨b, s⟩] (s.apply effect) (σ.entered line.number line.text) where
  agrees := ha.of_vars hv rfl
  steps := by rw [List.countP_cons_of_pos hc]; rfl
  output := by rw [List.flatMap_singleton, he, List.append_nil]; rfl

theorem eval_of_entered (line : Line) (hb : (σ.steps + 1 : Nat) ≤ budget) (p : Process Unit) :
    (Process.ofRun (enter budget line.number line.text) >>= fun _ => p) σ =
      p (σ.entered line.number line.text) := by
  apply Process.bind_of_ok
  rw [Process.ofRun, enter_of_le hb]

theorem counts_of_statement {c : Command} (hb : b.Says c) {st : Statement}
    (hs : c.statement? = some st) : Execution.counts ⟨b, s⟩ = true := by
  cases c with
  | start => cases hs
  | printName x | printText x | wait x | move x | set x n | change x n | loop n | branch x m n =>
    simp [Execution.counts, hb.1]

theorem inner_of_leaf {c : Command} (hb : b.Says c)
    (hs : ∀ header, c.statement? ≠ some (.block header none)) : b.inner s.vars = .blocks [] := by
  apply Block.inner_of_not_nests
  intro kind hk
  cases hn : kind.nests with
  | false => rfl
  | true =>
    obtain ⟨header, hh⟩ := Command.exists_header hb hk hn
    exact absurd hh (hs header)

theorem echo_of_header {c : Command} (hb : b.Says c) {header : Header}
    (hs : c.statement? = some (.block header none)) : Execution.echo ⟨b, s⟩ = [] := by
  cases c with
  | loop n | branch x m n => exact Execution.echo_of_not_action hb.1 nofun s
  | start | printName x | printText x | wait x | move x | set x n | change x n => cases hs

theorem apply_vars_of_header {c : Command} (hb : b.Says c) {header : Header}
    (hs : c.statement? = some (.block header none)) (he : b.effect s.vars = .ok effect) :
    (s.apply effect).vars = s.vars := by
  cases c with
  | loop n =>
    rw [Block.effect, hb.1] at he
    dsimp only [Block.effectOf] at he
    split at he <;> cases he <;> rfl
  | branch x m n =>
    rw [Block.effect, hb.1] at he
    dsimp only [Block.effectOf] at he
    split at he
    · obtain ⟨condition, -, he⟩ := Except.exists_of_bind_eq_ok he
      cases he
      split <;> rfl
    · cases he
      rfl
  | start | printName x | printText x | wait x | move x | set x n | change x n => cases hs

theorem header_matches (ha : Agrees names s σ) {c : Command} (hb : b.Says c)
    (hp : c.Proper names) {header : Header} (hs : c.statement? = some (.block header none))
    (hr : Renders names b.body nodes) (number : Nat) :
    ∃ p, Matches budget names (b.inner s.vars) p ∧
      header.eval number nodes.isEmpty (evalAll budget nodes) σ = p σ := by
  cases c with
  | loop n => cases hs; exact rounds_matches hb hp.1 hr number σ
  | branch x m n => cases hs; exact test_matches ha hb hp.1 hr number
  | start | printName x | printText x | wait x | move x | set x n | change x n => cases hs

theorem after_start (hb : b.Says .start) (ha : Agrees names s σ)
    (he : b.effect s.vars = .ok effect) : After names σ [⟨b, s⟩] (s.apply effect) σ := by
  have hk : b.kind? = some .start := hb
  have hc : Execution.counts ⟨b, s⟩ = false := by simp [Execution.counts, hk]
  have hx := Execution.echo_of_not_action hk nofun s
  rw [Block.effect, hk] at he
  cases he
  exact ⟨ha.of_vars rfl rfl, by simp [hc], by simp [hx]⟩

theorem after_leaf {c : Command} (hb : b.Says c) (hp : c.Proper names) {statement : Simple}
    (hs : c.statement? = some (.simple statement)) (ha : Agrees names s σ)
    (he : b.effect s.vars = .ok effect) (hbd : Execution.Bound names ⟨b, s⟩)
    (hl : (σ.steps + 1 : Nat) ≤ budget) (line : Line) :
    ∃ σ₁, After names σ [⟨b, s⟩] (s.apply effect) σ₁ ∧
      (Node.leaf line (.simple statement)).eval budget σ = some (.ok () σ₁) := by
  have ha₁ : Agrees names s (σ.entered line.number line.text) := ha.of_vars rfl rfl
  obtain ⟨change, hch, hm⟩ := exists_change ha₁ hb hp hs he hbd
  refine ⟨(σ.entered line.number line.text).apply change, ⟨hm.agrees, ?_, ?_⟩, ?_⟩
  · rw [List.countP_cons_of_pos (counts_of_statement hb hs)]
    cases change <;> rfl
  · rw [hm.shown, List.flatMap_singleton]
    rfl
  · rw [Node.eval, eval_of_entered line hl, Action.eval, Process.ofRun, runSimple_apply, hch]

/-- One block: its line is executed if it has one, and what is left to do is what
the block goes on with and then the blocks after it. -/
theorem step_renders (hr : Renders names (b :: bs) nodes) (ha : Agrees names s σ)
    (he : b.effect s.vars = .ok effect) (hbd : Execution.Bound names ⟨b, s⟩)
    (hl : (σ.steps + [(⟨b, s⟩ : Execution)].countP Execution.counts : Nat) ≤ budget) :
    ∃ σ₁ p rest, After names σ [⟨b, s⟩] (s.apply effect) σ₁ ∧
      Matches budget names (b.inner s.vars) p ∧ Renders names bs rest ∧
      evalAll budget nodes σ = (p >>= fun _ => evalAll budget rest) σ₁ := by
  cases hr with
  | start hb hr =>
    have hi : b.inner s.vars = .blocks [] := inner_of_leaf hb nofun
    exact ⟨σ, pure (), nodes, after_start hb ha he, hi ▸ matches_nothing budget names, hr, rfl⟩
  | @leaf _ _ rest c line statement hb hp hs hr =>
    have hi : b.inner s.vars = .blocks [] := inner_of_leaf hb (by rw [hs]; nofun)
    rw [List.countP_cons_of_pos (counts_of_statement hb hs), List.countP_nil] at hl
    obtain ⟨σ₁, h₁, hev⟩ := after_leaf hb hp hs ha he hbd hl line
    refine ⟨σ₁, pure (), rest, h₁, hi ▸ matches_nothing budget names, hr, ?_⟩
    rw [evalAll, Process.bind_of_ok hev]
    rfl
  | @owner _ _ rest inner c line header hb hp hs hi hr =>
    rw [List.countP_cons_of_pos (counts_of_statement hb hs), List.countP_nil] at hl
    have h₁ := after_entered ha (apply_vars_of_header hb hs he) (counts_of_statement hb hs)
      (echo_of_header hb hs) line
    have ha₁ : Agrees names s (σ.entered line.number line.text) := ha.of_vars rfl rfl
    obtain ⟨p, hm, hev⟩ := header_matches ha₁ hb hp hs hi line.number
    refine ⟨_, p, rest, h₁, hm, hr, ?_⟩
    rw [evalAll, Node.eval, bind_assoc, eval_of_entered line hl]
    exact Process.bind_congr hev _

/-- A script does what its program does. The induction is on the meaning of the
program; in each case one step or one round of the script is matched. -/
theorem evaluates_of_runs {task : Task} {s' : Store} {t : List Execution} {o : Outcome}
    (h : Runs task s t o s') (ho : o = .done) {p : Process Unit}
    (hm : Matches budget names task p) (ha : Agrees names s σ)
    (hbd : ∀ x ∈ t, Execution.Bound names x)
    (hl : (σ.steps + t.countP Execution.counts : Nat) ≤ budget) :
    ∃ σ', p σ = some (.ok () σ') ∧ After names σ t s' σ' := by
  induction h generalizing p σ with
  | nothing =>
    obtain ⟨nodes, hr, rfl⟩ := hm
    rw [hr.eq_nil, evalAll]
    exact ⟨σ, rfl, After.refl ha⟩
  | fails => cases ho
  | failsInside => cases ho
  | @next b bs s s₁ s₂ effect t u o he hi hn ihi ihn =>
    obtain ⟨nodes, hr, rfl⟩ := hm
    rw [← List.singleton_append, List.countP_append, List.countP_append] at hl
    have hx : Execution.Bound names ⟨b, s⟩ := hbd _ List.mem_cons_self
    have hl₁ : (σ.steps + [(⟨b, s⟩ : Execution)].countP Execution.counts : Nat) ≤ budget := by
      omega
    obtain ⟨σ₁, p, rest, h₁, hm, hrest, hev⟩ := step_renders hr ha he hx hl₁
    obtain ⟨σ₂, hp, h₂⟩ := ihi rfl hm h₁.agrees (fun x hx => hbd x (by simp [hx]))
      (by rw [h₁.steps]; omega)
    obtain ⟨σ₃, hq, h₃⟩ := ihn ho ⟨rest, hrest, rfl⟩ h₂.agrees (fun x hx => hbd x (by simp [hx]))
      (by rw [h₂.steps, h₁.steps]; omega)
    refine ⟨σ₃, ?_, h₁.trans (h₂.trans h₃)⟩
    rw [hev, Process.bind_of_ok hp]
    exact hq
  | noRound hk =>
    obtain ⟨n, finished, nodes, hn, -, rfl⟩ := hm
    rw [hk] at hn
    have hle : (n - finished).toNat = 0 := by exact_mod_cast hn.symm
    exact ⟨σ, Process.whileBelow_of_le (by omega) _ σ, After.refl ha⟩
  | roundFails => cases ho
  | @round k body s s₁ s₂ t u o hk hb hr ihb ihr =>
    obtain ⟨n, finished, nodes, hn, hrd, rfl⟩ := hm
    rw [hn] at hk
    have hpos : (n - finished).toNat ≠ 0 := by exact_mod_cast hk
    have hnext : k - 1 = (n - (finished + 1 : Nat)).toNat := by
      have hpred : (n - (finished + 1 : Nat)).toNat = (n - finished).toNat - 1 := by omega
      rw [hn, hpred]
      rfl
    rw [List.countP_append] at hl
    obtain ⟨σ₁, hp, h₁⟩ := ihb rfl ⟨nodes, hrd, rfl⟩ ha (fun x hx => hbd x (by simp [hx]))
      (by omega)
    obtain ⟨σ₂, hq, h₂⟩ := ihr ho ⟨n, finished + 1, nodes, hnext, hrd, rfl⟩ h₁.agrees
      (fun x hx => hbd x (by simp [hx])) (by rw [h₁.steps]; omega)
    refine ⟨σ₂, ?_, h₁.trans h₂⟩
    rw [Process.whileBelow_of_lt (by omega) hp]
    exact hq
  | holds => exact absurd hm id
  | untilFails => cases ho
  | untilRound => exact absurd hm id

end Runs

end BlockScript
