import BlockScript.Proofs.Bindings
import BlockScript.Proofs.Conversion.Layout
import BlockScript.Proofs.Engine.Agenda

/-!
# One line beside one block

A program and its script agree on every variable, where one that the program has
not bound yet is zero in the script. A line that owns no others does to its state
what its block does to the store, and shows what the block is to show.
-/

set_option autoImplicit false

namespace BlockScript

open Script Script.Generate

namespace Execution

def counts (x : Execution) : Bool := x.block.kind? != some .start

/-- What a script shows for a block that is executed: what the program prints,
and each wait and move as it stands in the script. -/
def echo (x : Execution) : List String :=
  match x.block.kind? with
  | some .print =>
    match x.block.effect x.before.vars with
    | .ok (.say text) => ["> " ++ text]
    | _ => []
  | some .wait =>
    match displayParam x.block "seconds" with
    | .ok seconds => ["> Executing: time.sleep(" ++ seconds ++ ")"]
    | .error _ => []
  | some .move =>
    match bareParam x.block "direction" with
    | .ok direction => ["> Executing: avatar.move(\"" ++ direction ++ "\")"]
    | .error _ => []
  | _ => []

theorem echo_of_not_action {b : Block} {kind : Kind} (hk : b.kind? = some kind)
    (hc : kind.category ≠ .action) (s : Store) : echo ⟨b, s⟩ = [] := by
  rw [echo]
  dsimp only
  rw [hk]
  cases kind with
  | print | wait | move => exact absurd rfl hc
  | start | loop | loopUntil | branch | setVar | changeVar => rfl

def Bound (names : List String) (x : Execution) : Prop :=
  ∀ m, x.block.kind? = some .print → x.block.param "message" = .ok (.text m) → m ∈ names →
    (x.before.vars.get? (.text m)).isSome = true

end Execution

/-- The variables of a program and of its script, where the program has bound none but those. -/
structure Agrees (names : List String) (s : Store) (σ : State) : Prop where
  value : ∀ x ∈ names, σ.vars.get? x = some (.number ((s.vars.get? (.text x)).getD (.int 0)))
  listed : ∀ x, (s.vars.get? (.text x)).isSome = true → x ∈ names

structure After (names : List String) (σ : State) (t : List Execution) (s : Store)
    (σ' : State) : Prop where
  agrees : Agrees names s σ'
  steps : σ'.steps = σ.steps + t.countP Execution.counts
  output : σ'.output.toList = σ.output.toList ++ t.flatMap Execution.echo

namespace After

variable {names : List String} {σ σ₁ σ₂ : State} {t u : List Execution} {s s₁ : Store}

theorem refl (h : Agrees names s σ) : After names σ [] s σ := ⟨h, rfl, by simp⟩

theorem trans (h : After names σ t s σ₁) (h' : After names σ₁ u s₁ σ₂) :
    After names σ (t ++ u) s₁ σ₂ where
  agrees := h'.agrees
  steps := by rw [h'.steps, h.steps, List.countP_append, Nat.add_assoc]
  output := by rw [h'.output, h.output, List.flatMap_append, List.append_assoc]

end After

namespace Agrees

variable {names : List String} {s : Store} {σ : State}

theorem of_vars (h : Agrees names s σ) {s' : Store} {σ' : State} (hs : s'.vars = s.vars)
    (hσ : σ'.vars = σ.vars) : Agrees names s' σ' := by
  constructor
  · rw [hs, hσ]
    exact h.value
  · rw [hs]
    exact h.listed

theorem put (h : Agrees names s σ) {x : String} (hx : x ∈ names) (n : Number) {s' : Store}
    {σ' : State} (hs : s'.vars = s.vars.put (.text x) n)
    (hσ : σ'.vars = σ.vars.put x (.number n)) : Agrees names s' σ' := by
  constructor
  · intro y hy
    rw [hs, hσ, get?_put_text, get?_put_string]
    by_cases hyx : y = x
    · rw [if_pos hyx, if_pos hyx]
      rfl
    · rw [if_neg hyx, if_neg hyx]
      exact h.value y hy
  · intro y hy
    rw [hs, get?_put_text] at hy
    by_cases hyx : y = x
    · rw [hyx]
      exact hx
    · rw [if_neg hyx] at hy
      exact h.listed y hy

theorem resolve_name (h : Agrees names s σ) {x : String} (hx : x ∈ names) :
    resolve σ.vars (.name x) = .number ((s.vars.get? (.text x)).getD (.int 0)) := by
  rw [resolve, h.value x hx]
  rfl

end Agrees

/-- A change of the script that is what the effect of a block comes to. -/
structure Mirrors (names : List String) (x : Execution) (effect : Effect) (σ : State)
    (change : Change) : Prop where
  agrees : Agrees names (x.before.apply effect) (σ.apply change)
  shown : (σ.apply change).output.toList = σ.output.toList ++ x.echo

section Leaves

variable {names : List String} {b : Block} {s : Store} {σ : State} {effect : Effect}

theorem mirrors_say (ha : Agrees names s σ) {text line : String}
    (hx : Execution.echo ⟨b, s⟩ = ["> " ++ line]) :
    Mirrors names ⟨b, s⟩ (.say text) σ (.say line) where
  agrees := ha.of_vars rfl rfl
  shown := by rw [hx]; exact Array.toList_push

theorem mirrors_put (ha : Agrees names s σ) {x : String} (hx : x ∈ names) {n : Number}
    (he : Execution.echo ⟨b, s⟩ = []) :
    Mirrors names ⟨b, s⟩ (.put (.text x) n) σ (.put x (.number n)) where
  agrees := ha.put hx n rfl rfl
  shown := by rw [he, List.append_nil]; rfl

/-- A printed message is what the variable of that name shows, or the message itself. -/
theorem mirrors_print (ha : Agrees names s σ) {m : String} {operand : Operand}
    (hk : b.kind? = some .print) (hm : b.param "message" = .ok (.text m))
    (he : b.effect s.vars = .ok effect)
    (hd : ∀ text, Block.messageText (.text m) s.vars = .ok text →
      (resolve σ.vars operand).display = .ok text) :
    ∃ change, (Simple.print [operand]).change σ.vars = .ok change ∧
      Mirrors names ⟨b, s⟩ effect σ change := by
  have hb : b.effect s.vars = (do
      let text ← Block.messageText (.text m) s.vars
      return .say text) := by
    rw [Block.effect, hk]
    dsimp only
    rw [Block.effectOf, hm]
    rfl
  rw [hb] at he
  obtain ⟨text, ht, he⟩ := Except.exists_of_bind_eq_ok he
  cases he
  refine ⟨.say text, ?_, mirrors_say ha ?_⟩
  · rw [Simple.change, displayAll, List.mapM_cons, List.mapM_nil, hd text ht]
    change Except.ok (Change.say (" ".intercalate [text])) = _
    rw [String.intercalate_singleton]
  · rw [Execution.echo]
    dsimp only
    rw [hk, hb, ht]
    rfl

theorem mirrors_printName (ha : Agrees names s σ) {x : String} (hb : b.Says (.printName x))
    (hx : x ∈ names) (he : b.effect s.vars = .ok effect) (hbd : Execution.Bound names ⟨b, s⟩) :
    ∃ change, (Simple.print [.name x]).change σ.vars = .ok change ∧
      Mirrors names ⟨b, s⟩ effect σ change := by
  apply mirrors_print ha hb.1 hb.2 he
  intro text ht
  obtain ⟨n, hn⟩ := Option.isSome_iff_exists.1 (hbd x hb.1 hb.2 hx)
  dsimp only at hn
  rw [Block.messageText, hn] at ht
  rw [ha.resolve_name hx, hn]
  exact ht

theorem mirrors_printText (ha : Agrees names s σ) {m : String} (hb : b.Says (.printText m))
    (hm : m ∉ names) (he : b.effect s.vars = .ok effect) :
    ∃ change, (Simple.print [.text m]).change σ.vars = .ok change ∧
      Mirrors names ⟨b, s⟩ effect σ change := by
  apply mirrors_print ha hb.1 hb.2 he
  intro text ht
  have hn : s.vars.get? (.text m) = none := by
    rw [← Option.not_isSome_iff_eq_none]
    exact fun h => hm (ha.listed m h)
  rw [Block.messageText, hn] at ht
  exact ht

theorem mirrors_trace (ha : Agrees names s σ) {c : Command} {kind : Kind}
    (hk : b.kind? = some kind) (hkind : kind = .wait ∨ kind = .move)
    (hx : Execution.echo ⟨b, s⟩ = ["> " ++ ("Executing: " ++ c.line)])
    (he : b.effect s.vars = .ok effect) :
    ∃ change, (Simple.trace c.line).change σ.vars = .ok change ∧
      Mirrors names ⟨b, s⟩ effect σ change := by
  have hsay : ∃ text, effect = .say text := by
    rw [Block.effect, hk] at he
    rcases hkind with rfl | rfl
    all_goals
      obtain ⟨v, -, he⟩ := Except.exists_of_bind_eq_ok he
      obtain ⟨shown, -, he⟩ := Except.exists_of_bind_eq_ok he
      cases he
      exact ⟨_, rfl⟩
  obtain ⟨text, rfl⟩ := hsay
  exact ⟨.say ("Executing: " ++ c.line), rfl, mirrors_say ha hx⟩

theorem echo_wait {n : Int} (hb : b.Says (.wait n)) (hn : IsShort n) :
    Execution.echo ⟨b, s⟩ = ["> " ++ ("Executing: " ++ Command.line (.wait n))] := by
  rw [Execution.echo]
  dsimp only
  rw [hb.1]
  dsimp only
  rw [displayParam_of_int hb.2 hn]
  apply congrArg (fun line : String => [line])
  apply String.toList_injective
  simp [Command.line, Command.toList_surround]

theorem echo_move {d : String} (hb : b.Says (.move d)) :
    Execution.echo ⟨b, s⟩ = ["> " ++ ("Executing: " ++ Command.line (.move d))] := by
  rw [Execution.echo]
  dsimp only
  rw [hb.1]
  dsimp only
  rw [bareParam_of_text hb.2]
  apply congrArg (fun line : String => [line])
  apply String.toList_injective
  simp [Command.line, Command.toList_surround]

theorem mirrors_set (ha : Agrees names s σ) {x : String} {n : Int} (hb : b.Says (.set x n))
    (hx : x ∈ names) (he : b.effect s.vars = .ok effect) :
    ∃ change, (Simple.assign x (.number (.int n))).change σ.vars = .ok change ∧
      Mirrors names ⟨b, s⟩ effect σ change := by
  obtain ⟨hk, hname, hvalue⟩ := hb
  rw [Block.effect, hk] at he
  dsimp only at he
  rw [Block.effectOf, hname, hvalue] at he
  cases he
  exact ⟨_, rfl, mirrors_put ha hx (Execution.echo_of_not_action hk (by decide) s)⟩

theorem mirrors_change (ha : Agrees names s σ) {x : String} {n : Int} (hb : b.Says (.change x n))
    (hx : x ∈ names) (he : b.effect s.vars = .ok effect) :
    ∃ change, (Simple.increase x (.number (.int n))).change σ.vars = .ok change ∧
      Mirrors names ⟨b, s⟩ effect σ change := by
  obtain ⟨hk, hname, hvalue⟩ := hb
  rw [Block.effect, hk] at he
  dsimp only at he
  rw [Block.effectOf, hname, hvalue] at he
  obtain ⟨sum, hs, he⟩ := Except.exists_of_bind_eq_ok
    (x := ((s.vars.get? (.text x)).getD (.int 0)).add (.int n)) he
  cases he
  have hq := Execution.echo_of_not_action hk (by decide) s
  refine ⟨.put x (.number sum), ?_, mirrors_put ha hx hq⟩
  rw [Simple.change, ha.value x hx, Option.getD_some, resolve, Datum.add, hs]
  rfl

theorem exists_change (ha : Agrees names s σ) {c : Command} (hb : b.Says c)
    (hp : c.Proper names) {statement : Simple} (hs : c.statement? = some (.simple statement))
    (he : b.effect s.vars = .ok effect) (hbd : Execution.Bound names ⟨b, s⟩) :
    ∃ change, statement.change σ.vars = .ok change ∧ Mirrors names ⟨b, s⟩ effect σ change := by
  cases c with
  | start | loop | branch => cases hs
  | printName x => cases hs; exact mirrors_printName ha hb hp he hbd
  | printText m => cases hs; exact mirrors_printText ha hb hp.1 he
  | wait n => cases hs; exact mirrors_trace ha hb.1 (Or.inl rfl) (echo_wait hb hp) he
  | move d => cases hs; exact mirrors_trace ha hb.1 (Or.inr rfl) (echo_move hb) he
  | set x n => cases hs; exact mirrors_set ha hb hp.1 he
  | change x n => cases hs; exact mirrors_change ha hb hp.1 he

end Leaves

end BlockScript
