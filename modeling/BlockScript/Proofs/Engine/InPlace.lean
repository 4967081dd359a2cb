import BlockScript.Engine.Step
import BlockScript.Proofs.Bindings
import BlockScript.Proofs.Failure
import BlockScript.Proofs.Number.Range

/-!
# Executing a block in place

A block can be executed by changing the variables, the console and the frames one
write at a time, as its parameters are read. A block that changes a variable then
binds it to zero first if it is not bound yet, and adds afterwards. This comes to
the effect of the block: writes that a failure would leave behind are never made,
because adding to a zero that was just bound does not fail.
-/

set_option autoImplicit false

namespace BlockScript

structure Machine where
  store : Store
  stack : List Frame

namespace Machine

def say (line : String) : EStateM Fault Machine Unit :=
  modify fun m => { m with store.console := m.store.console.push ("> " ++ line) }

def bindTo (name : VarName) (n : Number) : EStateM Fault Machine Unit :=
  modify fun m => { m with store.vars := m.store.vars.put name n }

def push (frame : Frame) : EStateM Fault Machine Unit :=
  modify fun m => { m with stack := frame :: m.stack }

def vars : EStateM Fault Machine (Bindings VarName Number) := do return (← get).store.vars

def ensureBound (name : VarName) : EStateM Fault Machine Unit := do
  unless (← vars).contains name do
    bindTo name (.int 0)

def addInPlace (name : VarName) (delta : Number) : EStateM Fault Machine Unit := do
  ensureBound name
  let current := ((← vars).get? name).getD (.int 0)
  bindTo name (← ofExcept (current.add delta))

end Machine

open Machine

namespace Block

def executeOf (b : Block) : Kind → EStateM Fault Machine Unit
  | .start => say "Program Started"
  | .print => do
    let message ← ofExcept (b.param "message")
    say (← ofExcept (messageText message (← vars)))
  | .setVar => do
    let name ← ofExcept (b.param "name")
    let value ← ofExcept (b.param "value")
    let n ← ofExcept value.toNumber
    bindTo (← ofExcept (VarName.ofValue name)) n
  | .changeVar => do
    let name ← ofExcept (b.param "name")
    let value ← ofExcept (b.param "value")
    let delta ← ofExcept value.toNumber
    addInPlace (← ofExcept (VarName.ofValue name)) delta
  | .wait => do
    let seconds ← ofExcept (b.param "seconds")
    let seconds ← ofExcept seconds.display
    say s!"Waiting {seconds}s..."
  | .move => do
    let direction ← ofExcept (b.param "direction")
    let direction ← ofExcept direction.bare
    say s!"Avatar moving {direction}"
  | .loop => do
    if b.hasChildren then push ⟨b.body, 0, .times 0 b.roundLimit⟩
  | .loopUntil => do
    if b.hasChildren then
      let condition ← ofExcept b.condition
      unless condition.holdsIn (← vars) do
        push ⟨b.body, 0, .untilHolds condition⟩
  | .branch => do
    if b.hasChildren then
      let condition ← ofExcept b.condition
      if condition.holdsIn (← vars) then
        push ⟨b.body, 0, .once⟩

def execute (b : Block) : EStateM Fault Machine Unit :=
  match b.kind? with
  | some kind => b.executeOf kind
  | none => pure ()

end Block

namespace Machine

def after (m : Machine) : Except Fault Effect → EStateM.Result Fault Machine Unit
  | .ok effect => .ok () ⟨m.store.apply effect, effect.frame?.toList ++ m.stack⟩
  | .error fault => .error fault m

variable {α : Type}

theorem ofExcept_bind {x : Except Fault α} {next : α → EStateM Fault Machine Unit}
    {rest : α → Except Fault Effect} {m : Machine} (h : ∀ a, next a m = m.after (rest a)) :
    (ofExcept x >>= next) m = m.after (x >>= rest) := by
  cases x with
  | ok a => exact h a
  | error fault => rfl

theorem ok_bind {run : EStateM Fault Machine Unit} {m m' : Machine} (h : run m = .ok () m')
    (next : Unit → EStateM Fault Machine Unit) : (run >>= next) m = next () m' := by
  change EStateM.bind run next m = _
  rw [EStateM.bind, h]

theorem vars_bind (next : Bindings VarName Number → EStateM Fault Machine Unit) (m : Machine) :
    (vars >>= next) m = next m.store.vars m := rfl

end Machine

namespace Number

theorem order?_self {n : Number} (h : n.payload? = none) : n.order? n = some .eq := by
  cases n with
  | int n => simp [order?]
  | float x =>
    cases x with
    | finite negative rank => simp [order?, place?, Place.order]
    | infinity negative => cases negative <;> rfl
    | nan payload => cases h

end Number

theorem VarName.beq_self (name : VarName) : (name == name) = true := by
  change same name name = true
  cases name with
  | null => rfl
  | text s => simp [same]
  | bool b => cases b <;> rfl
  | number n =>
    cases hp : n.payload? with
    | none => simp [same, number?, Number.order?_self hp]
    | some payload => simp [same, number?, hp]

theorem Bindings.put_put {κ α : Type} [BEq κ] {key : κ} (hk : (key == key) = true)
    (bindings : Bindings κ α) (first second : α) :
    (bindings.put key first).put key second = bindings.put key second := by
  induction bindings with
  | nil => simp [put, hk]
  | cons binding rest ih =>
    obtain ⟨k, v⟩ := binding
    by_cases h : (key == k) = true <;> simp [put, h, ih]

namespace Machine

theorem addInPlace_of_bound {name : VarName} {m : Machine} {current : Number}
    (h : m.store.vars.get? name = some current) (delta : Number) :
    addInPlace name delta m = m.after (do return .put name (← current.add delta)) := by
  have he : ensureBound name m = .ok () m := by
    have hc : m.store.vars.contains name = true := by simp [Bindings.contains, h]
    rw [ensureBound, vars_bind, hc]
    rfl
  rw [addInPlace, ok_bind he, vars_bind, h]
  exact ofExcept_bind fun sum => rfl

/-- The zero that is bound first is written over by the sum, and there always is one. -/
theorem addInPlace_of_unbound {name : VarName} {m : Machine}
    (h : m.store.vars.get? name = none) (delta : Number) :
    addInPlace name delta m = m.after (do return .put name (← (Number.int 0).add delta)) := by
  have hb := VarName.beq_self name
  have he : ensureBound name m =
      .ok () { m with store.vars := m.store.vars.put name (.int 0) } := by
    have hc : m.store.vars.contains name = false := by simp [Bindings.contains, h]
    rw [ensureBound, vars_bind, hc]
    rfl
  rw [addInPlace, ok_bind he, vars_bind, Bindings.get?_put_self hb, Option.getD_some]
  cases hs : (Number.int 0).add delta with
  | error fault =>
    have hm := (Number.fails_add_iff _ _).1 ⟨fault, hs⟩
    exact absurd hm (Number.not_misfit_zero delta)
  | ok sum =>
    have hp := Bindings.put_put hb m.store.vars (Number.int 0) sum
    change EStateM.Result.ok () (Machine.mk ⟨_, _⟩ _) = _
    rw [hp]
    rfl

end Machine

namespace Block

theorem executeOf_eq (b : Block) (kind : Kind) (m : Machine) :
    b.executeOf kind m = m.after (b.effectOf m.store.vars kind) := by
  cases kind with
  | start => rfl
  | print =>
    refine ofExcept_bind fun message => ?_
    rw [vars_bind]
    exact ofExcept_bind fun text => rfl
  | setVar =>
    refine ofExcept_bind fun name => ?_
    refine ofExcept_bind fun value => ?_
    refine ofExcept_bind fun n => ?_
    exact ofExcept_bind fun name => rfl
  | changeVar =>
    refine ofExcept_bind fun name => ?_
    refine ofExcept_bind fun value => ?_
    refine ofExcept_bind fun delta => ?_
    refine ofExcept_bind fun name => ?_
    cases h : m.store.vars.get? name with
    | none => exact addInPlace_of_unbound h delta
    | some current => exact addInPlace_of_bound h delta
  | wait =>
    refine ofExcept_bind fun seconds => ?_
    exact ofExcept_bind fun text => rfl
  | move =>
    refine ofExcept_bind fun direction => ?_
    exact ofExcept_bind fun text => rfl
  | loop =>
    rw [executeOf, effectOf]
    cases b.hasChildren <;> rfl
  | loopUntil =>
    rw [executeOf, effectOf]
    cases b.hasChildren with
    | false => rfl
    | true =>
      refine ofExcept_bind fun condition => ?_
      rw [vars_bind]
      cases condition.holdsIn m.store.vars <;> rfl
  | branch =>
    rw [executeOf, effectOf]
    cases b.hasChildren with
    | false => rfl
    | true =>
      refine ofExcept_bind fun condition => ?_
      rw [vars_bind]
      cases condition.holdsIn m.store.vars <;> rfl

/-- Executing a block in place comes to its effect, and to nothing if it fails. -/
theorem execute_eq (b : Block) (m : Machine) : b.execute m = m.after (b.effect m.store.vars) := by
  unfold execute effect
  cases b.kind? with
  | none => rfl
  | some kind => exact executeOf_eq b kind m

end Block

end BlockScript
