import BlockScript.Block.Catalog
import BlockScript.Variables

/-!
# Effects of blocks

A block gives one variable a value, adds one line to the console, opens a frame
over the blocks inside it, or does nothing. Which of these it does depends on its
parameters and on the variables alone, and a block that fails does none of them.
-/

set_option autoImplicit false

namespace BlockScript

/-- What happens when all blocks of a frame have been executed. -/
inductive Mode where
  | once
  | times (finished : Nat) (limit : Number)
  | untilHolds (condition : Condition)
  deriving Repr

structure Frame where
  blocks : List Block
  position : Nat
  mode : Mode
  deriving Repr

structure Store where
  vars : Bindings VarName Number
  console : Array String
  deriving Repr

/-- What executing one block comes to. -/
inductive Effect where
  | nothing
  | say (line : String)
  | put (name : VarName) (n : Number)
  | opens (frame : Frame)
  deriving Repr

namespace Effect

def frame? : Effect → Option Frame
  | .opens frame => some frame
  | _ => none

end Effect

namespace Store

def empty : Store := ⟨[], #[]⟩

def apply (store : Store) : Effect → Store
  | .say line => { store with console := store.console.push ("> " ++ line) }
  | .put name n => { store with vars := store.vars.put name n }
  | .nothing | .opens _ => store

end Store

def Condition.holdsIn (condition : Condition) (vars : Bindings VarName Number) : Bool :=
  condition.holds ((vars.get? condition.subject).map .number)

def Mode.again? (vars : Bindings VarName Number) : Mode → Option Mode
  | .once => none
  | .times finished limit =>
    if limit.exceeds (finished + 1) then some (.times (finished + 1) limit) else none
  | .untilHolds condition =>
    if condition.holdsIn vars then none else some (.untilHolds condition)

namespace Block

def roundLimit (b : Block) : Number :=
  match b.param "times" with
  | .ok v =>
    match v.toNumber with
    | .ok n => if n.isZero then .int 1 else n
    | .error _ => .int 1
  | .error _ => .int 1

def condition (b : Block) : Except Fault Condition := do
  let subject ← b.param "condition_var"
  let operator ← b.param "operator"
  let value ← b.param "value"
  return ⟨← VarName.ofValue subject, operator, value⟩

def messageText (message : Value) (vars : Bindings VarName Number) : Except Fault String :=
  match message with
  | .text s =>
    match vars.get? (.text s) with
    | some n => n.display
    | none => .ok s
  | v => v.display

def effectOf (b : Block) (vars : Bindings VarName Number) : Kind → Except Fault Effect
  | .start => .ok (.say "Program Started")
  | .print => do
    let text ← messageText (← b.param "message") vars
    return .say text
  | .setVar => do
    let name ← b.param "name"
    let n ← (← b.param "value").toNumber
    return .put (← VarName.ofValue name) n
  | .changeVar => do
    let name ← b.param "name"
    let delta ← (← b.param "value").toNumber
    let name ← VarName.ofValue name
    let sum ← ((vars.get? name).getD (.int 0)).add delta
    return .put name sum
  | .wait => do
    let seconds ← (← b.param "seconds").display
    return .say s!"Waiting {seconds}s..."
  | .move => do
    let direction ← (← b.param "direction").bare
    return .say s!"Avatar moving {direction}"
  | .loop =>
    .ok (if b.hasChildren then .opens ⟨b.body, 0, .times 0 b.roundLimit⟩ else .nothing)
  | .loopUntil =>
    if b.hasChildren then do
      let condition ← b.condition
      return if condition.holdsIn vars then .nothing
        else .opens ⟨b.body, 0, .untilHolds condition⟩
    else .ok .nothing
  | .branch =>
    if b.hasChildren then do
      let condition ← b.condition
      return if condition.holdsIn vars then .opens ⟨b.body, 0, .once⟩ else .nothing
    else .ok .nothing

def effect (b : Block) (vars : Bindings VarName Number) : Except Fault Effect :=
  match b.kind? with
  | some kind => b.effectOf vars kind
  | none => .ok .nothing

end Block

end BlockScript
