import BlockScript.Engine.Effect

/-!
# The stepping engine

The engine keeps a stack of frames, the innermost first, and executes one block
a step. Before it does, it leaves or rewinds the frames that have come to their
end. It stops when no frame is left or when a block fails.
-/

set_option autoImplicit false

namespace BlockScript

inductive Status where
  | ready
  /-- The block with this id was executed last. -/
  | running (current : String)
  | finished
  | failed (current : String) (fault : Fault)
  deriving DecidableEq, Repr

structure Engine where
  program : Program
  stack : List Frame
  store : Store
  status : Status
  deriving Repr

inductive Event where
  | left (depth : Nat)
  | executing (id type : String)
  | ignored (type : String)
  | opened (blocks depth : Nat)
  | failed (id type : String) (fault : Fault)
  | finished (vars : Bindings VarName Number)
  deriving Repr

/-- The next block, its frame and the frames below it. Frames at their end are
rewound if they start again and left if they do not. -/
def settle (vars : Bindings VarName Number) :
    List Frame → Option (Block × Frame × List Frame)
  | [] => none
  | frame :: below =>
    match frame.blocks[frame.position]? with
    | some b => some (b, frame, below)
    | none =>
      match frame.mode.again? vars, frame.blocks with
      | some mode, b :: _ => some (b, ⟨frame.blocks, 0, mode⟩, below)
      | _, _ => settle vars below

namespace Engine

def start (program : Program) : Engine := ⟨program, [⟨program, 0, .once⟩], .empty, .ready⟩

def reset (e : Engine) : Engine := start e.program

def isTerminal (e : Engine) : Bool :=
  match e.status with
  | .finished | .failed _ _ => true
  | _ => false

def isRunning (e : Engine) : Bool :=
  match e.status with
  | .running _ => true
  | _ => false

def isFinished (e : Engine) : Bool := e.status == .finished

def current? (e : Engine) : Option String :=
  match e.status with
  | .running id | .failed id _ => some id
  | _ => none

def fault? (e : Engine) : Option Fault :=
  match e.status with
  | .failed _ fault => some fault
  | _ => none

def leaving (before after : Nat) : List Event :=
  ((List.range (before - after)).map fun n => .left (before - 1 - n))

def resume (opened : Option Frame) (frame : Frame) (below : List Frame) : List Frame :=
  opened.toList ++ { frame with position := frame.position + 1 } :: below

def eventsOf (b : Block) (opened : Option Frame) (depth : Nat) : List Event :=
  match opened with
  | some inner => [.executing b.id b.type, .opened inner.blocks.length depth]
  | none => .executing b.id b.type :: if b.kind?.isNone then [.ignored b.type] else []

def perform (e : Engine) (b : Block) (frame : Frame) (below : List Frame) :
    Engine × List Event :=
  match b.effect e.store.vars with
  | .error fault =>
    ({ e with stack := frame :: below, status := .failed b.id fault },
      [.executing b.id b.type, .failed b.id b.type fault])
  | .ok effect =>
    ({ e with
        stack := resume effect.frame? frame below
        store := e.store.apply effect
        status := .running b.id },
      eventsOf b effect.frame? (below.length + 2))

def advance (e : Engine) : Engine × List Event :=
  if e.isTerminal then (e, [])
  else
    match settle e.store.vars e.stack with
    | none =>
      ({ e with stack := [], status := .finished },
        leaving e.stack.length 0 ++ [.finished e.store.vars])
    | some (b, frame, below) =>
      let (next, events) := e.perform b frame below
      (next, leaving e.stack.length (below.length + 1) ++ events)

def step (e : Engine) : Engine := e.advance.1

def runFor : Nat → Engine → Engine
  | 0, e => e
  | n + 1, e => if e.isTerminal then e else runFor n e.step

theorem runFor_zero (e : Engine) : runFor 0 e = e := rfl

theorem runFor_of_terminal (n : Nat) (e : Engine) (h : e.isTerminal = true) :
    runFor n e = e := by
  cases n <;> simp [runFor, h]

theorem runFor_add (a b : Nat) (e : Engine) : runFor (a + b) e = runFor b (runFor a e) := by
  induction a generalizing e with
  | zero => rw [Nat.zero_add, runFor_zero]
  | succ a ih =>
    rw [Nat.succ_add]
    by_cases h : e.isTerminal = true
    · rw [runFor_of_terminal _ e h, runFor_of_terminal _ e h, runFor_of_terminal _ e h]
    · simp only [runFor, if_neg h, ih]

end Engine

end BlockScript
