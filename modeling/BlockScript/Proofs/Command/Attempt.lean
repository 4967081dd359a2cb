import BlockScript.Command.Host
import BlockScript.Proofs.Command.Faults

/-!
# Commands with the faults that they raise

A command is a row of stages, and every stage can raise a fault. The tool handles a
fault only if its class is that of wrong values: it tells the message and ends with one.
A fault of another class would escape. Commands are written out here with the faults
that their stages raise, on any host, one print after the other.
-/

set_option autoImplicit false

namespace BlockScript.Command

inductive Raised where
  | loading (fault : LoadFault)
  | value (fault : Fault)
  | encoding (reason : String)
  | file (fault : FileFault)
  | lacking (what : Lacking)
  deriving DecidableEq, Repr

namespace Raised

def faultClass : Raised → FaultClass
  | .loading fault => fault.faultClass
  | .value fault => fault.faultClass
  | .encoding _ => .value
  | .file fault => fault.faultClass
  | .lacking what => what.faultClass

def message : Raised → String
  | .loading fault => fault.message
  | .value fault => fault.message
  | .encoding reason => reason
  | .file fault => fault.message
  | .lacking what => what.message

end Raised

structure World where
  report : Report
  folder : Folder

def World.note (world : World) (notes : List Note) : World :=
  { world with report := world.report.add notes }

/-- A part of a command. What it has printed and stored stays if it then raises a fault. -/
abbrev Attempt := EStateM Raised World

structure Return where
  failed : Bool
  error : Option String

def Return.ofEngine (e : Engine) : Return :=
  ⟨e.fault?.isSome, e.fault?.map Fault.message⟩

def Attempt.of {ε α : Type} (raise : ε → Raised) : Except ε α → Attempt α
  | .ok a => pure a
  | .error fault => throw (raise fault)

def attemptInput (path : Path) : Attempt (Option (List UInt8)) := do
  Attempt.of .file ((← get).folder.read path)

section

variable (host : Host)

def display (add : Report → String → Report) (text : String) : Attempt Unit := do
  let shown ← Attempt.of .encoding (host.console text)
  modify fun world => { world with report := add world.report shown }

def Host.stored (text : String) : List UInt8 := (host.storage text).toOption.getD []

/-- Makes a file of a text. The file is there, and empty, before the text is refused. -/
def store (target : Path) (text : String) : Attempt Unit := do
  let after ← Attempt.of .file ((← get).folder.write target (host.stored text))
  modify fun world => { world with folder := after }
  let _ ← Attempt.of .encoding (host.storage text)

def Host.line (json : Bool) (line : String) : String := if json then host.json line else line

def attemptSteps (json : Bool) : Nat → Nat → Engine → Attempt Engine
  | 0, _, e => pure e
  | limit + 1, shown, e =>
    if e.isTerminal then pure e
    else do
      modify (·.note (e.advance.2.flatMap Note.ofEvent))
      let lines ← Attempt.of .value (stepLines json shown e.step)
      lines.forM fun line => display host .print (host.line json line)
      attemptSteps json limit e.step.store.console.size e.step

def attemptListing (e : Engine) : Attempt Unit := do
  let line ← Attempt.of .value (variablesLine e)
  display host .print line

def attemptStep (json : Bool) (limit : Nat) (program : Program) : Attempt Return := do
  let e ← attemptSteps host json limit 0 (.start program)
  if json then return .ofEngine e
  else
    attemptListing host e
    return .ofEngine e

def attemptPut (script : String) : Target → Attempt Unit
  | .screen => display host .write script
  | .file target => store host target script
  | .unnamed => throw (.lacking .path)

def attemptScript (budget : Option Int) (source : String) : Attempt Return := do
  if budget.isNone && (Script.Line.ofSource source).any (!·.isSkippable) then
    throw (.lacking .budget)
  let ending := Script.run (budget.getD 0) source
  modify (·.note (Note.ofEnding ending))
  ending.output.forM (display host .print)
  return ⟨ending.output.any tellsFailure, none⟩

def attemptProgram (limit : Nat) (request : Request) (program : Program) : Attempt Return :=
  match request.verb with
  | .step => attemptStep host request.settings.json limit program
  | .convert => do
    let script ← Attempt.of .value program.toScript
    attemptPut host script request.settings.output
    return ⟨false, none⟩
  | .run | .exec => do
    let script ← Attempt.of .value program.toScript
    attemptScript host request.settings.maxSteps script

def attempt (limit : Nat) (request : Request) : Attempt Return := do
  let octets ← attemptInput request.input
  if request.verb = .run then
    let source ← Attempt.of .loading (Storage.loadScriptBy host.hold request.input octets)
    attemptScript host request.settings.maxSteps source
  else
    let program ← Attempt.of .loading
      (Storage.loadProgramBy host.hold request.input request.settings.validate octets)
    modify (·.note [Note.loaded program request.input])
    attemptProgram host limit request program

inductive Finish where
  | exit (code : Nat)
  | escapes (raised : Raised)
  deriving DecidableEq, Repr

structure Seen where
  finish : Finish
  out : String
  err : String
  folder : Folder

def told (log : String) : Option String → String
  | none => log
  | some message => s!"{log}error: {message}\n"

def World.seen (verbose : Bool) (finish : Finish) (error : Option String) (world : World) : Seen :=
  let log := Note.renderAll verbose world.report.notes.toList
  ⟨finish, world.report.out, host.errors (told log error), world.folder⟩

def handle (verbose : Bool) : EStateM.Result Raised World Return → Seen
  | .ok ⟨failed, error⟩ world => world.seen host verbose (.exit (if failed then 1 else 0)) error
  | .error raised world =>
    if raised.faultClass = .value then world.seen host verbose (.exit 1) raised.message
    else world.seen host verbose (.escapes raised) none

def runOn (limit : Nat) (args : List String) (folder : Folder) : Seen :=
  match readBy host.convention args with
  | .error halt => ⟨.exit halt.exit, halt.out, host.errors halt.err, folder⟩
  | .ok request =>
    handle host request.settings.verbose (attempt host limit request ⟨.empty, folder⟩)

end

namespace Attempt

variable {α β ε : Type} {x : Attempt α} {next : α → Attempt β} {world world' : World}

theorem bind_of_ok {a : α} (h : x world = .ok a world') :
    (x >>= next) world = next a world' := by
  change EStateM.bind x next world = _
  rw [EStateM.bind, h]

theorem bind_of_error {raised : Raised} (h : x world = .error raised world') :
    (x >>= next) world = .error raised world' := by
  change EStateM.bind x next world = _
  rw [EStateM.bind, h]

theorem bind_modify (f : World → World) {next : Unit → Attempt β} :
    ((modify f : Attempt Unit) >>= next) world = next () (f world) := rfl

theorem bind_get {next : World → Attempt β} :
    ((get : Attempt World) >>= next) world = next world world := rfl

theorem of_ok (raise : ε → Raised) {y : Except ε α} {a : α} (h : y = .ok a) :
    Attempt.of raise y world = .ok a world := by
  subst h
  rfl

theorem of_error (raise : ε → Raised) {y : Except ε α} {fault : ε} (h : y = .error fault) :
    Attempt.of raise y world = .error (raise fault) world := by
  subst h
  rfl

theorem exists_of_bind_eq_error {raised : Raised} (h : (x >>= next) world = .error raised world') :
    x world = .error raised world' ∨
      ∃ a world₁, x world = .ok a world₁ ∧ next a world₁ = .error raised world' := by
  cases hx : x world with
  | ok a world₁ =>
    rw [bind_of_ok hx] at h
    exact .inr ⟨a, world₁, rfl, h⟩
  | error raised' world₁ =>
    rw [bind_of_error hx] at h
    cases h
    exact .inl rfl

theorem exists_of_bind_eq_ok {b : β} (h : (x >>= next) world = .ok b world') :
    ∃ a world₁, x world = .ok a world₁ ∧ next a world₁ = .ok b world' := by
  cases hx : x world with
  | ok a world₁ =>
    rw [bind_of_ok hx] at h
    exact ⟨a, world₁, rfl, h⟩
  | error raised world₁ =>
    rw [bind_of_error hx] at h
    cases h

theorem exists_of_eq_error {raise : ε → Raised} {y : Except ε α} {raised : Raised}
    (h : Attempt.of raise y world = .error raised world') :
    ∃ fault, y = .error fault ∧ raised = raise fault := by
  cases y with
  | ok a => cases h
  | error fault =>
    cases h
    exact ⟨fault, rfl, rfl⟩

theorem eq_ok_of_eq_ok {raise : ε → Raised} {y : Except ε α} {a : α}
    (h : Attempt.of raise y world = .ok a world') : y = .ok a ∧ world' = world := by
  cases y with
  | ok a =>
    cases h
    exact ⟨rfl, rfl⟩
  | error fault => cases h

end Attempt

end BlockScript.Command
