import BlockScript.Proofs.Command.Showing

/-!
# Commands on the plain host

On the plain host nothing refuses a text. There a command with the faults that it raises
does what its verdict says, and what is seen of the tool is what becomes of its run.
-/

set_option autoImplicit false

namespace BlockScript.Command

def Ending.finish : Ending → Finish
  | .exit code => .exit code
  | .broken fault => .escapes (.file fault)
  | .lacking what => .escapes (.lacking what)

def Outcome.seen (outcome : Outcome) : Seen :=
  ⟨outcome.ending.finish, outcome.out, outcome.err, outcome.folder⟩

/-- An attempt that does what a verdict says. -/
inductive Agrees (folder : Folder) : Report × Verdict → EStateM.Result Raised World Return → Prop
  | done {report : Report} : Agrees folder (report, .done) (.ok ⟨false, none⟩ ⟨report, folder⟩)
  | failed {report : Report} (error : Option String) :
      Agrees folder (report, .failed error) (.ok ⟨true, error⟩ ⟨report, folder⟩)
  | raised {report : Report} (raised : Raised) : raised.faultClass = .value →
      Agrees folder (report, .failed (some raised.message)) (.error raised ⟨report, folder⟩)
  | written {report : Report} {target : Path} {text : String} {after : Folder} :
      folder.write target (Utf8.encode text) = .ok after →
      Agrees folder (report, .writes target text) (.ok ⟨false, none⟩ ⟨report, after⟩)
  | unwritten {report : Report} {target : Path} {text : String} {fault : FileFault} :
      folder.write target (Utf8.encode text) = .error fault →
      Agrees folder (report, .writes target text) (.error (.file fault) ⟨report, folder⟩)
  | lacks {report : Report} (what : Lacking) :
      Agrees folder (report, .lacks what) (.error (.lacking what) ⟨report, folder⟩)

theorem handle_of_agrees {folder : Folder} {performed : Report × Verdict}
    {result : EStateM.Result Raised World Return} (h : Agrees folder performed result)
    (verbose : Bool) :
    handle .plain verbose result = (conclude verbose folder performed).seen := by
  cases h with
  | done => rfl
  | failed error => cases error <;> rfl
  | raised raised hc =>
    rw [handle, if_pos hc]
    rfl
  | written hw =>
    simp only [conclude, hw]
    rfl
  | @unwritten _ _ _ fault hw =>
    simp only [conclude, hw]
    cases fault <;> rfl
  | lacks what => cases what <;> rfl

section Showing

variable {json : Bool} {limit shown : Nat} {e : Engine} {world : World}

theorem line_plain (json : Bool) (line : String) : Host.plain.line json line = line := by
  cases json <;> rfl

theorem forM_display_plain (lines : List String) (world : World) :
    lines.forM (display .plain .print) world =
      .ok () { world with report := lines.foldl Report.print world.report } := by
  induction lines generalizing world with
  | nil => rfl
  | cons line lines ih =>
    have hfirst : display .plain .print line world =
        .ok () { world with report := world.report.print line } := rfl
    exact (Attempt.bind_of_ok hfirst).trans (ih _)

theorem attemptSteps_plain (json : Bool) (limit shown : Nat) (e : Engine) (world : World) :
    attemptSteps .plain json limit shown e world =
      match stepAll json limit shown e world.report with
      | (report, .ok e') => .ok e' { world with report := report }
      | (report, .error fault) => .error (.value fault) { world with report := report } := by
  induction limit generalizing shown e world with
  | zero => rfl
  | succ limit ih =>
    rw [attemptSteps, stepAll]
    cases ha : e.isTerminal with
    | true => rfl
    | false =>
      rw [if_neg Bool.false_ne_true, if_neg Bool.false_ne_true, Attempt.bind_modify]
      simp only [line_plain]
      cases hl : stepLines json shown e.step with
      | error fault =>
        have hs : stepLines json shown e.advance.1 = .error fault := hl
        rw [Attempt.bind_of_error (Attempt.of_error _ rfl), hs]
        rfl
      | ok lines =>
        have hs : stepLines json shown e.advance.1 = .ok lines := hl
        rw [Attempt.bind_of_ok (Attempt.of_ok _ rfl), Attempt.bind_of_ok (forM_display_plain _ _),
          ih, hs]
        rfl

end Showing

section Agreement

variable (folder : Folder) (report : Report)

theorem agrees_verdictOf (e : Engine) :
    Agrees folder (report, verdictOf e) (.ok (.ofEngine e) ⟨report, folder⟩) := by
  unfold verdictOf Return.ofEngine
  cases e.fault? with
  | some fault => exact .failed (some fault.message)
  | none => exact .done

/-- A program is stepped through from its start, where nothing has been shown. -/
theorem agrees_step (json : Bool) (limit : Nat) (program : Program) :
    Agrees folder (stepProgram json limit program report)
      (attemptStep .plain json limit program ⟨report, folder⟩) := by
  have ha := attemptSteps_plain json limit 0 (.start program) ⟨report, folder⟩
  unfold stepProgram attemptStep
  rcases hs : stepAll json limit 0 (.start program) report with ⟨report', fault | e⟩
  · rw [hs] at ha
    rw [Attempt.bind_of_error ha]
    have hfails := exactly_attemptSteps .plain json limit (.start program) ⟨report, folder⟩
    change Exactly _ (attemptSteps .plain json limit 0 (.start program) ⟨report, folder⟩) at hfails
    rw [ha] at hfails
    cases hfails with
    | error h => exact .raised (.value fault) h.faultClass
  · rw [hs] at ha
    rw [Attempt.bind_of_ok ha]
    cases json with
    | true => exact agrees_verdictOf folder report' e
    | false =>
      dsimp only [Bool.false_eq_true, if_false, attemptListing]
      cases hv : variablesLine e with
      | error fault =>
        have hl : ListingFails .plain e (.value fault) := .line hv
        exact .raised _ hl.faultClass
      | ok line => exact agrees_verdictOf folder _ e

theorem agrees_script (budget : Option Int) (source : String) :
    Agrees folder (runScript budget source report)
      (attemptScript .plain budget source ⟨report, folder⟩) := by
  unfold runScript attemptScript
  by_cases h : (budget.isNone && (Script.Line.ofSource source).any (!·.isSkippable)) = true
  · rw [if_pos h, if_pos h]
    exact .lacks .budget
  · rw [if_neg h, if_neg h]
    generalize Script.run (budget.getD 0) source = ending
    change Agrees folder _ ((ending.output.forM (display .plain .print) >>= _) _)
    rw [Attempt.bind_of_ok (forM_display_plain _ _), printOutput]
    cases ending.output.any tellsFailure with
    | true => exact .failed none
    | false => exact .done

theorem agrees_put (script : String) (output : Target) :
    Agrees folder
      (match output with
        | .screen => (report.write script, .done)
        | .file target => (report, .writes target script)
        | .unnamed => (report, .lacks .path))
      ((do attemptPut .plain script output; return ⟨false, none⟩ : Attempt Return)
        ⟨report, folder⟩) := by
  cases output with
  | screen => exact .done
  | unnamed => exact .lacks .path
  | file target =>
    cases hw : folder.write target (Utf8.encode script) with
    | ok after =>
      have hput : attemptPut .plain script (.file target) ⟨report, folder⟩ =
          .ok () ⟨report, after⟩ := by
        rw [attemptPut, store, Attempt.bind_get]
        exact Attempt.bind_of_ok (Attempt.of_ok .file hw)
      rw [Attempt.bind_of_ok hput]
      exact .written hw
    | error fault =>
      have hput : attemptPut .plain script (.file target) ⟨report, folder⟩ =
          .error (.file fault) ⟨report, folder⟩ := by
        rw [attemptPut, store, Attempt.bind_get]
        exact Attempt.bind_of_error (Attempt.of_error .file hw)
      rw [Attempt.bind_of_error hput]
      exact .unwritten hw

end Agreement

section Loading

variable {limit : Nat} {request : Request} {octets : Option (List UInt8)} {folder : Folder}

theorem loadScriptBy_plain (path : Path) (octets : Option (List UInt8)) :
    Storage.loadScriptBy Json.plainHold path octets = Storage.loadScript path octets := by
  unfold Storage.loadScriptBy Storage.loadScript
  simp only [Json.plainHold_toNat, List.flatMap_singleton', String.ofList_toList]
  cases Storage.readText path octets <;> rfl

theorem perform_of_unloaded {fault : LoadFault} (hv : request.verb ≠ .run)
    (hp : Storage.loadProgram request.input request.settings.validate octets = .error fault) :
    perform limit request octets = (.empty, .failed (some fault.message)) := by
  unfold perform
  split
  · contradiction
  · simp only [hp]

/-- A loaded program that is to be converted either cannot be, or its script is used. -/
theorem agrees_converted {program : Program} {report : Report} {performed : Report × Verdict}
    {next : String → Attempt Return}
    (herror : ∀ fault, program.toScript = .error fault →
      performed = (report, .failed (some fault.message)))
    (hok : ∀ script, program.toScript = .ok script →
      Agrees folder performed (next script ⟨report, folder⟩)) :
    Agrees folder performed
      ((Attempt.of .value program.toScript >>= next) ⟨report, folder⟩) := by
  cases hs : program.toScript with
  | error fault =>
    rw [Attempt.bind_of_error (Attempt.of_error _ rfl), herror fault hs]
    exact .raised (.value fault) (faultClass_of_tooManyDigits (program.onlyFails_toScript _ hs))
  | ok script =>
    rw [Attempt.bind_of_ok (Attempt.of_ok _ rfl)]
    exact hok script hs

theorem agrees_program {program : Program} (hv : request.verb ≠ .run)
    (hp : Storage.loadProgram request.input request.settings.validate octets = .ok program) :
    Agrees folder (perform limit request octets)
      (attemptProgram .plain limit request program
        ⟨Report.empty.add [Note.loaded program request.input], folder⟩) := by
  unfold attemptProgram
  cases hverb : request.verb with
  | run => contradiction
  | step =>
    simp only [perform, hverb, hp]
    exact agrees_step folder _ _ limit program
  | convert =>
    refine agrees_converted (fun fault hs => ?_) fun script hs => ?_
    · simp only [perform, hverb, hp, hs]
    · have hput := agrees_put folder (Report.empty.add [Note.loaded program request.input])
        script request.settings.output
      simp only [perform, hverb, hp, hs]
      cases ho : request.settings.output <;> simpa only [ho] using hput
  | exec =>
    refine agrees_converted (fun fault hs => ?_) fun script hs => ?_
    · simp only [perform, hverb, hp, hs]
    · simp only [perform, hverb, hp, hs]
      exact agrees_script folder _ _ script

/-- What a command does to its input, wherever it comes to, is what its verdict says. -/
theorem agrees_attempt (limit : Nat) (request : Request)
    (hf : folder.read request.input = .ok octets) :
    Agrees folder (perform limit request octets)
      (attempt .plain limit request ⟨.empty, folder⟩) := by
  have hinput : attemptInput request.input ⟨.empty, folder⟩ = .ok octets ⟨.empty, folder⟩ :=
    Attempt.of_ok .file hf
  rw [attempt, Attempt.bind_of_ok hinput]
  by_cases hv : request.verb = .run
  · rw [if_pos hv]
    have hload : Storage.loadScriptBy Host.plain.hold request.input octets =
        Storage.loadScript request.input octets := loadScriptBy_plain _ _
    cases hs : Storage.loadScript request.input octets with
    | error fault =>
      rw [Attempt.bind_of_error (Attempt.of_error _ (hload.trans hs))]
      simp only [perform, hv, hs]
      exact .raised (.loading fault) (Storage.onlyFails_loadScriptBy _ _ _ _ (hload.trans hs))
    | ok source =>
      rw [Attempt.bind_of_ok (Attempt.of_ok _ (hload.trans hs))]
      simp only [perform, hv, hs]
      exact agrees_script folder _ _ source
  · rw [if_neg hv]
    cases hp : Storage.loadProgramBy Host.plain.hold request.input request.settings.validate
        octets with
    | error fault =>
      rw [Attempt.bind_of_error (Attempt.of_error _ rfl), perform_of_unloaded hv hp]
      exact .raised (.loading fault) (Storage.onlyFails_loadProgramBy _ _ _ _ _ hp)
    | ok program =>
      rw [Attempt.bind_of_ok (Attempt.of_ok _ rfl), Attempt.bind_modify]
      exact agrees_program hv hp

end Loading

theorem faultClass_of_read {folder : Folder} {path : Path} {fault : FileFault}
    (h : folder.read path = .error fault) : fault.faultClass = .system := by
  unfold Folder.read at h
  split at h
  · cases h
  · cases h
    rfl
  · cases h
  · cases h
  · cases h

theorem runOn_plain (limit : Nat) (args : List String) (folder : Folder) :
    runOn .plain limit args folder = (runIn limit args folder).seen := by
  have hread : readBy Host.plain.convention args = read args := rfl
  unfold runOn runIn
  rw [hread]
  cases read args with
  | error halt => rfl
  | ok request =>
    dsimp only
    cases hf : folder.read request.input with
    | error fault =>
      have hinput : attemptInput request.input ⟨.empty, folder⟩ =
          .error (.file fault) ⟨.empty, folder⟩ := Attempt.of_error .file hf
      have hc : (Raised.file fault).faultClass ≠ .value := by
        rw [Raised.faultClass, faultClass_of_read hf]
        decide
      rw [attempt, Attempt.bind_of_error hinput, handle, if_neg hc]
      rfl
    | ok octets => exact handle_of_agrees (agrees_attempt limit request hf) _

end BlockScript.Command
