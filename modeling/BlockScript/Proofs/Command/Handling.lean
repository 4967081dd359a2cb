import BlockScript.Proofs.Command.Agreement
import BlockScript.Proofs.Command.Arguments
import BlockScript.Proofs.Command.Surrogates

/-!
# What becomes of faults

A stage that fails raises a fault of the class of wrong values, which is handled: the
error is told and the exit code is one. A command on a well-formed command line raises
nothing else but what the file system refuses.
-/

set_option autoImplicit false

namespace BlockScript.Command

def Loads (host : Host) (request : Request) (folder : Folder) (program : Program) : Prop :=
  ∃ octets, folder.read request.input = .ok octets ∧
    Storage.loadProgramBy host.hold request.input request.settings.validate octets = .ok program

inductive RunsScript (host : Host) (request : Request) (folder : Folder) : String → Prop
  | input {octets : Option (List UInt8)} {source : String} : request.verb = .run →
      folder.read request.input = .ok octets →
      Storage.loadScriptBy host.hold request.input octets = .ok source →
      RunsScript host request folder source
  | converted {program : Program} {source : String} : request.verb = .exec →
      Loads host request folder program → program.toScript = .ok source →
      RunsScript host request folder source

inductive PutFails (host : Host) (folder : Folder) (script : String) : Target → Raised → Prop
  | screen {raised : Raised} : Refuses host script raised →
      PutFails host folder script .screen raised
  | file {target : Path} {after : Folder} {reason : String} :
      folder.write target (host.stored script) = .ok after → host.storage script = .error reason →
      PutFails host folder script (.file target) (.encoding reason)

/-- What the stages of a command fail with: its input cannot be loaded, decoded or
validated, its program cannot be converted, or what it prints or stores cannot go out. -/
inductive StageFails (host : Host) (limit : Nat) (request : Request) (folder : Folder) :
    Raised → Prop
  | script {octets : Option (List UInt8)} {fault : LoadFault} : request.verb = .run →
      folder.read request.input = .ok octets →
      Storage.loadScriptBy host.hold request.input octets = .error fault →
      StageFails host limit request folder (.loading fault)
  | program {octets : Option (List UInt8)} {fault : LoadFault} : request.verb ≠ .run →
      folder.read request.input = .ok octets →
      Storage.loadProgramBy host.hold request.input request.settings.validate octets =
        .error fault →
      StageFails host limit request folder (.loading fault)
  | conversion {program : Program} {fault : Fault} :
      request.verb = .convert ∨ request.verb = .exec → Loads host request folder program →
      program.toScript = .error fault → StageFails host limit request folder (.value fault)
  | step {program : Program} {raised : Raised} : request.verb = .step →
      Loads host request folder program →
      StepFails host request.settings.json limit program raised →
      StageFails host limit request folder raised
  | put {program : Program} {script : String} {raised : Raised} : request.verb = .convert →
      Loads host request folder program → program.toScript = .ok script →
      PutFails host folder script request.settings.output raised →
      StageFails host limit request folder raised
  | run {source line : String} {budget : Int} {raised : Raised} :
      RunsScript host request folder source → request.settings.maxSteps = some budget →
      line ∈ (Script.run budget source).output → Refuses host line raised →
      StageFails host limit request folder raised

section Parts

variable {host : Host} {folder : Folder} {report : Report} {raised : Raised} {world' : World}

theorem Refuses.faultClass {text : String} (h : Refuses host text raised) :
    raised.faultClass = .value := by
  obtain ⟨reason, -, rfl⟩ := h
  rfl

theorem PutFails.faultClass {script : String} {output : Target}
    (h : PutFails host folder script output raised) : raised.faultClass = .value := by
  cases h with
  | screen hr => exact hr.faultClass
  | file => rfl

theorem exactly_attemptScript (host : Host) (budget : Int) (source : String) (world : World) :
    Exactly (fun raised => ∃ line ∈ (Script.run budget source).output, Refuses host line raised)
      (attemptScript host (some budget) source world) := by
  change Exactly _
    (((Script.run budget source).output.forM (display host .print) >>= fun _ => pure _) _)
  exact (Exactly.forM (exactly_display .print) _ _).followed fun _ _ => ⟨_, _, rfl⟩

theorem raised_of_attemptPut {script : String} {output : Target} (ho : output ≠ .unnamed)
    (h : attemptPut host script output ⟨report, folder⟩ = .error raised world') :
    PutFails host folder script output raised ∨ ∃ fault, raised = .file fault := by
  cases output with
  | unnamed => contradiction
  | screen =>
    have hd : Exactly (Refuses host script) (display host .write script ⟨report, folder⟩) :=
      exactly_display .write script _
    rw [attemptPut] at h
    rw [h] at hd
    cases hd with
    | error hr => exact .inl (.screen hr)
  | file target =>
    rw [attemptPut, store, Attempt.bind_get] at h
    rcases Attempt.exists_of_bind_eq_error h with h | ⟨after, world₁, ha, h⟩
    · obtain ⟨fault, -, rfl⟩ := Attempt.exists_of_eq_error h
      exact .inr ⟨fault, rfl⟩
    · obtain ⟨hw, rfl⟩ := Attempt.eq_ok_of_eq_ok ha
      rw [Attempt.bind_modify] at h
      rcases Attempt.exists_of_bind_eq_error h with h | ⟨octets, world₂, -, h⟩
      · obtain ⟨reason, hs, rfl⟩ := Attempt.exists_of_eq_error h
        exact .inl (.file hw hs)
      · cases h

theorem exists_error_of_putFails {script : String} {output : Target}
    (h : PutFails host folder script output raised) (report : Report) :
    ∃ world', attemptPut host script output ⟨report, folder⟩ = .error raised world' := by
  cases h with
  | screen hr =>
    obtain ⟨reason, hc, rfl⟩ := hr
    exact ⟨_, Attempt.bind_of_error (Attempt.of_error .encoding hc)⟩
  | file hw hs =>
    rw [attemptPut, store, Attempt.bind_get, Attempt.bind_of_ok (Attempt.of_ok .file hw),
      Attempt.bind_modify]
    exact ⟨_, Attempt.bind_of_error (Attempt.of_error .encoding hs)⟩

end Parts

section Failing

variable {host : Host} {limit : Nat} {request : Request} {folder : Folder} {raised : Raised}
  {world' : World}

theorem StageFails.faultClass (h : StageFails host limit request folder raised) :
    raised.faultClass = .value := by
  cases h with
  | script _ _ hs => exact Storage.onlyFails_loadScriptBy _ _ _ _ hs
  | program _ _ hp => exact Storage.onlyFails_loadProgramBy _ _ _ _ _ hp
  | @conversion program _ _ _ hs =>
    exact faultClass_of_tooManyDigits (program.onlyFails_toScript _ hs)
  | step _ _ h => exact h.faultClass
  | put _ _ _ h => exact h.faultClass
  | run _ _ _ hr => exact hr.faultClass

theorem attempt_of_loads {program : Program} (hv : request.verb ≠ .run)
    (hl : Loads host request folder program) (limit : Nat) :
    attempt host limit request ⟨.empty, folder⟩ =
      attemptProgram host limit request program
        ⟨Report.empty.add [Note.loaded program request.input], folder⟩ := by
  obtain ⟨octets, hf, hp⟩ := hl
  have hinput : attemptInput request.input ⟨.empty, folder⟩ = .ok octets ⟨.empty, folder⟩ :=
    Attempt.of_ok .file hf
  rw [attempt, Attempt.bind_of_ok hinput, if_neg hv, Attempt.bind_of_ok (Attempt.of_ok _ hp),
    Attempt.bind_modify]
  rfl

theorem attempt_step {program : Program} (hv : request.verb = .step)
    (hl : Loads host request folder program) (limit : Nat) :
    attempt host limit request ⟨.empty, folder⟩ =
      attemptStep host request.settings.json limit program
        ⟨Report.empty.add [Note.loaded program request.input], folder⟩ := by
  rw [attempt_of_loads (by simp [hv]) hl, attemptProgram]
  simp only [hv]

theorem attempt_convert {program : Program} {script : String} (hv : request.verb = .convert)
    (hl : Loads host request folder program) (hs : program.toScript = .ok script) (limit : Nat) :
    attempt host limit request ⟨.empty, folder⟩ =
      (attemptPut host script request.settings.output >>= fun _ => pure ⟨false, none⟩)
        ⟨Report.empty.add [Note.loaded program request.input], folder⟩ := by
  rw [attempt_of_loads (by simp [hv]) hl, attemptProgram]
  simp only [hv]
  exact Attempt.bind_of_ok (Attempt.of_ok .value hs)

theorem attempt_of_unconverted {program : Program} {fault : Fault}
    (hv : request.verb = .convert ∨ request.verb = .exec) (hl : Loads host request folder program)
    (hs : program.toScript = .error fault) (limit : Nat) :
    attempt host limit request ⟨.empty, folder⟩ =
      .error (.value fault) ⟨Report.empty.add [Note.loaded program request.input], folder⟩ := by
  have hrun : request.verb ≠ .run := by rcases hv with hv | hv <;> simp [hv]
  rw [attempt_of_loads hrun hl, attemptProgram]
  rcases hv with hv | hv
  · simp only [hv]
    exact Attempt.bind_of_error (Attempt.of_error .value hs)
  · simp only [hv]
    exact Attempt.bind_of_error (Attempt.of_error .value hs)

theorem attempt_of_runsScript {source : String} (hs : RunsScript host request folder source)
    (limit : Nat) :
    ∃ world, attempt host limit request ⟨.empty, folder⟩ =
      attemptScript host request.settings.maxSteps source world := by
  cases hs with
  | @input octets _ hv hf hs =>
    have hinput : attemptInput request.input ⟨.empty, folder⟩ = .ok octets ⟨.empty, folder⟩ :=
      Attempt.of_ok .file hf
    refine ⟨⟨.empty, folder⟩, ?_⟩
    rw [attempt, Attempt.bind_of_ok hinput, if_pos hv, Attempt.bind_of_ok (Attempt.of_ok _ hs)]
  | @converted program _ hv hl hs =>
    refine ⟨⟨Report.empty.add [Note.loaded program request.input], folder⟩, ?_⟩
    rw [attempt_of_loads (by simp [hv]) hl, attemptProgram]
    simp only [hv]
    rw [Attempt.bind_of_ok (Attempt.of_ok _ hs)]

theorem raised_of_attemptScript {source : String} (hs : RunsScript host request folder source)
    (hc : request.settings.Complete) {world : World}
    (h : attemptScript host request.settings.maxSteps source world = .error raised world') :
    StageFails host limit request folder raised := by
  obtain ⟨budget, hb⟩ := Option.ne_none_iff_exists'.1 hc.maxSteps
  have hexact := exactly_attemptScript host budget source world
  rw [hb] at h
  rw [h] at hexact
  cases hexact with
  | error hr =>
    obtain ⟨line, hm, hr⟩ := hr
    exact .run hs hb hm hr

theorem raised_of_attemptProgram {program : Program} (hv : request.verb ≠ .run)
    (hl : Loads host request folder program) (hc : request.settings.Complete) {report : Report}
    (h : attemptProgram host limit request program ⟨report, folder⟩ = .error raised world') :
    StageFails host limit request folder raised ∨ ∃ fault, raised = .file fault := by
  unfold attemptProgram at h
  cases hverb : request.verb with
  | run => contradiction
  | step =>
    have hexact := exactly_attemptStep host request.settings.json limit program ⟨report, folder⟩
    simp only [hverb] at h
    rw [h] at hexact
    cases hexact with
    | error hs => exact .inl (.step hverb hl hs)
  | convert =>
    simp only [hverb] at h
    rcases Attempt.exists_of_bind_eq_error h with h | ⟨script, world₁, ha, h⟩
    · obtain ⟨fault, hs, rfl⟩ := Attempt.exists_of_eq_error h
      exact .inl (.conversion (.inl hverb) hl hs)
    · obtain ⟨hs, rfl⟩ := Attempt.eq_ok_of_eq_ok ha
      rcases Attempt.exists_of_bind_eq_error h with h | ⟨_, world₂, -, h⟩
      · exact (raised_of_attemptPut hc.output h).imp_left (.put hverb hl hs)
      · cases h
  | exec =>
    simp only [hverb] at h
    rcases Attempt.exists_of_bind_eq_error h with h | ⟨script, world₁, ha, h⟩
    · obtain ⟨fault, hs, rfl⟩ := Attempt.exists_of_eq_error h
      exact .inl (.conversion (.inr hverb) hl hs)
    · obtain ⟨hs, rfl⟩ := Attempt.eq_ok_of_eq_ok ha
      exact .inl (raised_of_attemptScript (.converted hverb hl hs) hc h)

/-- Nothing is raised but what a stage fails with and what the file system refuses. -/
theorem raised_of_attempt (hc : request.settings.Complete)
    (h : attempt host limit request ⟨.empty, folder⟩ = .error raised world') :
    StageFails host limit request folder raised ∨ ∃ fault, raised = .file fault := by
  rcases Attempt.exists_of_bind_eq_error h with h | ⟨octets, world₁, ha, h⟩
  · obtain ⟨fault, -, rfl⟩ := Attempt.exists_of_eq_error h
    exact .inr ⟨fault, rfl⟩
  obtain ⟨hf, rfl⟩ := Attempt.eq_ok_of_eq_ok ha
  by_cases hv : request.verb = .run
  · rw [if_pos hv] at h
    rcases Attempt.exists_of_bind_eq_error h with h | ⟨source, world₁, ha, h⟩
    · obtain ⟨fault, hs, rfl⟩ := Attempt.exists_of_eq_error h
      exact .inl (.script hv hf hs)
    · obtain ⟨hs, rfl⟩ := Attempt.eq_ok_of_eq_ok ha
      exact .inl (raised_of_attemptScript (.input hv hf hs) hc h)
  · rw [if_neg hv] at h
    rcases Attempt.exists_of_bind_eq_error h with h | ⟨program, world₁, ha, h⟩
    · obtain ⟨fault, hp, rfl⟩ := Attempt.exists_of_eq_error h
      exact .inl (.program hv hf hp)
    · obtain ⟨hp, rfl⟩ := Attempt.eq_ok_of_eq_ok ha
      rw [Attempt.bind_modify] at h
      exact raised_of_attemptProgram hv ⟨octets, hf, hp⟩ hc h

/-- If a stage fails, the command raises what some stage fails with. -/
theorem exists_error_of_stageFails (h : StageFails host limit request folder raised) :
    ∃ raised' world', attempt host limit request ⟨.empty, folder⟩ = .error raised' world' ∧
      StageFails host limit request folder raised' := by
  have hinput : ∀ {octets}, folder.read request.input = .ok octets →
      attemptInput request.input ⟨.empty, folder⟩ = .ok octets ⟨.empty, folder⟩ :=
    fun hf => Attempt.of_ok .file hf
  cases h with
  | script hv hf hs =>
    refine ⟨_, ⟨.empty, folder⟩, ?_, .script hv hf hs⟩
    rw [attempt, Attempt.bind_of_ok (hinput hf), if_pos hv]
    exact Attempt.bind_of_error (Attempt.of_error _ hs)
  | program hv hf hp =>
    refine ⟨_, ⟨.empty, folder⟩, ?_, .program hv hf hp⟩
    rw [attempt, Attempt.bind_of_ok (hinput hf), if_neg hv]
    exact Attempt.bind_of_error (Attempt.of_error _ hp)
  | conversion hv hl hs =>
    exact ⟨_, _, attempt_of_unconverted hv hl hs limit, .conversion hv hl hs⟩
  | step hv hl hs =>
    obtain ⟨raised', world', he, hs⟩ := (exactly_attemptStep _ _ _ _ _).exists_error hs
    exact ⟨raised', world', (attempt_step hv hl limit).trans he, .step hv hl hs⟩
  | put hv hl hs hp =>
    obtain ⟨world', he⟩ := exists_error_of_putFails hp _
    exact ⟨raised, world', (attempt_convert hv hl hs limit).trans (Attempt.bind_of_error he),
      .put hv hl hs hp⟩
  | @run source line budget _ hs hb hm hr =>
    obtain ⟨world, ha⟩ := attempt_of_runsScript hs limit
    obtain ⟨raised', world', he, line', hm', hr'⟩ :=
      (exactly_attemptScript host budget source world).exists_error ⟨line, hm, hr⟩
    refine ⟨raised', world', ?_, .run hs hb hm' hr'⟩
    rw [ha, hb]
    exact he

end Failing

section Handled

variable {host : Host} {limit : Nat} {args : List String} {request : Request} {folder : Folder}

theorem complete_of_convention (hr : readBy host.convention args = .ok request)
    (hc : host.convention = .older → request.settings.Complete) : request.settings.Complete := by
  cases hv : host.convention with
  | older => exact hc hv
  | newer => exact complete_of_readBy (hv ▸ hr)

theorem finish_of_complete (hr : readBy host.convention args = .ok request)
    (hc : request.settings.Complete) (limit : Nat) (folder : Folder) :
    (runOn host limit args folder).finish = .exit 0 ∨
      (runOn host limit args folder).finish = .exit 1 ∨
      ∃ fault, (runOn host limit args folder).finish = .escapes (.file fault) ∧
        fault.faultClass = .system := by
  simp only [runOn, hr]
  cases ha : attempt host limit request ⟨.empty, folder⟩ with
  | ok returned world =>
    obtain ⟨failed, error⟩ := returned
    cases failed with
    | false => exact .inl rfl
    | true => exact .inr (.inl rfl)
  | error raised world =>
    rw [handle]
    rcases raised_of_attempt hc ha with hs | ⟨fault, rfl⟩
    · rw [if_pos hs.faultClass]
      exact .inr (.inl rfl)
    · cases fault with
      | holdsNull => exact .inr (.inl rfl)
      | isFolder | fileInTheWay | notFolder | nameTooLong => exact .inr (.inr ⟨_, rfl, rfl⟩)

theorem runOn_of_stageFails (hr : readBy host.convention args = .ok request) {raised : Raised}
    (hs : StageFails host limit request folder raised) :
    (runOn host limit args folder).finish = .exit 1 ∧
      ∃ raised' log, StageFails host limit request folder raised' ∧
        (runOn host limit args folder).err =
          host.errors (log ++ "error: " ++ raised'.message ++ "\n") := by
  obtain ⟨raised', world, ha, hs⟩ := exists_error_of_stageFails hs
  simp only [runOn, hr, ha, handle, if_pos hs.faultClass]
  exact ⟨rfl, raised', _, hs, rfl⟩

theorem runOn_of_le (hr : readBy host.convention args = .ok request) (hv : request.verb = .step)
    {program : Program} (hl : Loads host request folder program) {n : Nat}
    (ht : ((Engine.start program).runFor n).isTerminal = true) (hn : n ≤ limit) :
    runOn host limit args folder = runOn host n args folder := by
  simp only [runOn, hr, attempt_step hv hl, attemptStep_of_le ht hn]

end Handled

/-- No content of an input file makes a well-formed command crash, on any host. The tool
ends with zero or one, or for a file system that refuses a file. Whenever its input cannot
be loaded, decoded, validated or converted, or what it is to print or store cannot go out,
this is for a wrong value, and the tool ends with one and tells an error for which a stage
has failed; that is all a command raises beside what the file system refuses. A limit on
the steps of the engine does not matter once the engine has stopped. By the older
convention a command line is well formed if it leaves no option without its value. -/
theorem runOn_contains_faults (host : Host) {args : List String} {request : Request}
    (hr : readBy host.convention args = .ok request)
    (hc : host.convention = .older → request.settings.Complete) (folder : Folder) (limit : Nat) :
    ((runOn host limit args folder).finish = .exit 0 ∨
      (runOn host limit args folder).finish = .exit 1 ∨
      ∃ fault, (runOn host limit args folder).finish = .escapes (.file fault) ∧
        fault.faultClass = .system) ∧
    (∀ raised, StageFails host limit request folder raised →
      raised.faultClass = .value ∧ (runOn host limit args folder).finish = .exit 1 ∧
        ∃ raised' log, StageFails host limit request folder raised' ∧
          (runOn host limit args folder).err =
            host.errors (log ++ "error: " ++ raised'.message ++ "\n")) ∧
    (∀ raised world, attempt host limit request ⟨.empty, folder⟩ = .error raised world →
      StageFails host limit request folder raised ∨ ∃ fault, raised = .file fault) ∧
    (∀ program n, request.verb = .step → Loads host request folder program →
      ((Engine.start program).runFor n).isTerminal = true → n ≤ limit →
        runOn host limit args folder = runOn host n args folder) ∧
    runOn .plain limit args folder = (runIn limit args folder).seen :=
  have hcomplete := complete_of_convention hr hc
  ⟨finish_of_complete hr hcomplete limit folder,
    fun _ hs => ⟨hs.faultClass, runOn_of_stageFails hr hs⟩,
    fun _ _ ha => raised_of_attempt hcomplete ha,
    fun _ _ hv hl ht hn => runOn_of_le hr hv hl ht hn, runOn_plain limit args folder⟩

def surrogate : String := String.ofList (Host.markedHold 0xd800)

def surrogateProgram : Program := [⟨"a", "print", [("message", .text surrogate)], none⟩]

def surrogateText : String :=
  "[\x7b\"id\":\"a\",\"type\":\"print\",\"params\":\x7b\"message\":\"\\ud800\"\x7d\x7d]"

def surrogateOctets : List UInt8 := Utf8.encode surrogateText

set_option maxRecDepth 4000 in
theorem loadProgramBy_surrogateOctets :
    Storage.loadProgramBy Host.utf8.hold ⟨"", ["p"]⟩ true (some surrogateOctets) =
      .ok surrogateProgram := by
  have ht : Storage.readText ⟨"", ["p"]⟩ (some surrogateOctets) = .ok surrogateText := by
    decide +kernel
  have hj : Json.readBy Host.utf8.hold surrogateText = .ok surrogateProgram.toValue := by
    have hc : surrogateText.toList =
        ['[', '\x7b', '"', 'i', 'd', '"', ':', '"', 'a', '"', ',', '"', 't', 'y', 'p', 'e', '"',
         ':', '"', 'p', 'r', 'i', 'n', 't', '"', ',', '"', 'p', 'a', 'r', 'a', 'm', 's', '"',
         ':', '\x7b', '"', 'm', 'e', 's', 's', 'a', 'g', 'e', '"', ':', '"', '\\', 'u', 'd', '8',
         '0', '0', '"', '\x7d', '\x7d', ']'] := by decide +kernel
    rw [Json.readBy, hc]
    rfl
  have hp : Program.ofValue surrogateProgram.toValue = .ok surrogateProgram := rfl
  have hv : surrogateProgram.validate = .ok () := rfl
  rw [Storage.loadProgramBy, ht, Except.ok_bind, Storage.parseProgram, hj]
  simp only [hp, hv, if_true]

theorem runOn_contains_faults_surrogate :
    let folder : Folder := ⟨[(["p"], surrogateOctets)], []⟩
    (runOn .utf8 1 ["step", "p"] folder).finish = .exit 1 ∧
      ∃ message log, (runOn .utf8 1 ["step", "p"] folder).err =
        Host.utf8.errors (log ++ "error: " ++ message ++ "\n") := by
  intro folder
  have hr : readBy Host.utf8.convention ["step", "p"] =
      .ok ⟨.step, ⟨"", ["p"]⟩, ⟨false, false, true, .screen, some 2000⟩⟩ := rfl
  have hf : folder.read ⟨"", ["p"]⟩ = .ok (some surrogateOctets) := rfl
  have hlines : stepLines false 0 (Engine.start surrogateProgram).step =
      .ok ["[a]", "    > " ++ surrogate] := by decide +kernel
  have hcodes : ∀ n ∈ [0x20, 0x20, 0x20, 0x20, 0x3e, 0x20, 0xd800], n < 0x110000 := by decide
  have hline : "    > " ++ surrogate = String.ofList
      ([0x20, 0x20, 0x20, 0x20, 0x3e, 0x20, 0xd800].flatMap Host.utf8.hold) := by decide +kernel
  obtain ⟨reason, hprint⟩ := (Host.console_of_hold hcodes).2 ⟨0xd800, by decide, rfl⟩
  have hfails : RunFails .utf8 false 1 (Engine.start surrogateProgram) (.encoding reason) :=
    ⟨0, Nat.one_pos, rfl, .print hlines (by decide) (hline ▸ hprint)⟩
  obtain ⟨-, hfail, -⟩ := runOn_contains_faults .utf8 hr nofun folder 1
  obtain ⟨-, he, raised, log, -, hl⟩ :=
    hfail _ (.step rfl ⟨_, hf, loadProgramBy_surrogateOctets⟩ (.run hfails))
  exact ⟨he, raised.message, log, hl⟩

end BlockScript.Command
