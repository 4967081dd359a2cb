import BlockScript.Command.Perform
import BlockScript.Proofs.Block.Stored
import BlockScript.Proofs.Engine.Unchecked
import BlockScript.Proofs.Json.Roundtrip
import BlockScript.Proofs.Text.OneLine

/-!
# Stepping through a program

The step command keeps count of the console lines it has shown and shows those
past the count after every step. The console only ever grows at its end, so what
is shown after a step is what the step has appended, and all that is shown is the
console. As JSON every step has a line of its own, with the state after it.
-/

set_option autoImplicit false

namespace BlockScript

structure Told where
  after : Engine
  fresh : List String

/-- The steps that an engine makes until it stops. -/
inductive Transcript : Engine → List Told → Engine → Prop
  | stopped {e : Engine} : e.isTerminal = true → Transcript e [] e
  | step {e final : Engine} {told : Told} {rest : List Told} :
      e.isTerminal = false → told.after = e.step →
      e.step.store.console.toList = e.store.console.toList ++ told.fresh →
      Transcript told.after rest final → Transcript e (told :: rest) final

namespace Engine

theorem exists_fresh {e e' : Engine} (h : e.StepsTo e') :
    ∃ fresh, e'.store.console.toList = e.store.console.toList ++ fresh := by
  have hsame : ∃ fresh, e.store.console.toList = e.store.console.toList ++ fresh :=
    ⟨[], (List.append_nil _).symm⟩
  cases h with
  | stopped => exact hsame
  | finished => exact hsame
  | failed => exact hsame
  | @executed b frame below effect =>
    cases effect with
    | nothing | put | opens => exact hsame
    | say line => exact ⟨["> " ++ line], Array.toList_push⟩

theorem exists_transcript {n : Nat} {e : Engine} (h : (runFor n e).isTerminal = true) :
    ∃ told, told.length ≤ n ∧ Transcript e told (runFor n e) := by
  induction n generalizing e with
  | zero => exact ⟨[], Nat.le_refl 0, .stopped h⟩
  | succ n ih =>
    cases ha : e.isTerminal with
    | true =>
      rw [runFor_of_terminal _ e ha]
      exact ⟨[], Nat.zero_le _, .stopped ha⟩
    | false =>
      rw [runFor_succ ha] at h ⊢
      obtain ⟨told, hl, ht⟩ := ih h
      obtain ⟨fresh, hf⟩ := exists_fresh e.stepsTo_step
      exact ⟨⟨e.step, fresh⟩ :: told, Nat.succ_le_succ hl, .step ha rfl hf ht⟩

end Engine

namespace Transcript

variable {e final : Engine} {told : List Told}

theorem isTerminal_final (h : Transcript e told final) : final.isTerminal = true := by
  induction h with
  | stopped ht => exact ht
  | step _ _ _ _ ih => exact ih

theorem console_eq (h : Transcript e told final) :
    final.store.console.toList = e.store.console.toList ++ told.flatMap Told.fresh := by
  induction h with
  | stopped _ => rw [List.flatMap_nil, List.append_nil]
  | step _ ha hf _ ih => rw [ih, ha, hf, List.flatMap_cons, List.append_assoc]

theorem exists_last (h : Transcript e told final) (ha : e.isTerminal = false) :
    ∃ earlier last, told = earlier ++ [last] ∧ last.after = final ∧
      ∀ t ∈ earlier, t.after.isTerminal = false := by
  induction h with
  | stopped ht =>
    rw [ha] at ht
    cases ht
  | @step e final first rest _ _ _ hr ih =>
    cases hf : first.after.isTerminal with
    | true =>
      cases hr with
      | stopped => exact ⟨[], first, rfl, rfl, by simp⟩
      | step hn =>
        rw [hf] at hn
        cases hn
    | false =>
      obtain ⟨earlier, last, rfl, hl, he⟩ := ih hf
      exact ⟨first :: earlier, last, rfl, hl, List.forall_mem_cons.2 ⟨hf, he⟩⟩

theorem exists_runFor (h : Transcript e told final) :
    ∀ t ∈ told, ∃ k, t.after = e.runFor k := by
  induction h with
  | stopped _ => simp
  | step ha hs _ _ ih =>
    refine List.forall_mem_cons.2 ⟨⟨1, ?_⟩, fun t ht => ?_⟩
    · rw [hs, Engine.runFor_succ ha, Engine.runFor_zero]
    · obtain ⟨k, hk⟩ := ih t ht
      exact ⟨k + 1, by rw [hk, hs, Engine.runFor_succ ha]⟩

end Transcript

namespace Except

variable {ε α β : Type}

theorem exists_mapM {f : α → Except ε β} {P : β → Prop} {xs : List α}
    (h : ∀ x ∈ xs, ∃ y, f x = .ok y ∧ P y) : ∃ ys, xs.mapM f = .ok ys ∧ ∀ y ∈ ys, P y := by
  induction xs with
  | nil => exact ⟨[], rfl, by simp⟩
  | cons x xs ih =>
    obtain ⟨⟨y, hy, hp⟩, hr⟩ := List.forall_mem_cons.1 h
    obtain ⟨ys, hs, hps⟩ := ih hr
    refine ⟨y :: ys, ?_, List.forall_mem_cons.2 ⟨hp, hps⟩⟩
    rw [List.mapM_cons, hy, ok_bind, hs]
    rfl

end Except

theorem Number.exists_literal {n : Number} (h : n.Storable) : ∃ text, n.literal = .ok text := by
  cases n with
  | int n => exact ⟨_, showInt_of_isShort h⟩
  | float x => exact ⟨_, rfl⟩

theorem VarName.exists_bare {name : VarName} (h : name.toValue.Storable) :
    ∃ text, name.toValue.bare = .ok text := by
  cases name with
  | null | bool | text => exact ⟨_, rfl⟩
  | number n => exact n.exists_literal h

namespace Json

variable {style : Style} {depth : Nat}

theorem exists_items {items : List Value}
    (h : ∀ item ∈ items, ∃ text, writeAt style depth item = .ok text) :
    ∃ parts, writeItems style depth items = .ok parts := by
  induction items with
  | nil => exact ⟨[], rfl⟩
  | cons item items ih =>
    obtain ⟨⟨text, ht⟩, hr⟩ := List.forall_mem_cons.1 h
    obtain ⟨parts, hp⟩ := ih hr
    exact ⟨text :: parts, by rw [writeItems, ht, Except.ok_bind, hp]; rfl⟩

theorem exists_fields {fields : List (String × Value)}
    (h : ∀ field ∈ fields, ∃ text, writeAt style depth field.2 = .ok text) :
    ∃ parts, writeFields style depth fields = .ok parts := by
  induction fields with
  | nil => exact ⟨[], rfl⟩
  | cons field fields ih =>
    obtain ⟨⟨text, ht⟩, hr⟩ := List.forall_mem_cons.1 h
    obtain ⟨parts, hp⟩ := ih hr
    exact ⟨_, by rw [writeFields, ht, Except.ok_bind, hp]; rfl⟩

theorem exists_list {items : List Value}
    (h : ∀ item ∈ items, ∃ text, writeAt style (depth + 1) item = .ok text) :
    ∃ text, writeAt style depth (.list items) = .ok text := by
  obtain ⟨parts, hp⟩ := exists_items h
  exact ⟨_, by rw [writeAt, hp]; rfl⟩

theorem exists_record {fields : List (String × Value)}
    (h : ∀ field ∈ fields, ∃ text, writeAt style (depth + 1) field.2 = .ok text) :
    ∃ text, writeAt style depth (.record fields) = .ok text := by
  obtain ⟨parts, hp⟩ := exists_fields h
  exact ⟨_, by rw [writeAt, hp]; rfl⟩

end Json

namespace Engine

/-- Whether no variable of an engine is an integer past the digit limit, by its value or
by its name. No file holds such a name, as reading stops at it. -/
def VarsStorable (e : Engine) : Prop :=
  ∀ binding ∈ e.store.vars, binding.1.toValue.Storable ∧ binding.2.Storable

end Engine

namespace Command

def printed (lines : List String) : String := String.join (lines.map (· ++ "\n"))

theorem printed_append (a b : List String) : printed (a ++ b) = printed a ++ printed b := by
  rw [printed, List.map_append, String.join_append]
  rfl

theorem printed_cons (line : String) (lines : List String) :
    printed (line :: lines) = line ++ "\n" ++ printed lines := by
  rw [printed, List.map_cons, String.join_cons]
  rfl

def stateLine (e : Engine) : Except Fault String := do Json.writeLine (← stateRecord e)

theorem exists_jsonName {name : VarName} (h : name.toValue.Storable) :
    ∃ text, jsonName name = .ok text := by
  cases name with
  | null | bool | text => exact ⟨_, rfl⟩
  | number n =>
    obtain ⟨text, ht, -⟩ := Json.exists_writeNumber (n := n) h
    exact ⟨text, ht⟩

theorem exists_optionalText (style : Json.Style) (depth : Nat) (s : Option String) :
    ∃ text, Json.writeAt style depth (optionalText s) = .ok text := by
  cases s with
  | none => exact ⟨_, rfl⟩
  | some s => exact ⟨_, rfl⟩

theorem exists_stateRecord {e : Engine} (h : e.VarsStorable) :
    ∃ vars, (∀ field ∈ vars, ∃ n : Number, field.2 = .number n ∧ n.Storable) ∧
      stateRecord e = .ok (.record
        [("variables", .record vars),
         ("consoleOutput", .list (e.store.console.toList.map .text)),
         ("currentBlockId", optionalText e.current?),
         ("isRunning", .bool e.isRunning),
         ("isFinished", .bool e.isFinished),
         ("error", optionalText (e.fault?.map Fault.message))]) := by
  have hv : ∀ binding ∈ e.store.vars, ∃ field : String × Value,
      (do return (← jsonName binding.1, Value.number binding.2) : Except Fault _) = .ok field ∧
        ∃ n : Number, field.2 = .number n ∧ n.Storable := by
    intro binding hm
    obtain ⟨hn, hs⟩ := h binding hm
    obtain ⟨text, ht⟩ := exists_jsonName hn
    exact ⟨(text, .number binding.2), by rw [ht]; rfl, binding.2, rfl, hs⟩
  obtain ⟨vars, hw, hf⟩ := Except.exists_mapM hv
  refine ⟨vars, hf, ?_⟩
  rw [stateRecord, hw]
  rfl

/-- The state of an engine whose variables can be written has a line, and only one. -/
theorem exists_stateLine {e : Engine} (h : e.VarsStorable) :
    ∃ line, stateLine e = .ok line ∧ '\n' ∉ line.toList := by
  obtain ⟨vars, hv, hr⟩ := exists_stateRecord h
  have hvars : ∃ text, Json.writeAt .line 1 (.record vars) = .ok text := by
    refine Json.exists_record fun field hm => ?_
    obtain ⟨n, hn, hs⟩ := hv field hm
    obtain ⟨text, ht, -⟩ := Json.exists_writeNumber hs
    exact ⟨text, by rw [hn]; exact ht⟩
  have hconsole : ∃ text, Json.writeAt .line 1
      (.list (e.store.console.toList.map Value.text)) = .ok text := by
    refine Json.exists_list fun item hm => ?_
    obtain ⟨line, -, rfl⟩ := List.mem_map.1 hm
    exact ⟨_, rfl⟩
  have hline : ∃ line, stateLine e = .ok line := by
    rw [stateLine, hr, Except.ok_bind]
    refine Json.exists_record ?_
    simp only [List.forall_mem_cons]
    exact ⟨hvars, hconsole, exists_optionalText _ _ _, ⟨_, rfl⟩, ⟨_, rfl⟩,
      exists_optionalText _ _ _, by simp⟩
  obtain ⟨line, hl⟩ := hline
  refine ⟨line, hl, ?_⟩
  rw [stateLine, hr, Except.ok_bind] at hl
  exact Json.not_mem_writeAt 0 _ hl

theorem exists_variablesLine {e : Engine} (h : e.VarsStorable) :
    ∃ listing, variablesLine e = .ok ("variables: " ++ listing) := by
  have hv : ∀ binding ∈ e.store.vars, ∃ part : String,
      (do
        let left ← binding.1.toValue.bare
        return left ++ "=" ++ (← binding.2.literal) : Except Fault String) = .ok part ∧ True := by
    intro binding hm
    obtain ⟨hn, hs⟩ := h binding hm
    obtain ⟨left, hl⟩ := VarName.exists_bare hn
    obtain ⟨right, hr⟩ := binding.2.exists_literal hs
    exact ⟨_, by rw [hl, Except.ok_bind, hr]; rfl, True.intro⟩
  obtain ⟨parts, hp, -⟩ := Except.exists_mapM hv
  refine ⟨if parts.isEmpty then "(none)" else ", ".intercalate parts, ?_⟩
  rw [variablesLine, hp]
  rfl

end Command

namespace Told

def lines (told : Told) : List String :=
  (told.after.current?.map fun id => "[" ++ id ++ "]").toList ++ told.fresh.map ("    " ++ ·)

end Told

namespace Command

theorem foldl_print (lines : List String) (report : Report) :
    lines.foldl Report.print report = ⟨report.out ++ printed lines, report.notes⟩ := by
  induction lines generalizing report with
  | nil => simp [printed]
  | cons line lines ih =>
    rw [List.foldl_cons, ih, printed_cons, Report.print]
    simp only [String.append_assoc]

/-- The lines past the count of those shown before are the lines of the step. -/
theorem stepLines_plain {e : Engine} {told : Told} (ha : told.after = e.step)
    (h : e.step.store.console.toList = e.store.console.toList ++ told.fresh) :
    stepLines false e.store.console.size e.step = .ok told.lines := by
  have hf : (e.step.store.console.extract e.store.console.size e.step.store.console.size).toList =
      told.fresh := by
    have hs : e.step.store.console.size = e.store.console.size + told.fresh.length := by
      simpa using congrArg List.length h
    rw [Array.toList_extract, h, List.extract_eq_take_drop, hs, Nat.add_sub_cancel_left,
      ← Array.length_toList, List.drop_left, List.take_length]
  rw [stepLines, if_neg Bool.false_ne_true, Told.lines, ha]
  dsimp only
  rw [hf]
  rfl

theorem stepLines_json (shown : Nat) (e : Engine) :
    stepLines true shown e = (stateLine e).map ([·]) := by
  rw [stepLines, if_pos rfl, stateLine]
  cases stateRecord e with
  | error fault => rfl
  | ok record =>
    change (do return [← Json.writeLine record]) = (Json.writeLine record).map ([·])
    cases Json.writeLine record <;> rfl

theorem stepAll_succ {json : Bool} {shown : Nat} {e : Engine} {lines : List String}
    (ha : e.isTerminal = false) (hl : stepLines json shown e.step = .ok lines) (limit : Nat)
    (report : Report) :
    ∃ notes, stepAll json (limit + 1) shown e report =
      stepAll json limit e.step.store.console.size e.step ⟨report.out ++ printed lines, notes⟩ := by
  have hs : stepLines json shown e.advance.1 = .ok lines := hl
  rw [stepAll, if_neg (by simp [ha])]
  dsimp only
  rw [hs]
  exact ⟨_, congrArg _ (foldl_print lines _)⟩

theorem stepAll_of_terminal {json : Bool} {limit shown : Nat} {e : Engine} {report : Report}
    (h : e.isTerminal = true) : stepAll json limit shown e report = (report, .ok e) := by
  cases limit with
  | zero => rfl
  | succ limit => rw [stepAll, if_pos h]

theorem stepAll_plain {e final : Engine} {told : List Told} (h : Transcript e told final)
    {limit : Nat} (hl : told.length ≤ limit) (report : Report) :
    ∃ notes, stepAll false limit e.store.console.size e report =
      (⟨report.out ++ printed (told.flatMap Told.lines), notes⟩, .ok final) := by
  induction h generalizing limit report with
  | stopped ht =>
    refine ⟨report.notes, ?_⟩
    rw [stepAll_of_terminal ht]
    simp [printed]
  | @step e final first rest ha hs hf _ ih =>
    cases limit with
    | zero => cases hl
    | succ limit =>
      obtain ⟨notes, hn⟩ := stepAll_succ ha (stepLines_plain hs hf) limit report
      obtain ⟨notes', hr⟩ := ih (Nat.le_of_succ_le_succ hl) ⟨_, notes⟩
      refine ⟨notes', ?_⟩
      rw [hn, ← hs, hr, List.flatMap_cons, printed_append, String.append_assoc]

def Encodes (told : Told) (line : String) : Prop :=
  stateLine told.after = .ok line ∧ '\n' ∉ line.toList

theorem exists_encodes {told : List Told} (h : ∀ t ∈ told, t.after.VarsStorable) :
    ∃ lines, List.Forall₂ Encodes told lines := by
  induction told with
  | nil => exact ⟨[], .nil⟩
  | cons first rest ih =>
    obtain ⟨hf, hr⟩ := List.forall_mem_cons.1 h
    obtain ⟨line, hl⟩ := exists_stateLine hf
    obtain ⟨lines, hs⟩ := ih hr
    exact ⟨line :: lines, .cons hl hs⟩

theorem stepAll_json {e final : Engine} {told : List Told} (h : Transcript e told final)
    {lines : List String} (he : List.Forall₂ Encodes told lines) {limit : Nat}
    (hl : told.length ≤ limit) (report : Report) :
    ∃ notes, stepAll true limit e.store.console.size e report =
      (⟨report.out ++ printed lines, notes⟩, .ok final) := by
  induction h generalizing lines limit report with
  | stopped ht =>
    cases he
    refine ⟨report.notes, ?_⟩
    rw [stepAll_of_terminal ht]
    simp [printed]
  | @step e final first rest ha hs hf _ ih =>
    cases he with
    | @cons _ line _ lines hline he =>
      cases limit with
      | zero => cases hl
      | succ limit =>
        have hlines : stepLines true e.store.console.size e.step = .ok [line] := by
          rw [stepLines_json, ← hs, hline.1]
          rfl
        obtain ⟨notes, hn⟩ := stepAll_succ ha hlines limit report
        obtain ⟨notes', hr⟩ := ih he (Nat.le_of_succ_le_succ hl) ⟨_, notes⟩
        refine ⟨notes', ?_⟩
        rw [hn, ← hs, hr, String.append_assoc, ← printed_append, List.singleton_append]

def verdictOf (final : Engine) : Verdict :=
  match final.fault? with
  | some fault => .failed (some fault.message)
  | none => .done

theorem stepProgram_json {program : Program} {told : List Told} {final : Engine}
    (h : Transcript (.start program) told final) {lines : List String}
    (he : List.Forall₂ Encodes told lines) {limit : Nat} (hl : told.length ≤ limit)
    (report : Report) :
    ∃ notes, stepProgram true limit program report =
      (⟨report.out ++ printed lines, notes⟩, verdictOf final) := by
  obtain ⟨notes, hs⟩ := stepAll_json h he hl report
  have hs' : stepAll true limit 0 (.start program) report = _ := hs
  refine ⟨notes, ?_⟩
  rw [stepProgram, hs']
  rfl

theorem stepProgram_plain {program : Program} {told : List Told} {final : Engine}
    (h : Transcript (.start program) told final) {line : String}
    (hw : variablesLine final = .ok line) {limit : Nat} (hl : told.length ≤ limit)
    (report : Report) :
    ∃ notes, stepProgram false limit program report =
      (⟨report.out ++ printed (told.flatMap Told.lines ++ [line]), notes⟩, verdictOf final) := by
  obtain ⟨notes, hs⟩ := stepAll_plain h hl report
  have hs' : stepAll false limit 0 (.start program) report = _ := hs
  refine ⟨notes, ?_⟩
  rw [stepProgram, hs', printed_append, ← String.append_assoc]
  simp only [hw, Report.print, printed_cons, String.append_assoc]
  rfl

theorem conclude_verdictOf (verbose : Bool) (folder : Folder) (report : Report) (final : Engine) :
    (conclude verbose folder (report, verdictOf final)).out = report.out ∧
      (conclude verbose folder (report, verdictOf final)).ending =
        .exit (if final.fault?.isSome then 1 else 0) := by
  unfold verdictOf
  cases final.fault? <;> exact ⟨rfl, rfl⟩

/-- The step command shows every effect of a run once, for every program that stops and
in which no variable is ever an integer too long to be written. Without JSON it shows for
each step the id of its block, if it has one, and exactly the console lines that
the step appended, and in the end one line with the variables; so the console
lines that it shows are those of the final console. With JSON it shows for each
step one line with the state after it, of which only the last is that of an engine
that has stopped. Either way it ends with one exactly if the program has failed. -/
theorem stepProgram_shows_steps {program : Program} {n : Nat}
    (ht : ((Engine.start program).runFor n).isTerminal = true)
    (hd : ∀ k, ((Engine.start program).runFor k).VarsStorable) (json : Bool) :
    ∃ told final lines, Transcript (.start program) told final ∧
      final.store.console.toList = told.flatMap Told.fresh ∧
      (∃ earlier last, told = earlier ++ [last] ∧ last.after = final ∧
        final.isTerminal = true ∧ ∀ t ∈ earlier, t.after.isTerminal = false) ∧
      (json = false →
        ∃ listing, variablesLine final = .ok ("variables: " ++ listing) ∧
          lines = told.flatMap Told.lines ++ ["variables: " ++ listing]) ∧
      (json = true → List.Forall₂ Encodes told lines) ∧
      ∀ limit ≥ n, ∀ report verbose folder,
        let outcome := conclude verbose folder (stepProgram json limit program report)
        outcome.out = report.out ++ printed lines ∧
          outcome.ending = .exit (if final.fault?.isSome then 1 else 0) := by
  obtain ⟨told, hl, h⟩ := Engine.exists_transcript ht
  have hsteps : ∀ t ∈ told, t.after.VarsStorable := by
    intro t hm
    obtain ⟨k, hk⟩ := h.exists_runFor t hm
    exact hk ▸ hd k
  obtain ⟨earlier, last, hlast, hfinal, hearlier⟩ := h.exists_last rfl
  have hends : ∃ earlier last, told = earlier ++ [last] ∧ last.after = Engine.runFor n _ ∧
      (Engine.runFor n _).isTerminal = true ∧ ∀ t ∈ earlier, t.after.isTerminal = false :=
    ⟨earlier, last, hlast, hfinal, h.isTerminal_final, hearlier⟩
  cases json with
  | true =>
    obtain ⟨lines, he⟩ := exists_encodes hsteps
    refine ⟨told, _, lines, h, h.console_eq, hends, nofun, fun _ => he, ?_⟩
    intro limit hlimit report verbose folder
    obtain ⟨notes, hs⟩ := stepProgram_json h he (Nat.le_trans hl hlimit) report
    rw [hs]
    exact conclude_verdictOf verbose folder _ _
  | false =>
    obtain ⟨listing, hw⟩ := exists_variablesLine (hd n)
    refine ⟨told, _, _, h, h.console_eq, hends, fun _ => ⟨listing, hw, rfl⟩, nofun, ?_⟩
    intro limit hlimit report verbose folder
    obtain ⟨notes, hs⟩ := stepProgram_plain h hw (Nat.le_trans hl hlimit) report
    rw [hs]
    exact conclude_verdictOf verbose folder _ _

def scoreProgram : Program :=
  [⟨"a", "set_var", [], none⟩, ⟨"b", "print", [("message", .text "score")], none⟩]

theorem stepProgram_shows_steps_score :
    ∃ told final listing, Transcript (.start scoreProgram) told final ∧
      final.store.console.toList = told.flatMap Told.fresh ∧
      ∀ limit ≥ 3, (conclude false ⟨[], []⟩ (stepProgram false limit scoreProgram .empty)).out =
        "" ++ printed (told.flatMap Told.lines ++ ["variables: " ++ listing]) := by
  have ht : ((Engine.start scoreProgram).runFor 3).isTerminal = true := by decide +kernel
  have hd : ∀ k ≤ 3, ∀ binding ∈ ((Engine.start scoreProgram).runFor k).store.vars,
      binding.1.toValue.Storable ∧ binding.2.Storable := by decide +kernel
  have hall : ∀ k, ((Engine.start scoreProgram).runFor k).VarsStorable := by
    intro k
    by_cases hk : k ≤ 3
    · exact hd k hk
    · obtain ⟨more, rfl⟩ := Nat.exists_eq_add_of_le (Nat.le_of_not_le hk)
      rw [Engine.runFor_add, Engine.runFor_of_terminal _ _ ht]
      exact hd 3 (Nat.le_refl 3)
  obtain ⟨told, final, lines, h, hc, -, hlines, -, hout⟩ := stepProgram_shows_steps ht hall false
  obtain ⟨listing, -, rfl⟩ := hlines rfl
  exact ⟨told, final, listing, h, hc, fun limit hl => (hout limit hl .empty false _).1⟩

end Command

end BlockScript
