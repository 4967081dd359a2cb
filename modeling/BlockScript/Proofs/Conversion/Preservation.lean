import BlockScript.Proofs.Block.Names
import BlockScript.Proofs.Block.Validity
import BlockScript.Proofs.Conversion.Opening
import BlockScript.Proofs.Engine.Correspondence

/-!
# Conversion preserves meaning

A program is plain if its variables have proper names, its numbers are integers
of a length that can be written, and its messages have nothing in them that a
script would take apart. The script of a valid plain program, run with enough
steps, shows what the program prints and leaves the variables of the program
with the values that the program leaves them.
-/

set_option autoImplicit false

namespace BlockScript

open Script Script.Generate

/-- Parameters, given or by default, with which a block means the same in a script. -/
def Block.Plain (names : List String) (b : Block) : Prop :=
  match b.kind? with
  | some .start | some .move => True
  | some .print => ∃ m, b.param "message" = .ok (.text m) ∧ (m ∈ names ∨ IsQuotable m)
  | some .wait => ∃ n, b.param "seconds" = .ok (.int n) ∧ IsShort n
  | some .setVar | some .changeVar =>
    ∃ x n, b.param "name" = .ok (.text x) ∧ IsName x ∧ b.param "value" = .ok (.int n) ∧ IsShort n
  | some .loop => ∃ n, b.param "times" = .ok (.int n) ∧ 1 ≤ n ∧ IsShort n
  | some .branch =>
    ∃ x n, b.param "condition_var" = .ok (.text x) ∧ IsName x ∧ b.param "value" = .ok (.int n) ∧
      IsShort n
  | some .loopUntil | none => False

/-- A valid program of plain blocks, and the names of its variables. -/
structure Program.IsPlain (program : Program) (names : List String) : Prop where
  valid : program.validate = .ok ()
  names_eq : program.variableNames = .ok names
  plain : ∀ b ∈ program.walk, b.Plain names

namespace Program.IsPlain

variable {program : Program} {names : List String}

/-- The name that a plain block gives to its variable is a proper one and among the names. -/
theorem exists_name {b : Block} (hb : b.Plain names) {v : Value}
    (hv : variableName? b = some v) : ∃ x, v = .text x ∧ IsName x := by
  unfold Block.Plain at hb
  cases hk : b.kind? with
  | none => rw [hk] at hb; exact hb.elim
  | some kind =>
    rw [hk] at hb
    cases kind with
    | loopUntil => exact hb.elim
    | setVar | changeVar | branch =>
      obtain ⟨x, n, hx, hn, -⟩ := hb
      rw [variableName?_of_param hk rfl hx] at hv
      cases hv
      exact ⟨x, rfl, hn⟩
    | start | loop | print | move | wait =>
      simp [variableName?, hk, Kind.nameInput?] at hv

theorem isName (h : program.IsPlain names) : ∀ x ∈ names, IsName x := by
  intro x hx
  obtain ⟨b, hb, v, hv, hbare⟩ := (mem_variableNames h.names_eq x).1 hx
  obtain ⟨y, rfl, hy⟩ := exists_name (h.plain b hb) hv
  cases hbare
  exact hy

theorem name_mem (h : program.IsPlain names) {b : Block} (hb : b ∈ program.walk) {kind : Kind}
    {input x : String} (hk : b.kind? = some kind) (hi : kind.nameInput? = some input)
    (hp : b.param input = .ok (.text x)) : x ∈ names :=
  (mem_variableNames h.names_eq x).2 ⟨b, hb, _, variableName?_of_param hk hi hp, rfl⟩

theorem exists_command (h : program.IsPlain names) {b : Block} (hb : b ∈ program.walk) :
    ∃ c, b.Says c ∧ c.Proper names := by
  obtain ⟨kind, hpass⟩ := Validation.passes_of_validate h.valid b hb
  have hk := hpass.kind
  have hplain := h.plain b hb
  unfold Block.Plain at hplain
  rw [hk] at hplain
  cases kind with
  | start => exact ⟨.start, hk, trivial⟩
  | loop =>
    obtain ⟨n, hn, hpos, hshort⟩ := hplain
    exact ⟨.loop n, ⟨hk, hn⟩, hpos, hshort⟩
  | loopUntil => exact hplain.elim
  | branch =>
    obtain ⟨x, n, hx, -, hn, hshort⟩ := hplain
    obtain ⟨s, hs, ho⟩ := hpass.exists_option "operator" rfl rfl rfl
    obtain ⟨comparison, -, rfl⟩ := List.mem_map.1 hs
    exact ⟨.branch x comparison n, ⟨hk, hx, ho, hn⟩, h.name_mem hb hk rfl hx, hshort⟩
  | print =>
    obtain ⟨m, hm, hq⟩ := hplain
    by_cases hmem : m ∈ names
    · exact ⟨.printName m, ⟨hk, hm⟩, hmem⟩
    · exact ⟨.printText m, ⟨hk, hm⟩, hmem, hq.resolve_left hmem⟩
  | move =>
    obtain ⟨d, hd, hp⟩ := hpass.exists_option "direction" rfl rfl rfl
    exact ⟨.move d, ⟨hk, hp⟩, hd⟩
  | wait =>
    obtain ⟨n, hn, hshort⟩ := hplain
    exact ⟨.wait n, ⟨hk, hn⟩, hshort⟩
  | setVar =>
    obtain ⟨x, n, hx, -, hn, hshort⟩ := hplain
    exact ⟨.set x n, ⟨hk, hx, hn⟩, h.name_mem hb hk rfl hx, hshort⟩
  | changeVar =>
    obtain ⟨x, n, hx, -, hn, hshort⟩ := hplain
    exact ⟨.change x n, ⟨hk, hx, hn⟩, h.name_mem hb hk rfl hx, hshort⟩

theorem convertible (h : program.IsPlain names) :
    ∀ b ∈ program.walk, b.Convertible names := by
  intro b hb
  refine ⟨h.exists_command hb, ?_⟩
  obtain ⟨kind, hpass⟩ := Validation.passes_of_validate h.valid b hb
  cases hc : b.children with
  | none => exact Or.inl rfl
  | some inner => exact Or.inr ⟨kind, hpass.kind, hpass.nests (by rw [hc]; rfl)⟩

theorem exists_script (h : program.IsPlain names) :
    ∃ script raws, program.toScript = .ok script ∧
      Line.ofSource script = Line.numbered 1 (openingLines names ++ raws ++ [[]]) ∧
      Layout names 0 program raws := by
  obtain ⟨lines, hl, hlayout⟩ := exists_linesOfAll h.isName 0 program h.convertible
  have hs : program.toScript = .ok (opening ++ declarations names ++ "\n" ++
      String.join (lines.map (· ++ "\n"))) := by
    rw [toScript, h.names_eq, Except.ok_bind, hl]
    rfl
  refine ⟨_, lines.map String.toList, hs, ?_, hlayout⟩
  rw [Line.ofSource, toList_script, splitOn_broken]
  intro line hm
  exact (List.mem_append.1 hm).elim (unbroken_opening h.isName line) (hlayout.unbroken line)

/-- The script of a plain program that has finished, run with enough steps. -/
theorem exists_ending (h : program.IsPlain names) {t : List Execution} {s : Store}
    (hr : Runs (.blocks program) .empty t .done s) (hb : ∀ x ∈ t, x.Bound names) :
    ∃ script, program.toScript = .ok script ∧ ∀ budget : Int,
      ((2 + names.length + t.countP Execution.counts : Nat) : Int) ≤ budget →
      ∃ σ, Script.run budget script = ⟨σ, none⟩ ∧
        Agrees names s σ ∧ σ.steps = 2 + names.length + t.countP Execution.counts ∧
        σ.output.toList = startMarker :: t.flatMap Execution.echo := by
  obtain ⟨script, raws, hs, hlines, hlayout⟩ := h.exists_script
  refine ⟨script, hs, fun budget hl => ?_⟩
  have hl₀ : ((2 + names.length : Nat) : Int) ≤ budget := by omega
  obtain ⟨σ₀, m, he, ha, hsteps, hout⟩ := evalAll_opening h.isName hl₀ raws
  have hm : Matches budget names (.blocks program)
      (evalAll budget (forest (Line.visible (Line.numbered m raws)))) :=
    ⟨_, hlayout.renders m, rfl⟩
  rw [← hsteps] at hl
  obtain ⟨σ, hev, hafter⟩ := evaluates_of_runs hr rfl hm ha hb hl
  obtain ⟨result, hres, hrun⟩ := exists_evalAll budget script
  rw [hlines, he, hev] at hres
  cases hres
  refine ⟨σ, hrun, hafter.agrees, ?_, ?_⟩
  · rw [hafter.steps, hsteps]
  · rw [hafter.output, hout]
    rfl

end Program.IsPlain

/-- Conversion preserves meaning. If a valid plain program finishes, and prints no
variable before it has a value, then its script, run with a step for each line of
the opening and for each block executed but the start of the program, finishes
too. It takes exactly these steps, shows what the program prints and each wait and
move in the order of execution, and ends with the same variables, where those
that the program never bound are zero. -/
theorem Program.run_toScript {program : Program} {names : List String}
    (h : program.IsPlain names) {n : Nat}
    (hf : (Engine.runFor n (.start program)).isFinished = true)
    (hb : ∀ x ∈ Engine.executions n (.start program), x.Bound names) :
    ∃ script, program.toScript = .ok script ∧ ∀ budget : Int,
      ((2 + names.length + (Engine.executions n (.start program)).countP Execution.counts : Nat) :
        Int) ≤ budget →
      (Script.run budget script).output =
          startMarker :: (Engine.executions n (.start program)).flatMap Execution.echo ++
            [finishMarker] ∧
        (Script.run budget script).state.steps =
          2 + names.length + (Engine.executions n (.start program)).countP Execution.counts ∧
        ∀ x ∈ names, (Script.run budget script).state.vars.get? x =
          some (.number (((Engine.runFor n (.start program)).store.vars.get? (.text x)).getD
            (.int 0))) := by
  have ho := (Engine.isFinished_iff _).1 hf
  have hr := (Engine.start_ends_iff program _ _ _).1 ⟨n, ho, rfl, rfl⟩
  obtain ⟨script, hs, hrun⟩ := h.exists_ending hr hb
  refine ⟨script, hs, fun budget hl => ?_⟩
  obtain ⟨σ, he, ha, hsteps, hout⟩ := hrun budget hl
  rw [he]
  refine ⟨?_, hsteps, ha.value⟩
  rw [Ending.output, hout]
  rfl

def countedTwice : Program :=
  [⟨"a", "set_var", [("name", .text "x"), ("value", .int 5)], none⟩,
   ⟨"b", "repeat", [("times", .int 2)],
     some [⟨"c", "change_var", [("name", .text "x")], none⟩]⟩,
   ⟨"d", "print", [("message", .text "x")], none⟩]

theorem isPlain_countedTwice : countedTwice.IsPlain ["x"] where
  valid := rfl
  names_eq := rfl
  plain := by
    have hx : IsName "x" := ⟨by decide, List.all_eq_true.1 rfl, by decide⟩
    intro b hb
    have hm : b ∈ [_, _, _, _] := hb
    simp only [List.mem_cons, List.not_mem_nil, or_false] at hm
    rcases hm with rfl | rfl | rfl | rfl
    · exact ⟨"x", 5, rfl, hx, rfl, by decide⟩
    · exact ⟨2, rfl, by decide, by decide⟩
    · exact ⟨"x", 1, rfl, hx, rfl, by decide⟩
    · exact ⟨"x", rfl, Or.inl (by decide)⟩

theorem Program.run_toScript_countedTwice :
    ∃ script, countedTwice.toScript = .ok script ∧ ∀ budget : Int, 8 ≤ budget →
      (Script.run budget script).output =
        ["> Starting execution...", "> 7", "> Execution finished."] := by
  have hbound : ∀ x ∈ Engine.executions 7 (.start countedTwice),
      x.block.kind? = some .print → (x.before.vars.get? (.text "x")).isSome = true := by decide
  have hb : ∀ x ∈ Engine.executions 7 (.start countedTwice), x.Bound ["x"] := by
    intro x hx m hk _ hm
    rw [List.mem_singleton.1 hm]
    exact hbound x hx hk
  obtain ⟨script, hs, hrun⟩ := Program.run_toScript isPlain_countedTwice (n := 7) rfl hb
  exact ⟨script, hs, fun budget hl => (hrun budget hl).1⟩

end BlockScript
