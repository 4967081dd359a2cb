import BlockScript.Proofs.Conversion.Command
import BlockScript.Proofs.Engine.Flags
import BlockScript.Proofs.Engine.Bound
import BlockScript.Proofs.Value.Showing

/-!
# Bound variables are listed

The names of a program are read off its blocks without running them, and blocks
that are never reached count as well. A running program binds no name but those of
its blocks, under the spelling that came first, so each of them is in the list. A
message that the engine takes for a variable then stands bare in the script.
-/

set_option autoImplicit false

namespace BlockScript

namespace Block

def NamesItsVariable (b : Block) : Prop :=
  b.kind? = some .setVar ∨ b.kind? = some .changeVar →
    Bindings.get? b.params "name" ≠ some .null

end Block

namespace Program

theorem exists_variableNames_iff (program : Program) :
    (∃ names, program.variableNames = .ok names) ↔
      ∀ b ∈ program.walk, ∀ v, variableName? b = some v → ¬ v.HoldsLong := by
  constructor
  · rintro ⟨names, h⟩ b hb v hv hl
    obtain ⟨x, hx⟩ := (lists_variableNames h).shown b hb v hv
    obtain ⟨fault, hf⟩ := v.fails_bare_iff.2 hl
    rw [hx] at hf
    cases hf
  · refine fun h => exists_variableNames fun b hb v hv => ?_
    cases hx : v.bare with
    | ok x => exact ⟨x, rfl⟩
    | error fault => exact absurd (v.fails_bare_iff.1 ⟨fault, hx⟩) (h b hb v hv)

end Program

namespace Engine

variable {program : Program}

theorem runFor_named (h : ∀ b ∈ program.walk, b.NamesItsVariable) (n : Nat) :
    (runFor n (start program)).Names fun name =>
      ∃ b ∈ program.walk, Program.variableName? b = some name.toValue := by
  refine runFor_names n (start_sound program) ?_ nofun
  intro b hb v name hk hp ho
  refine ⟨b, hb, ?_⟩
  rw [VarName.toValue_of_ofValue ho]
  have hn := h b hb hk
  rcases hk with hk | hk
  · exact Program.variableName?_eq_param hk rfl hn hp
  · exact Program.variableName?_eq_param hk rfl hn hp

end Engine

namespace Flagged.Engine

open Program (variableName? goesBy)

/-- Whatever calls are made to the engine of a program, the bare form of every name
that is bound is one of the names of the program. These are told apart and stand in
the order in which blocks first go by them. So a message that the engine shows the
value of a variable for is printed bare. -/
theorem bound_names_listed {program : Program} {steps : Nat} {e : Engine}
    (hn : ∀ b ∈ program.walk, b.NamesItsVariable) (h : Reached program steps e) :
    ((∃ names, program.variableNames = .ok names) ↔
      ∀ b ∈ program.walk, ∀ v, variableName? b = some v → ¬ v.HoldsLong) ∧
    ∀ names, program.variableNames = .ok names →
      (∀ binding ∈ e.state.vars, ∃ x ∈ names, binding.1.bare = .ok x) ∧
      names.Nodup ∧
      (∀ x, x ∈ names ↔ ∃ b ∈ program.walk, goesBy b x = true) ∧
      (names.Pairwise fun x y =>
        program.walk.findIdx (goesBy · x) < program.walk.findIdx (goesBy · y)) ∧
      ∀ (b : Block) (s : String), b.kind? = some .print → b.param "message" = .ok (.text s) →
        (e.store.vars.get? (.text s)).isSome →
        Script.Generate.lineOf names b = .ok ("print(" ++ s ++ ")") := by
  refine ⟨program.exists_variableNames_iff, fun names hv => ?_⟩
  have hl := Program.lists_variableNames hv
  rw [h.eq_flagged]
  refine ⟨?_, ?_, hl.mem_iff, hl.ordered, ?_⟩
  · intro binding hb
    obtain ⟨⟨name, n⟩, hm, rfl⟩ := List.mem_map.1 hb
    obtain ⟨b, hw, hname⟩ := BlockScript.Engine.runFor_named hn steps _ hm
    obtain ⟨x, hx⟩ := hl.shown b hw _ hname
    exact ⟨x, (hl.mem_iff x).2 ⟨b, hw, (Program.goesBy_iff b x).2 ⟨_, hname, hx⟩⟩, hx⟩
  · refine hl.ordered.imp ?_
    rintro x y hlt rfl
    exact Nat.lt_irrefl _ hlt
  · intro b s hk hp hs
    have hm : s ∈ names := by
      by_contra hx
      have hg := BlockScript.Engine.get?_runFor_of_not_mem steps hv hx
      rw [BlockScript.Engine.flagged, hg] at hs
      cases hs
    have hsays : b.Says (.printName s) := ⟨hk, hp⟩
    exact Script.Generate.lineOf_eq hsays hm

/-- A name left out, a truth value and an integer that is the same name, inside a loop. -/
theorem bound_names_listed_loop :
    let message : Block := ⟨"p", "print", [("message", .text "score")], none⟩
    let program : Program :=
      [⟨"r", "repeat", [], some
        [⟨"s", "set_var", [("value", .number (.int 7))], none⟩,
         ⟨"t", "set_var", [("name", .bool true)], none⟩,
         ⟨"c", "change_var", [("name", .number (.int 1))], none⟩, message]⟩]
    let e := (start program).next.next.next.next
    let names := ["score", "True", "1"]
    (∀ b ∈ program.walk, b.NamesItsVariable) ∧ Reached program 4 e ∧
      program.variableNames = .ok names ∧ e.state.vars.length = 2 ∧
      (∀ binding ∈ e.state.vars, ∃ x ∈ names, binding.1.bare = .ok x) ∧
      Script.Generate.lineOf names message = .ok "print(score)" := by
  intro message program e names
  have hn : ∀ b ∈ program.walk, b.NamesItsVariable := by
    intro b hb
    have hw : program.walk = program ++ program.flatMap Block.body := rfl
    simp only [hw, program, Block.body, List.flatMap_singleton, Option.getD_some,
      List.singleton_append, List.mem_cons, List.not_mem_nil, or_false] at hb
    rcases hb with rfl | rfl | rfl | rfl | rfl <;> intro _ <;> simp [Bindings.get?, message]
  have h : Reached program 4 e := .step (.step (.step (.step .start)))
  have hv : program.variableNames = .ok names := by decide +kernel
  obtain ⟨hb, -, -, -, hl⟩ := (bound_names_listed hn h).2 names hv
  have hs : (e.store.vars.get? (.text "score")).isSome = true := by decide +kernel
  exact ⟨hn, h, hv, by decide +kernel, hb, hl message "score" rfl rfl hs⟩

end Flagged.Engine

end BlockScript
