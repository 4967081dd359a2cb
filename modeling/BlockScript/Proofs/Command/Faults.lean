import BlockScript.Command.Perform
import BlockScript.Proofs.Block.Validity
import BlockScript.Proofs.Engine.Failing

/-!
# The classes of faults

Faults belong to classes. A wrong value in a file is of one class, whatever is wrong
with it, but values can provoke others too: a list where a name is needed, an integer
too large for the number it is added to. Those come up only when a block is executed,
and the engine keeps them. What loads, checks, converts or shows a program fails for a
wrong value and for nothing else.
-/

set_option autoImplicit false

namespace BlockScript

inductive FaultClass where
  | value
  | kind
  | overflow
  | attribute
  | system
  deriving DecidableEq, Repr

def Fault.faultClass : Fault → FaultClass
  | .notNumber _ | .tooManyDigits | .missingParameter _ _ _ => .value
  | .integerTooLarge => .overflow
  | .notName _ => .kind

def Violation.faultClass : Violation → FaultClass
  | .unshowable fault => fault.faultClass
  | _ => .value

def LoadFault.faultClass : LoadFault → FaultClass
  | .invalid violation => violation.faultClass
  | _ => .value

def FileFault.faultClass : FileFault → FaultClass
  | .holdsNull => .value
  | _ => .system

def Command.Lacking.faultClass : Command.Lacking → FaultClass
  | .path => .attribute
  | .budget => .kind

namespace Validation

variable {scope : Scope}

theorem onlyFails_checkInput (id : String) (params : List (String × Value)) (scope : Scope)
    (input : Input) :
    Except.OnlyFails (·.faultClass = .value) (checkInput id params scope input) := by
  unfold checkInput
  split
  · next v _ _ =>
    split
    · exact Except.onlyFails_ok _
    · cases hl : v.literal with
      | ok shown =>
        rintro _ ⟨⟩
        rfl
      | error fault =>
        have hf : fault = .tooManyDigits := v.onlyFails_literal fault hl
        rintro _ ⟨⟩
        rw [hf]
        rfl
  · exact Except.onlyFails_ok _

theorem onlyFails_checkHead (scope : Scope) (seen : Seen) (b : Block) :
    Except.OnlyFails (·.faultClass = .value) (checkHead scope seen b) := by
  rw [checkHead_eq]
  split
  · rintro _ ⟨⟩
    rfl
  · split
    · rintro _ ⟨⟩
      rfl
    · rintro _ ⟨⟩
      rfl
    · refine (Except.OnlyFails.forM (onlyFails_checkInput b.id b.params scope) _).bind
        fun _ _ => ?_
      split
      · rintro _ ⟨⟩
        rfl
      · exact Except.onlyFails_ok _

mutual

theorem onlyFails_checkBlock (scope : Scope) (seen : Seen) : ∀ b : Block,
    Except.OnlyFails (·.faultClass = .value) (checkBlock scope seen b)
  | ⟨id, type, params, none⟩ => by
    rw [checkBlock]
    exact (onlyFails_checkHead scope seen _).bind fun _ _ => Except.onlyFails_ok _
  | ⟨id, type, params, some inner⟩ => by
    rw [checkBlock]
    exact (onlyFails_checkHead scope seen _).bind fun _ _ => onlyFails_checkBlocks _ _ inner

theorem onlyFails_checkBlocks (scope : Scope) (seen : Seen) : ∀ bs : List Block,
    Except.OnlyFails (·.faultClass = .value) (checkBlocks scope seen bs)
  | [] => Except.onlyFails_ok _
  | b :: bs => by
    rw [checkBlocks]
    exact (onlyFails_checkBlock scope seen b).bind fun seen' _ =>
      onlyFails_checkBlocks scope seen' bs

end

end Validation

theorem Program.onlyFails_validate (program : Program) :
    Except.OnlyFails (·.faultClass = .value) program.validate := by
  intro violation h
  rw [validate] at h
  cases hc : Validation.checkBlocks .program [] program with
  | ok seen =>
    rw [hc] at h
    cases h
  | error violation' =>
    rw [hc] at h
    cases h
    exact Validation.onlyFails_checkBlocks _ _ _ _ hc

namespace Storage

theorem onlyFails_readText (path : Path) (octets : Option (List UInt8)) :
    Except.OnlyFails (·.faultClass = .value) (readText path octets) := by
  unfold readText
  split
  · rintro _ ⟨⟩
    rfl
  · split
    · rintro _ ⟨⟩
      rfl
    · exact Except.onlyFails_ok _

variable (hold : Nat → List Char)

theorem onlyFails_parseProgram (path : Path) (validate : Bool) (text : String) :
    Except.OnlyFails (·.faultClass = .value) (parseProgram hold path validate text) := by
  unfold parseProgram
  split
  · rintro _ ⟨⟩
    rfl
  · split
    · rintro _ ⟨⟩
      rfl
    · next program _ =>
      split
      · cases hv : program.validate with
        | ok =>
          exact Except.onlyFails_ok _
        | error violation =>
          rintro _ ⟨⟩
          exact program.onlyFails_validate violation hv
      · exact Except.onlyFails_ok _

/-- Whatever octets a file holds, loading a program from it fails for a wrong value only. -/
theorem onlyFails_loadProgramBy (path : Path) (validate : Bool) (octets : Option (List UInt8)) :
    Except.OnlyFails (·.faultClass = .value) (loadProgramBy hold path validate octets) :=
  (onlyFails_readText path octets).bind fun _ _ => onlyFails_parseProgram hold path validate _

theorem onlyFails_loadScriptBy (path : Path) (octets : Option (List UInt8)) :
    Except.OnlyFails (·.faultClass = .value) (loadScriptBy hold path octets) :=
  (onlyFails_readText path octets).bind fun _ _ => Except.onlyFails_ok _

end Storage

namespace Script.Generate

variable {b : Block} {kind : Kind} {name : String}

theorem onlyFails_printArgument (names : List String) (message : Value) :
    Except.OnlyFails (· = .tooManyDigits) (printArgument names message) :=
  message.onlyFails_display.bind fun _ _ => Except.onlyFails_ok _

theorem onlyFails_bareParam (hk : b.kind? = some kind) (hi : (kind.input? name).isSome = true) :
    Except.OnlyFails (· = .tooManyDigits) (bareParam b name) := by
  obtain ⟨v, hv⟩ := Block.exists_param hk name hi
  rw [bareParam, hv, Except.ok_bind]
  exact v.onlyFails_bare

theorem onlyFails_displayParam (hk : b.kind? = some kind)
    (hi : (kind.input? name).isSome = true) :
    Except.OnlyFails (· = .tooManyDigits) (displayParam b name) := by
  obtain ⟨v, hv⟩ := Block.exists_param hk name hi
  rw [displayParam, hv, Except.ok_bind]
  exact v.onlyFails_display

theorem onlyFails_conditionText (hk : b.kind? = some kind)
    (hc : kind = .branch ∨ kind = .loopUntil) :
    Except.OnlyFails (· = .tooManyDigits) (conditionText b) := by
  have hi : ∀ name ∈ ["condition_var", "operator", "value"],
      (kind.input? name).isSome = true := by
    rcases hc with rfl | rfl <;> decide
  exact (onlyFails_bareParam hk (hi _ (by decide))).bind fun _ _ =>
    (onlyFails_bareParam hk (hi _ (by decide))).bind fun _ _ =>
      (onlyFails_displayParam hk (hi _ (by decide))).bind fun _ _ => Except.onlyFails_ok _

theorem onlyFails_lineOf (names : List String) (b : Block) :
    Except.OnlyFails (· = .tooManyDigits) (lineOf names b) := by
  unfold lineOf
  cases hk : b.kind? with
  | none => exact Except.onlyFails_ok _
  | some kind =>
    cases kind with
    | start => exact Except.onlyFails_ok _
    | print =>
      obtain ⟨message, hm⟩ := Block.exists_param hk "message" rfl
      simp only [hm, Except.ok_bind]
      exact (onlyFails_printArgument names message).bind fun _ _ => Except.onlyFails_ok _
    | wait => exact (onlyFails_displayParam hk rfl).bind fun _ _ => Except.onlyFails_ok _
    | move => exact (onlyFails_bareParam hk rfl).bind fun _ _ => Except.onlyFails_ok _
    | setVar | changeVar =>
      exact (onlyFails_bareParam hk rfl).bind fun _ _ =>
        (onlyFails_displayParam hk rfl).bind fun _ _ => Except.onlyFails_ok _
    | loop => exact (onlyFails_displayParam hk rfl).bind fun _ _ => Except.onlyFails_ok _
    | loopUntil =>
      exact (onlyFails_conditionText hk (.inr rfl)).bind fun _ _ => Except.onlyFails_ok _
    | branch =>
      exact (onlyFails_conditionText hk (.inl rfl)).bind fun _ _ => Except.onlyFails_ok _

mutual

theorem onlyFails_linesOf (names : List String) (depth : Nat) : ∀ b : Block,
    Except.OnlyFails (· = .tooManyDigits) (linesOf names depth b)
  | ⟨id, type, params, none⟩ => by
    rw [linesOf]
    exact (onlyFails_lineOf names _).bind fun _ _ => Except.onlyFails_ok _
  | ⟨id, type, params, some inner⟩ => by
    rw [linesOf]
    exact (onlyFails_lineOf names _).bind fun _ _ =>
      (onlyFails_linesOfAll names (depth + 1) inner).bind fun _ _ => Except.onlyFails_ok _

theorem onlyFails_linesOfAll (names : List String) (depth : Nat) : ∀ bs : List Block,
    Except.OnlyFails (· = .tooManyDigits) (linesOfAll names depth bs)
  | [] => Except.onlyFails_ok _
  | b :: bs => by
    rw [linesOfAll]
    exact (onlyFails_linesOf names depth b).bind fun _ _ =>
      (onlyFails_linesOfAll names depth bs).bind fun _ _ => Except.onlyFails_ok _

end

end Script.Generate

namespace Program

theorem onlyFails_variableNames (program : Program) :
    Except.OnlyFails (· = .tooManyDigits) program.variableNames :=
  Except.OnlyFails.foldlM
    (fun _ v => v.onlyFails_bare.bind fun _ _ => Except.onlyFails_ok _) _ _

theorem onlyFails_toScript (program : Program) :
    Except.OnlyFails (· = .tooManyDigits) program.toScript :=
  program.onlyFails_variableNames.bind fun names _ =>
    (Script.Generate.onlyFails_linesOfAll names 0 program).bind fun _ _ => Except.onlyFails_ok _

end Program

namespace Json

variable {style : Style}

theorem onlyFails_writeNumber (n : Number) :
    Except.OnlyFails (· = .tooManyDigits) (writeNumber n) := by
  cases n with
  | int n => exact Value.onlyFails_showInt n
  | float x => exact Except.onlyFails_ok _

mutual

theorem onlyFails_writeAt (depth : Nat) : ∀ v : Value,
    Except.OnlyFails (· = .tooManyDigits) (writeAt style depth v)
  | .null => Except.onlyFails_ok _
  | .bool _ => Except.onlyFails_ok _
  | .number n => onlyFails_writeNumber n
  | .text _ => Except.onlyFails_ok _
  | .list items => by
    rw [writeAt]
    exact (onlyFails_writeItems (depth + 1) items).bind fun _ _ => Except.onlyFails_ok _
  | .record fields => by
    rw [writeAt]
    exact (onlyFails_writeFields (depth + 1) fields).bind fun _ _ => Except.onlyFails_ok _

theorem onlyFails_writeItems (depth : Nat) : ∀ items : List Value,
    Except.OnlyFails (· = .tooManyDigits) (writeItems style depth items)
  | [] => Except.onlyFails_ok _
  | item :: items => by
    rw [writeItems]
    exact (onlyFails_writeAt depth item).bind fun _ _ =>
      (onlyFails_writeItems depth items).bind fun _ _ => Except.onlyFails_ok _

theorem onlyFails_writeFields (depth : Nat) : ∀ fields : List (String × Value),
    Except.OnlyFails (· = .tooManyDigits) (writeFields style depth fields)
  | [] => Except.onlyFails_ok _
  | (name, v) :: fields => by
    rw [writeFields]
    exact (onlyFails_writeAt depth v).bind fun _ _ =>
      (onlyFails_writeFields depth fields).bind fun _ _ => Except.onlyFails_ok _

end

end Json

namespace Command

theorem onlyFails_jsonName (name : VarName) :
    Except.OnlyFails (· = .tooManyDigits) (jsonName name) := by
  cases name with
  | null | bool | text => exact Except.onlyFails_ok _
  | number n => exact Json.onlyFails_writeNumber n

theorem onlyFails_stateRecord (e : Engine) :
    Except.OnlyFails (· = .tooManyDigits) (stateRecord e) := by
  refine (Except.OnlyFails.mapM ?_ e.store.vars).bind fun _ _ => Except.onlyFails_ok _
  rintro ⟨name, n⟩
  exact (onlyFails_jsonName name).bind fun _ _ => Except.onlyFails_ok _

theorem onlyFails_variablesLine (e : Engine) :
    Except.OnlyFails (· = .tooManyDigits) (variablesLine e) := by
  refine (Except.OnlyFails.mapM ?_ e.store.vars).bind fun _ _ => Except.onlyFails_ok _
  rintro ⟨name, n⟩
  exact name.toValue.onlyFails_bare.bind fun _ _ =>
    (Value.onlyFails_literal (.number n)).bind fun _ _ => Except.onlyFails_ok _

end Command

end BlockScript
