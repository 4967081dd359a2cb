import BlockScript.Proofs.Failure
import BlockScript.Proofs.Script.Reading
import BlockScript.Script.Generate
import BlockScript.Script.Line

/-!
# What a block says in a script

A command is what a block asks for, with its parameters read. Each command has
the line that is written for it and the statement that is meant by it, and the
line is read as the statement.
-/

set_option autoImplicit false

namespace BlockScript

inductive Command where
  | start
  | printName (x : String)
  | printText (m : String)
  | wait (n : Int)
  | move (direction : String)
  | set (x : String) (n : Int)
  | change (x : String) (n : Int)
  | loop (n : Int)
  | branch (x : String) (comparison : Comparison) (n : Int)

def Block.Says (b : Block) : Command → Prop
  | .start => b.kind? = some .start
  | .printName m | .printText m => b.kind? = some .print ∧ b.param "message" = .ok (.text m)
  | .wait n => b.kind? = some .wait ∧ b.param "seconds" = .ok (.int n)
  | .move d => b.kind? = some .move ∧ b.param "direction" = .ok (.text d)
  | .set x n =>
    b.kind? = some .setVar ∧ b.param "name" = .ok (.text x) ∧ b.param "value" = .ok (.int n)
  | .change x n =>
    b.kind? = some .changeVar ∧ b.param "name" = .ok (.text x) ∧ b.param "value" = .ok (.int n)
  | .loop n => b.kind? = some .loop ∧ b.param "times" = .ok (.int n)
  | .branch x comparison n =>
    b.kind? = some .branch ∧ b.param "condition_var" = .ok (.text x) ∧
      b.param "operator" = .ok (.text comparison.symbol) ∧ b.param "value" = .ok (.int n)

/-- Text that a print call can quote: it would not be taken for a number, and
nothing in it would be taken for the end of an argument or of a line. -/
structure IsQuotable (m : String) : Prop where
  notNumber : isNumberText m = false
  noComma : ',' ∉ m.toList
  unbroken : '\n' ∉ m.toList

namespace Command

def Proper (names : List String) : Command → Prop
  | .start => True
  | .printName x => x ∈ names
  | .printText m => m ∉ names ∧ IsQuotable m
  | .wait n => IsShort n
  | .move d => d ∈ Kind.directions
  | .set x n | .change x n | .branch x _ n => x ∈ names ∧ IsShort n
  | .loop n => 1 ≤ n ∧ IsShort n

def surround (before s after : String) : String := before ++ s ++ after

def quoted (m : String) : String :=
  if m.toList.contains '"' then surround "'" m "'" else surround "\"" m "\""

def line : Command → String
  | .start => "# Program Start"
  | .printName x => surround "print(" x ")"
  | .printText m => surround "print(" (quoted m) ")"
  | .wait n => surround "time.sleep(" (toString n) ")"
  | .move d => surround "avatar.move(\"" d "\")"
  | .set x n => surround x " = " (toString n)
  | .change x n => surround x " += " (toString n)
  | .loop n => surround "for i in range(" (toString n) "):"
  | .branch x comparison n =>
    surround "if " (surround (surround x " " comparison.symbol) " " (toString n)) ":"

def statement? : Command → Option Script.Statement
  | .start => none
  | .printName x => some (.simple (.print [.name x]))
  | .printText m => some (.simple (.print [.text m]))
  | .wait n => some (.simple (.trace (line (.wait n))))
  | .move d => some (.simple (.trace (line (.move d))))
  | .set x n => some (.simple (.assign x (.number (.int n))))
  | .change x n => some (.simple (.increase x (.number (.int n))))
  | .loop n => some (.block (.rounds (.number (.int n))) none)
  | .branch x comparison n =>
    some (.block (.test (.name x) comparison.symbol (.number (.int n))) none)

end Command

namespace Script.Generate

theorem printArgument_eq (names : List String) (m : String) :
    printArgument names (.text m) =
      .ok (if (names.contains m || isNumberText m) = true then m else Command.quoted m) := rfl

theorem printArgument_name {names : List String} {x : String} (h : x ∈ names) :
    printArgument names (.text x) = .ok x := by
  rw [printArgument_eq, if_pos (by simp [h])]

theorem printArgument_text {names : List String} {m : String} (hm : m ∉ names)
    (hq : IsQuotable m) : printArgument names (.text m) = .ok (Command.quoted m) := by
  rw [printArgument_eq, if_neg (by simp [hm, hq.notNumber])]

theorem displayParam_of_int {b : Block} {name : String} {n : Int}
    (h : b.param name = .ok (.int n)) (hn : IsShort n) :
    displayParam b name = .ok (toString n) := by
  rw [displayParam, h]
  exact showInt_of_isShort hn

theorem bareParam_of_text {b : Block} {name s : String} (h : b.param name = .ok (.text s)) :
    bareParam b name = .ok s := by
  rw [bareParam, h]
  rfl

/-- The line written for a block is the line of what it says. -/
theorem lineOf_eq {names : List String} {b : Block} {c : Command} (hs : b.Says c)
    (hp : c.Proper names) : lineOf names b = .ok c.line := by
  cases c with
  | start =>
    have hk : b.kind? = some .start := hs
    rw [lineOf, hk]
    rfl
  | printName x =>
    rw [lineOf, hs.1]
    simp only [hs.2, Except.ok_bind, printArgument_name hp]
    rfl
  | printText m =>
    rw [lineOf, hs.1]
    simp only [hs.2, Except.ok_bind, printArgument_text hp.1 hp.2]
    rfl
  | wait n =>
    rw [lineOf, hs.1]
    simp only [displayParam_of_int hs.2 hp]
    rfl
  | move d =>
    rw [lineOf, hs.1]
    simp only [bareParam_of_text hs.2]
    rfl
  | set x n | change x n =>
    rw [lineOf, hs.1]
    simp only [bareParam_of_text hs.2.1, displayParam_of_int hs.2.2 hp.2]
    rfl
  | loop n =>
    rw [lineOf, hs.1]
    simp only [displayParam_of_int hs.2 hp.2]
    rfl
  | branch x comparison n =>
    obtain ⟨hk, hx, ho, hv⟩ := hs
    rw [lineOf, hk]
    simp only [conditionText, bareParam_of_text hx, bareParam_of_text ho,
      displayParam_of_int hv hp.2]
    rfl

end Script.Generate

namespace Command

open Script

theorem toList_surround (before s after : String) :
    (surround before s after).toList = before.toList ++ s.toList ++ after.toList := by
  rw [surround, String.toList_append, String.toList_append]

theorem toList_integer (n : Int) : (toString n).toList = integerText n := rfl

theorem toList_quoted (m : String) :
    ∃ q, (q = '"' ∨ q = '\'') ∧ (quoted m).toList = Operand.quote q m.toList := by
  unfold quoted
  split
  · exact ⟨'\'', Or.inr rfl, toList_surround _ _ _⟩
  · exact ⟨'"', Or.inl rfl, toList_surround _ _ _⟩

/-- The line of a command is read as the statement that is meant by it. -/
theorem classifyChars_line {names : List String} (hn : ∀ x ∈ names, IsName x) {c : Command}
    (hp : c.Proper names) {st : Statement} (hs : c.statement? = some st) :
    classifyChars c.line.toList = .ok st := by
  cases c with
  | start => cases hs
  | printName x =>
    cases hs
    have hx := hn x hp
    have hc : ',' ∉ x.toList := fun hc => absurd (hx.word _ hc) (by decide)
    rw [line, toList_surround, classifyChars_print hc, Operand.parse_name hx]
  | printText m =>
    cases hs
    obtain ⟨q, hq, hm⟩ := toList_quoted m
    have hc : ',' ∉ Operand.quote q m.toList := by
      have hqc : ',' ≠ q := by rcases hq with rfl | rfl <;> decide
      simp [Operand.quote, hqc, hp.2.noComma]
    rw [line, toList_surround, hm, classifyChars_print hc, Operand.parse_quote hq,
      String.ofList_toList]
  | wait n =>
    cases hs
    have hw : "time.sleep".toList ∈ traceWords := List.mem_cons_self
    have ht : (line (.wait n)).toList =
        "time.sleep".toList ++ '(' :: (integerText n ++ ")".toList) := toList_surround _ _ _
    rw [ht, classifyChars_trace hw, ← ht, String.ofList_toList]
  | move d =>
    cases hs
    have hw : "avatar.move".toList ∈ traceWords := List.mem_cons_of_mem _ List.mem_cons_self
    have ht : (line (.move d)).toList =
        "avatar.move".toList ++ '(' :: ('"' :: (d.toList ++ "\")".toList)) := toList_surround _ _ _
    rw [ht, classifyChars_trace hw, ← ht, String.ofList_toList]
  | set x n =>
    cases hs
    have hx := isWord_of_isName (hn x hp.1)
    rw [line, toList_surround, toList_integer, classifyChars_assign hx (isExpression_integerText n),
      Operand.parse_integerText hp.2, String.ofList_toList]
  | change x n =>
    cases hs
    have hx := isWord_of_isName (hn x hp.1)
    rw [line, toList_surround, toList_integer,
      classifyChars_increase hx (isExpression_integerText n), Operand.parse_integerText hp.2,
      String.ofList_toList]
  | loop n =>
    cases hs
    rw [line, toList_surround, toList_integer, classifyChars_rounds, Operand.parse_integerText hp.2]
  | branch x comparison n =>
    cases hs
    have hx := hn x hp.1
    have ht : (line (.branch x comparison n)).toList =
        "if ".toList ++ testText x.toList comparison n := by
      simp only [line, toList_surround, toList_integer, testText, List.append_assoc]
      rfl
    rw [ht, classifyChars_test (isWord_of_isName hx), Operand.parse_name hx,
      Operand.parse_integerText hp.2]

theorem tight_line {names : List String} (hn : ∀ x ∈ names, IsName x) {c : Command}
    (hp : c.Proper names) : Text.Tight c.line.toList := by
  cases c with
  | start => decide
  | printName | printText | wait | move | loop =>
    rw [line, toList_surround]
    exact Text.tight_surround (by decide) (by decide) _
  | set x n | change x n =>
    rw [line, toList_surround]
    exact Text.tight_surround (hn x hp.1).tight (tight_integerText n) _
  | branch x comparison n =>
    rw [line, toList_surround]
    exact Text.tight_surround (a := "if".toList) (by decide) (by decide) (' ' :: _)

theorem not_mem_name {names : List String} (hn : ∀ x ∈ names, IsName x) {x : String}
    (hx : x ∈ names) {c : Char} (hc : Text.isWord c = false) : c ∉ x.toList := by
  intro hm
  rw [(hn x hx).word c hm] at hc
  cases hc

theorem not_mem_surround {before s after : String} {c : Char} (hb : c ∉ before.toList)
    (hs : c ∉ s.toList) (ha : c ∉ after.toList) : c ∉ (surround before s after).toList := by
  rw [toList_surround, List.mem_append, List.mem_append, not_or, not_or]
  exact ⟨⟨hb, hs⟩, ha⟩

theorem unbroken_integer (n : Int) : '\n' ∉ (toString n).toList :=
  (isExpression_integerText n).unbroken

theorem unbroken_line {names : List String} (hn : ∀ x ∈ names, IsName x) {c : Command}
    (hp : c.Proper names) : '\n' ∉ c.line.toList := by
  cases c with
  | start => decide
  | printName x =>
    exact not_mem_surround (by decide) (not_mem_name hn hp (by decide)) (by decide)
  | printText m =>
    obtain ⟨q, hq, hm⟩ := toList_quoted m
    have hqc : '\n' ≠ q := by rcases hq with rfl | rfl <;> decide
    have hmc : '\n' ∉ (quoted m).toList := by
      simp [hm, Operand.quote, hqc, hp.2.unbroken]
    exact not_mem_surround (by decide) hmc (by decide)
  | wait n | loop n => exact not_mem_surround (by decide) (unbroken_integer n) (by decide)
  | move d =>
    have hall : ∀ e ∈ Kind.directions, '\n' ∉ e.toList := by decide
    exact not_mem_surround (by decide) (hall d hp) (by decide)
  | set x n | change x n =>
    exact not_mem_surround (not_mem_name hn hp.1 (by decide)) (by decide) (unbroken_integer n)
  | branch x comparison n =>
    have hx := not_mem_name hn hp.1 (c := '\n') (by decide)
    have ho : '\n' ∉ comparison.symbol.toList := by cases comparison <;> decide
    exact not_mem_surround (by decide) (not_mem_surround (not_mem_surround hx (by decide) ho)
      (by decide) (unbroken_integer n)) (by decide)

theorem isSkippable_line {names : List String} (hn : ∀ x ∈ names, IsName x) {c : Command}
    (hp : c.Proper names) (number indent : Nat) :
    (Line.mk number indent c.line.toList).isSkippable = c.statement?.isNone := by
  cases c with
  | start => rfl
  | printName | printText | wait | move | loop | branch =>
    rw [line, toList_surround]
    rfl
  | set x n | change x n =>
    obtain ⟨c, rest, hx⟩ := List.exists_cons_of_ne_nil (hn x hp.1).ne_empty
    have hc := not_mem_name hn hp.1 (c := '#') (by decide)
    rw [hx, List.mem_cons, not_or] at hc
    rw [line, toList_surround, hx]
    simp [Line.isSkippable, Ne.symm hc.1, statement?]

end Command

end BlockScript
