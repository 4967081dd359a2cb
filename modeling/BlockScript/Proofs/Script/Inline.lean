import BlockScript.Proofs.Script.Trail
import BlockScript.Proofs.Value.NumberText

/-!
# Bodies on the line of their header

A header may carry a body behind its colon. To refuse one that is a header itself,
classification classifies it too, so two functions call each other, and nothing in
how they do says that they come to an end. They do, since what stands behind a
colon is shorter than the line. The body is kept as text and classified again
whenever it is executed; it is then found to be the simple statement that it was
found to be at first.
-/

set_option autoImplicit false

namespace BlockScript.Script

inductive Shape where
  | simple (statement : Simple)
  | block (header : Header) (inline : String)
  deriving DecidableEq, Repr

def Statement.shape : Statement → Shape
  | .simple statement => .simple statement
  | .block header inline => .block header ((inline.map Inline.text).getD "")

def inlineBody? (shape? : List Char → Option (Except LineFault Shape)) (inline : List Char) :
    Option (Except LineFault String) :=
  if inline.isEmpty then some (.ok "")
  else do
    match ← shape? inline with
    | .error fault => some (.error fault)
    | .ok (.block _ _) => some (.error (.nestedHeader (String.ofList inline)))
    | .ok (.simple _) => some (.ok (String.ofList inline))

/-- The shape of a text, as it is found by two functions that call each other. There
is no result if more texts would have to be looked at inside each other than the depth
allows. -/
def shape? : Nat → List Char → Option (Except LineFault Shape)
  | 0, _ => none
  | depth + 1, text =>
    if precedesHeaders text then some ((simple text).map .simple)
    else
      match header? text with
      | none => some ((simple text).map .simple)
      | some (header, rest) => do
        match ← inlineBody? (shape? depth) (Text.trim rest) with
        | .error fault => some (.error fault)
        | .ok inline => some (.ok (.block header inline))

section Calls

variable {depth : Nat} {text inline rest : List Char} {header : Header}

theorem map_shape_simple (result : Except LineFault Simple) :
    (result.map Statement.simple).map Statement.shape = result.map Shape.simple := by
  cases result <;> rfl

theorem shape?_of_precedes (h : precedesHeaders text = true) :
    shape? (depth + 1) text = some ((simple text).map .simple) := by
  rw [shape?, if_pos h]

theorem shape?_of_no_header (h : ¬ precedesHeaders text = true) (hh : header? text = none) :
    shape? (depth + 1) text = some ((simple text).map .simple) := by
  rw [shape?, if_neg h, hh]

theorem shape?_of_header (h : ¬ precedesHeaders text = true)
    (hh : header? text = some (header, rest)) (ht : Text.trim rest = inline)
    {body : Except LineFault String} (hb : inlineBody? (shape? depth) inline = some body) :
    shape? (depth + 1) text = some (body.map (Shape.block header)) := by
  rw [shape?, if_neg h, hh]
  simp only [ht, hb, Option.bind_eq_bind, Option.bind_some]
  cases body <;> rfl

theorem inlineBody?_of_shape? {c : Char} {cs : List Char} {result : Except LineFault Shape}
    (hs : ∀ depth, (c :: cs).length ≤ depth → shape? (depth + 1) (c :: cs) = some result)
    (hl : (c :: cs).length < depth) :
    inlineBody? (shape? depth) (c :: cs) = some (match result with
      | .error fault => .error fault
      | .ok (.block _ _) => .error (.nestedHeader (String.ofList (c :: cs)))
      | .ok (.simple _) => .ok (String.ofList (c :: cs))) := by
  obtain ⟨more, rfl⟩ := Nat.exists_eq_add_of_lt hl
  rw [inlineBody?, if_neg (by simp)]
  simp only [hs _ (Nat.le_add_right _ more), Option.bind_eq_bind, Option.bind_some]
  rcases result with fault | ⟨statement⟩ | ⟨header, inline⟩ <;> rfl

theorem trim_length_lt (hh : header? text = some (header, rest)) (ht : Text.trim rest = inline) :
    inline.length < text.length :=
  ht ▸ Nat.lt_of_le_of_lt (Text.trim_length_le rest) (header?_length hh)

end Calls

/-- The two functions always come to an end, with what the text is classified as. The
induction goes with the calls, from each text to what stands behind its colon. -/
theorem shape?_eq (text : List Char) {depth : Nat} (hd : text.length ≤ depth) :
    shape? (depth + 1) text = some ((classifyChars text).map Statement.shape) := by
  fun_induction classifyChars text generalizing depth with
  | case1 text hp => rw [shape?_of_precedes hp, map_shape_simple]
  | case2 text hp hh => rw [shape?_of_no_header hp hh, map_shape_simple]
  | case3 text hp header rest hh ht =>
    rw [shape?_of_header hp hh ht (rfl : inlineBody? _ [] = some (.ok ""))]
    rfl
  | case4 text hp header rest hh c cs ht fault hc ih =>
    rw [hc] at ih
    have hl := Nat.lt_of_lt_of_le (trim_length_lt hh ht) hd
    rw [shape?_of_header hp hh ht (inlineBody?_of_shape? @ih hl)]
    rfl
  | case5 text hp header rest hh c cs ht nested body hc ih =>
    rw [hc] at ih
    have hl := Nat.lt_of_lt_of_le (trim_length_lt hh ht) hd
    rw [shape?_of_header hp hh ht (inlineBody?_of_shape? @ih hl)]
    rfl
  | case6 text hp header rest hh c cs ht statement hc ih =>
    rw [hc] at ih
    have hl := Nat.lt_of_lt_of_le (trim_length_lt hh ht) hd
    rw [shape?_of_header hp hh ht (inlineBody?_of_shape? @ih hl)]
    rfl

theorem inline_length_lt {text : List Char} {header : Header} {inline : Inline} :
    classifyChars text = .ok (.block header (some inline)) →
      inline.text.toList.length < text.length := by
  fun_cases classifyChars text with
  | case1 hp => cases simple text <;> nofun
  | case2 hp hh => cases simple text <;> nofun
  | case3 => nofun
  | case4 => nofun
  | case5 => nofun
  | case6 hp header rest hh c cs ht statement hc =>
    rintro ⟨⟩
    rw [String.toList_ofList]
    exact trim_length_lt hh ht

/-- A body that the shape of a text shows is one that classification has found. -/
theorem exists_inline {text : List Char} {header : Header} {b : String} (hb : b ≠ "")
    (h : (classifyChars text).map Statement.shape = .ok (.block header b)) :
    ∃ statement, classifyChars text = .ok (.block header (some ⟨b, statement⟩)) := by
  cases hc : classifyChars text with
  | error fault =>
    rw [hc] at h
    cases h
  | ok statement =>
    rw [hc] at h
    cases statement with
    | simple statement => cases h
    | block header' inline =>
      cases inline with
      | none =>
        cases h
        exact absurd rfl hb
      | some inline =>
        cases h
        exact ⟨inline.statement, rfl⟩

/-- Executing a body as a line of its own executes the simple statement that it was
found to be, wherever the line is taken to stand. -/
theorem act_inline {text : List Char} {header : Header} {inline : Inline}
    (h : classifyChars text = .ok (.block header (some inline))) (budget : Int)
    (number indent : Nat) (rest : List Line) (inside : Run Unit) :
    act budget ⟨number, indent, inline.text.toList⟩ rest inside =
      runSimple number inline.statement := by
  rw [act, classifyChars_inline h]

/-- A simple statement fails for the sake of a value, never for that of its line. -/
theorem exists_value_of_runSimple {number : Nat} {statement : Simple} {s s' : State} {stop : Stop}
    (h : runSimple number statement s = .error stop s') :
    ∃ fault, stop = .failed number (.value fault) := by
  rw [runSimple_apply] at h
  split at h
  · cases h
  · cases h
    exact ⟨_, rfl⟩

/-- Bodies on the line of a header are simple statements. Classification ends on every
text, with a statement or a fault of the line, although it classifies what stands behind a
colon as well: no more texts are looked at inside each other than the text has characters,
and one. The numbers it reads are never refused. If it finds a header with a body, the
body is shorter than the line, and classified by itself it is a simple statement. So
executing it as a line, which is what running the header does, runs that statement: there is
no header to run, and it does not fail for the sake of the line. -/
theorem inline_bodies_simple :
    (∀ text depth, text.length < depth →
      shape? depth text = some ((classifyChars text).map Statement.shape)) ∧
    (∀ token, Text.trim token.toList = [] ∨ isNumberText token = true →
      ∃ n, (Value.text token).toNumber = .ok n ∧ Operand.parse token.toList = .number n) ∧
    ∀ text depth header b, text.length < depth →
      shape? depth text = some (.ok (.block header b)) → b ≠ "" →
      b.toList.length < text.length ∧
      ∃ statement, shape? depth b.toList = some (.ok (.simple statement)) ∧
        classifyChars text = .ok (.block header (some ⟨b, statement⟩)) ∧
        ∀ budget number indent rest inside,
          act budget ⟨number, indent, b.toList⟩ rest inside = runSimple number statement ∧
          runInline budget number ⟨b, statement⟩ = (do
            enter budget number b.toList
            act budget ⟨number, indent, b.toList⟩ rest inside) ∧
          ∀ s stop s', act budget ⟨number, indent, b.toList⟩ rest inside s = .error stop s' →
            ∃ fault, stop = .failed number (.value fault) := by
  have hshape : ∀ text depth, text.length < depth →
      shape? depth text = some ((classifyChars text).map Statement.shape) := by
    intro text depth hd
    obtain ⟨more, rfl⟩ := Nat.exists_eq_add_of_lt hd
    exact shape?_eq text (Nat.le_add_right _ more)
  refine ⟨hshape, ?_, ?_⟩
  · intro token h
    have hn : ∃ n, (Value.text token).toNumber = .ok n := by
      rcases h with hb | hn
      · exact ⟨_, Value.toNumber_of_blank hb⟩
      · obtain ⟨numeral, hp⟩ := Option.isSome_iff_exists.1 hn
        exact ⟨_, Value.toNumber_of_parse? hp⟩
    obtain ⟨n, hn⟩ := hn
    exact ⟨n, hn, (Operand.parse_eq_number_iff token n).2 hn⟩
  · intro text depth header b hd h hb
    rw [hshape text depth hd, Option.some_inj] at h
    obtain ⟨statement, hc⟩ := exists_inline hb h
    have hlt : b.toList.length < text.length := inline_length_lt hc
    refine ⟨hlt, statement, ?_, hc, ?_⟩
    · rw [hshape _ depth (Nat.lt_trans hlt hd), classifyChars_inline hc]
      rfl
    · intro budget number indent rest inside
      have ha := act_inline hc budget number indent rest inside
      refine ⟨ha, ?_, ?_⟩
      · rw [runInline_eq, ha]
      · intro s stop s' hr
        rw [ha] at hr
        exact exists_value_of_runSimple hr

theorem inline_bodies_simple_test :
    shape? 20 "if x > 3: print(x)".toList =
        some (.ok (.block (.test (.name "x") ">" (.number (.int 3))) "print(x)")) ∧
      ∃ statement, shape? 20 "print(x)".toList = some (.ok (.simple statement)) := by
  have h : shape? 20 "if x > 3: print(x)".toList =
      some (.ok (.block (.test (.name "x") ">" (.number (.int 3))) "print(x)")) := by
    decide +kernel
  obtain ⟨-, statement, hs, -⟩ := inline_bodies_simple.2.2 _ _ _ _ (by decide) h (by decide)
  exact ⟨h, statement, hs⟩

end BlockScript.Script
