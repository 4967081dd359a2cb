import BlockScript.Script.Operand
import BlockScript.Text.Split
import BlockScript.Text.Word

/-!
# Script statements

A line of a script is an assignment, an increment, a call that prints, a call
that is only traced, a loop or a test; every other line is inert. The forms are
tried in a fixed order and the first that fits is taken. Loops and tests may
carry a statement on their own line, which must then be a simple one.

A line may hold line breaks when it does not come from a script; no part of a
statement goes past one, but for a single break at the very end.
-/

set_option autoImplicit false

namespace BlockScript.Script

inductive Simple where
  | assign (name : String) (value : Operand)
  | increase (name : String) (value : Operand)
  | print (args : List Operand)
  | trace (text : String)
  | inert (text : String)
  deriving DecidableEq, Repr

inductive Header where
  | rounds (count : Operand)
  | test (subject : Operand) (operator : String) (value : Operand)
  deriving DecidableEq, Repr

structure Inline where
  text : String
  statement : Simple
  deriving DecidableEq, Repr

inductive Statement where
  | simple (statement : Simple)
  | block (header : Header) (inline : Option Inline)
  deriving DecidableEq, Repr

inductive LineFault where
  | unclosedPrint (text : String)
  | nestedHeader (inline : String)
  deriving DecidableEq, Repr

def LineFault.message : LineFault → String
  | .unclosedPrint text => s!"Expected ')' to close print call: {text}"
  | .nestedHeader inline => s!"Expected a simple statement after ':', got block header: {inline}"

def lineRest? : List Char → Option (List Char)
  | [] => some []
  | ['\n'] => some []
  | c :: rest => if c = '\n' then none else (lineRest? rest).map (c :: ·)

def nameThen (text : List Char) : Option (List Char × List Char) :=
  match text.takeWhile Text.isWord with
  | [] => none
  | name => some (name, Text.trimStart (text.dropWhile Text.isWord))

def assignment? (text : List Char) : Option (List Char × List Char) := do
  let (name, rest) ← nameThen text
  match rest with
  | '=' :: '=' :: _ => none
  | '=' :: expression => return (name, ← lineRest? (Text.trimStart expression))
  | _ => none

def increment? (text : List Char) : Option (List Char × List Char) := do
  let (name, rest) ← nameThen text
  match rest with
  | '+' :: '=' :: expression => return (name, ← lineRest? (Text.trimStart expression))
  | _ => none

def shortest {α : Type} (fits : List Char → Option α) : List Char → Option (List Char × α)
  | [] => none
  | c :: rest =>
    if c = '\n' then none
    else
      match fits rest with
      | some a => some ([c], a)
      | none => (shortest fits rest).map fun (part, a) => (c :: part, a)

def colonThen (text : List Char) : Option (List Char) :=
  match Text.trimStart text with
  | ':' :: rest => lineRest? rest
  | _ => none

def bracketColonThen : List Char → Option (List Char)
  | ')' :: rest => colonThen rest
  | _ => none

def rangeWord : List Char := "range(".toList

def range? : List Char → Option (List Char × List Char)
  | [] => none
  | c :: rest =>
    match (Text.after? rangeWord (c :: rest)).bind (shortest bracketColonThen) with
    | some found => some found
    | none => if c = '\n' then none else range? rest

def isOperatorChar (c : Char) : Bool := c == '<' || c == '>' || c == '=' || c == '!'

def runs (p : Char → Bool) (least : Nat) (text : List Char) : List (List Char × List Char) :=
  let size := (text.takeWhile p).length
  (List.range (size + 1 - least)).map fun n => (text.take (size - n), text.drop (size - n))

/-- What follows the word of a test: a name, an operator, a value, a colon and
the rest of the line. The operator is as long as the rest allows, and so are
the blanks after it. -/
def test? (text : List Char) : Option ((List Char × List Char × List Char) × List Char) := do
  let (subject, rest) ← nameThen (Text.trimStart text)
  (runs isOperatorChar 1 rest).findSome? fun (operator, afterOperator) =>
    (runs Text.isBlank 0 afterOperator).findSome? fun (_, afterBlanks) => do
      let (value, rest) ← shortest colonThen afterBlanks
      return ((subject, operator, value), rest)

def header? (text : List Char) : Option (Header × List Char) :=
  match Text.after? "for ".toList text with
  | some rest => (range? rest).map fun (count, inline) => (.rounds (.parse count), inline)
  | none =>
    match Text.after? "if ".toList text with
    | some rest =>
      (test? rest).map fun ((subject, operator, value), inline) =>
        (.test (.parse subject) (String.ofList operator) (.parse value), inline)
    | none => none

def printWord : List Char := "print(".toList

def traceWords : List (List Char) := ["time.sleep".toList, "avatar.move".toList]

def printArgs? (content : List Char) : Option (List Operand) :=
  if content.getLast? = some ')' then
    some ((Text.splitOn ',' content.dropLast).map Operand.parse)
  else none

def simple (text : List Char) : Except LineFault Simple :=
  match assignment? text with
  | some (name, value) => .ok (.assign (String.ofList name) (.parse value))
  | none =>
    match increment? text with
    | some (name, value) => .ok (.increase (String.ofList name) (.parse value))
    | none =>
      match Text.after? printWord text with
      | some content =>
        match printArgs? content with
        | some args => .ok (.print args)
        | none => .error (.unclosedPrint (String.ofList text))
      | none =>
        if traceWords.any fun word => Text.startsWith word text then
          .ok (.trace (String.ofList text))
        else .ok (.inert (String.ofList text))

def precedesHeaders (text : List Char) : Bool :=
  (assignment? text).isSome || (increment? text).isSome || Text.startsWith printWord text ||
    traceWords.any fun word => Text.startsWith word text

theorem lineRest?_length {text rest : List Char} (h : lineRest? text = some rest) :
    rest.length ≤ text.length := by
  fun_induction lineRest? text generalizing rest with
  | case1 => simp_all
  | case2 => simp_all
  | case3 => simp at h
  | case4 c text _ _ ih =>
    obtain ⟨part, hp, rfl⟩ := Option.map_eq_some_iff.1 h
    simpa using ih hp

theorem colonThen_length {text rest : List Char} (h : colonThen text = some rest) :
    rest.length < text.length := by
  unfold colonThen at h
  split at h
  · next tail ht =>
    have h1 := lineRest?_length h
    have h2 := Text.trimStart_length_le text
    rw [ht, List.length_cons] at h2
    omega
  · cases h

theorem bracketColonThen_length {text rest : List Char} (h : bracketColonThen text = some rest) :
    rest.length < text.length := by
  unfold bracketColonThen at h
  split at h
  · have := colonThen_length h
    simp only [List.length_cons]
    omega
  · cases h

theorem shortest_length {fits : List Char → Option (List Char)}
    (hf : ∀ text rest, fits text = some rest → rest.length < text.length)
    {text part rest : List Char} (h : shortest fits text = some (part, rest)) :
    rest.length < text.length := by
  induction text generalizing part with
  | nil => simp [shortest] at h
  | cons c text ih =>
    simp only [shortest] at h
    split at h
    · cases h
    · split at h
      · next a ha =>
        simp only [Option.some.injEq, Prod.mk.injEq] at h
        have := hf _ _ ha
        rw [h.2] at this
        simp only [List.length_cons]
        omega
      · obtain ⟨⟨part', rest'⟩, hp, he⟩ := Option.map_eq_some_iff.1 h
        simp only [Prod.mk.injEq] at he
        have := ih (he.2 ▸ hp)
        simp only [List.length_cons]
        omega

theorem range?_length {text count rest : List Char} (h : range? text = some (count, rest)) :
    rest.length < text.length := by
  induction text with
  | nil => simp [range?] at h
  | cons c text ih =>
    simp only [range?] at h
    split at h
    · next found hb =>
      obtain ⟨tail, ht, hs⟩ := Option.bind_eq_some_iff.1 hb
      have h1 := shortest_length (fun _ _ => bracketColonThen_length) (h ▸ hs)
      have h2 := congrArg List.length (Text.after?_eq_some ht)
      rw [List.length_append] at h2
      omega
    · split at h
      · cases h
      · have := ih h
        simp only [List.length_cons]
        omega

theorem runs_length {p : Char → Bool} {least : Nat} {text part rest : List Char}
    (h : (part, rest) ∈ runs p least text) : rest.length ≤ text.length := by
  simp only [runs, List.mem_map, Prod.mk.injEq] at h
  obtain ⟨n, _, _, rfl⟩ := h
  simp

theorem nameThen_length {text name rest : List Char} (h : nameThen text = some (name, rest)) :
    rest.length ≤ text.length := by
  unfold nameThen at h
  split at h
  · cases h
  · simp only [Option.some.injEq, Prod.mk.injEq] at h
    rw [← h.2]
    exact Nat.le_trans (Text.trimStart_length_le _) (List.dropWhile_sublist _).length_le

theorem test?_length {text rest : List Char} {parts : List Char × List Char × List Char}
    (h : test? text = some (parts, rest)) : rest.length < text.length := by
  obtain ⟨⟨subject, rest₀⟩, hn, h⟩ := Option.bind_eq_some_iff.1 h
  obtain ⟨⟨operator, rest₁⟩, ho, h⟩ := List.exists_of_findSome?_eq_some h
  obtain ⟨⟨blanks, rest₂⟩, hb, h⟩ := List.exists_of_findSome?_eq_some h
  obtain ⟨⟨value, rest₃⟩, hs, h⟩ := Option.bind_eq_some_iff.1 h
  simp only [Option.pure_def, Option.some.injEq, Prod.mk.injEq] at h
  have h0 := nameThen_length hn
  have h1 := runs_length ho
  have h2 := runs_length hb
  have h3 := shortest_length (fun _ _ => colonThen_length) hs
  have h4 := Text.trimStart_length_le text
  rw [← h.2]
  omega

theorem header?_length {text inline : List Char} {header : Header}
    (h : header? text = some (header, inline)) : inline.length < text.length := by
  unfold header? at h
  split at h
  · next rest ha =>
    obtain ⟨⟨count, tail⟩, hr, he⟩ := Option.map_eq_some_iff.1 h
    simp only [Prod.mk.injEq] at he
    have h1 := range?_length hr
    have h2 := congrArg List.length (Text.after?_eq_some ha)
    rw [List.length_append] at h2
    rw [← he.2]
    omega
  · split at h
    · next rest ha =>
      obtain ⟨⟨parts, tail⟩, hr, he⟩ := Option.map_eq_some_iff.1 h
      simp only [Prod.mk.injEq] at he
      have h1 := test?_length hr
      have h2 := congrArg List.length (Text.after?_eq_some ha)
      rw [List.length_append] at h2
      rw [← he.2]
      omega
    · cases h

def classifyChars (text : List Char) : Except LineFault Statement :=
  if precedesHeaders text then (simple text).map .simple
  else
    match _found : header? text with
    | none => (simple text).map .simple
    | some (header, inline) =>
      match _inside : Text.trim inline with
      | [] => .ok (.block header none)
      | c :: cs =>
        match classifyChars (c :: cs) with
        | .error fault => .error fault
        | .ok (.block _ _) => .error (.nestedHeader (String.ofList (c :: cs)))
        | .ok (.simple statement) => .ok (.block header (some ⟨String.ofList (c :: cs), statement⟩))
termination_by text.length
decreasing_by
  have h1 := header?_length _found
  have h2 := Text.trim_length_le inline
  rw [_inside] at h2
  omega

def classify (text : String) : Except LineFault Statement := classifyChars text.toList

end BlockScript.Script
