import BlockScript.Proofs.Script.Lexemes
import BlockScript.Value.Comparison

/-!
# How the forms of a line are read

For each form that a statement can take, the line that spells it out is read as
that statement, whatever words and values stand in it. The forms are tried in
order, so each of these results also says that no form before it fits.
-/

set_option autoImplicit false

namespace BlockScript

theorem Text.splitOn_of_not_mem {separator : Char} {cs : List Char} (h : separator ∉ cs) :
    splitOn separator cs = [cs] := by
  induction cs with
  | nil => rfl
  | cons c rest ih =>
    rw [List.mem_cons, not_or] at h
    rw [splitOn, if_neg fun hc => h.1 hc.symm, ih h.2]

theorem Text.splitOn_append {separator : Char} {cs : List Char} (h : separator ∉ cs)
    (rest : List Char) :
    splitOn separator (cs ++ separator :: rest) = cs :: splitOn separator rest := by
  induction cs with
  | nil => rw [List.nil_append, splitOn, if_pos rfl]
  | cons c cs ih =>
    rw [List.mem_cons, not_or] at h
    rw [List.cons_append, splitOn, if_neg fun hc => h.1 hc.symm, ih h.2]

namespace Script

structure IsWord (x : List Char) : Prop where
  ne_nil : x ≠ []
  word : ∀ c ∈ x, Text.isWord c = true

structure IsExpression (v : List Char) : Prop where
  ne_nil : v ≠ []
  first : ∀ c ∈ v.head?, Text.isBlank c = false
  unbroken : '\n' ∉ v

theorem isWord_of_isName {x : String} (h : IsName x) : IsWord x.toList := ⟨h.ne_empty, h.word⟩

theorem isExpression_integerText (n : Int) : IsExpression (integerText n) where
  ne_nil := integerText_ne_nil n
  first c hc := isBlank_of_mem_integerText (List.mem_of_mem_head? hc)
  unbroken h := ne_of_mem_integerText h (by decide) (by decide) rfl

theorem lineRest?_of_unbroken {v : List Char} (h : '\n' ∉ v) : lineRest? v = some v := by
  induction v with
  | nil => rfl
  | cons c rest ih =>
    rw [List.mem_cons, not_or] at h
    have hc : c ≠ '\n' := fun hc => h.1 hc.symm
    rw [lineRest?, if_neg hc, ih h.2]
    · rfl
    · intro hn
      exact absurd hn hc

theorem nameThen_append {x : List Char} (hx : IsWord x) {c : Char}
    (hc : Text.isBlank c = false) (rest : List Char) :
    nameThen (x ++ ' ' :: c :: rest) = some (x, c :: rest) := by
  have hs : ∀ d ∈ (' ' :: c :: rest).head?, Text.isWord d = false := by
    intro d hd
    cases hd
    decide
  rw [nameThen, takeWhile_span hx.word hs, dropWhile_span hx.word hs,
    Text.trimStart_cons_of_blank (by decide), Text.trimStart_cons_of_not_blank hc]
  cases x with
  | nil => exact absurd rfl hx.ne_nil
  | cons d x => rfl

theorem trimStart_of_isExpression {v : List Char} (hv : IsExpression v) :
    Text.trimStart (' ' :: v) = v := by
  rw [Text.trimStart_cons_of_blank (by decide)]
  cases v with
  | nil => rfl
  | cons c rest => exact Text.trimStart_cons_of_not_blank (hv.first c rfl) rest

theorem assignment?_spelled {x v : List Char} (hx : IsWord x) (hv : IsExpression v) :
    assignment? (x ++ " = ".toList ++ v) = some (x, v) := by
  have hn : nameThen (x ++ " = ".toList ++ v) = some (x, '=' :: ' ' :: v) := by
    rw [List.append_assoc]
    exact nameThen_append hx (by decide) (' ' :: v)
  rw [assignment?, hn]
  simp [trimStart_of_isExpression hv, lineRest?_of_unbroken hv.unbroken]

theorem increment?_spelled {x v : List Char} (hx : IsWord x) (hv : IsExpression v) :
    assignment? (x ++ " += ".toList ++ v) = none ∧
      increment? (x ++ " += ".toList ++ v) = some (x, v) := by
  have hn : nameThen (x ++ " += ".toList ++ v) = some (x, '+' :: '=' :: ' ' :: v) := by
    rw [List.append_assoc]
    exact nameThen_append hx (by decide) ('=' :: ' ' :: v)
  constructor
  · rw [assignment?, hn]
    rfl
  · rw [increment?, hn]
    simp [trimStart_of_isExpression hv, lineRest?_of_unbroken hv.unbroken]

theorem classifyChars_of_precedes {text : List Char} (h : precedesHeaders text = true) :
    classifyChars text = (simple text).map .simple := by
  rw [classifyChars, if_pos h]

theorem classifyChars_of_no_header {text : List Char} (h : precedesHeaders text = false)
    (hh : header? text = none) : classifyChars text = (simple text).map .simple := by
  rw [classifyChars, h, if_neg (by decide)]
  split
  · rfl
  · next hs =>
    rw [hh] at hs
    cases hs

theorem classifyChars_of_header {text : List Char} {header : Header}
    (h : precedesHeaders text = false) (hh : header? text = some (header, [])) :
    classifyChars text = .ok (.block header none) := by
  rw [classifyChars, h, if_neg (by decide)]
  split
  · next hn =>
    rw [hh] at hn
    cases hn
  · next hs =>
    rw [hh] at hs
    cases hs
    rfl

theorem classifyChars_assign {x v : List Char} (hx : IsWord x) (hv : IsExpression v) :
    classifyChars (x ++ " = ".toList ++ v) =
      .ok (.simple (.assign (String.ofList x) (.parse v))) := by
  have ha := assignment?_spelled hx hv
  rw [classifyChars_of_precedes (by simp only [precedesHeaders, ha]; rfl), simple, ha]
  rfl

theorem classifyChars_increase {x v : List Char} (hx : IsWord x) (hv : IsExpression v) :
    classifyChars (x ++ " += ".toList ++ v) =
      .ok (.simple (.increase (String.ofList x) (.parse v))) := by
  obtain ⟨ha, hi⟩ := increment?_spelled hx hv
  rw [classifyChars_of_precedes (by simp only [precedesHeaders, ha, hi]; rfl), simple, ha, hi]
  rfl

theorem classifyChars_print {argument : List Char} (h : ',' ∉ argument) :
    classifyChars ("print(".toList ++ argument ++ ")".toList) =
      .ok (.simple (.print [.parse argument])) := by
  have hp : printArgs? (argument ++ [')']) = some [.parse argument] := by
    rw [printArgs?, List.getLast?_concat, List.dropLast_concat, Text.splitOn_of_not_mem h]
    rfl
  have ha : assignment? ("print(".toList ++ argument ++ ")".toList) = none := rfl
  have hi : increment? ("print(".toList ++ argument ++ ")".toList) = none := rfl
  have hw : Text.after? printWord ("print(".toList ++ argument ++ ")".toList) =
      some (argument ++ [')']) := rfl
  rw [classifyChars_of_precedes rfl, simple, ha, hi, hw]
  dsimp only
  rw [hp]
  rfl

theorem classifyChars_trace {word : List Char} (hw : word ∈ traceWords) (rest : List Char) :
    classifyChars (word ++ '(' :: rest) =
      .ok (.simple (.trace (String.ofList (word ++ '(' :: rest)))) := by
  have hc : word = "time.sleep".toList ∨ word = "avatar.move".toList := by
    simpa [traceWords] using hw
  rcases hc with rfl | rfl
  · rw [classifyChars_of_precedes rfl]
    rfl
  · rw [classifyChars_of_precedes rfl]
    rfl

/-- A part that ends before what fits, because nothing fits at any character of the part. -/
theorem shortest_append {α : Type} {fits : List Char → Option α} {part rest : List Char} {a : α}
    (hp : part ≠ []) (hb : '\n' ∉ part) (hn : ∀ c ∈ part, ∀ tail, fits (c :: tail) = none)
    (ha : fits rest = some a) : shortest fits (part ++ rest) = some (part, a) := by
  induction part with
  | nil => exact absurd rfl hp
  | cons c part ih =>
    rw [List.mem_cons, not_or] at hb
    rw [List.cons_append, shortest, if_neg fun hc => hb.1 hc.symm]
    cases part with
    | nil => rw [List.nil_append, ha]
    | cons d part =>
      have hd : fits (d :: part ++ rest) = none := hn d (by simp) _
      rw [hd, ih (List.cons_ne_nil _ _) hb.2 fun e he => hn e (List.mem_cons_of_mem c he)]
      rfl

theorem shortest_integerText (n : Int) :
    shortest bracketColonThen (integerText n ++ "):".toList) = some (integerText n, []) := by
  apply shortest_append (integerText_ne_nil n) (isExpression_integerText n).unbroken
  · intro c hc tail
    have hb : c ≠ ')' := ne_of_mem_integerText hc (by decide) (by decide)
    unfold bracketColonThen
    split
    · next heq =>
      cases heq
      exact absurd rfl hb
    · rfl
  · rfl

theorem range?_of_after {text rest : List Char} {found : List Char × List Char}
    (h : Text.after? rangeWord text = some rest)
    (hf : shortest bracketColonThen rest = some found) : range? text = some found := by
  cases text with
  | nil => cases h
  | cons c text => rw [range?, h, Option.bind_some, hf]

theorem classifyChars_rounds (n : Int) :
    classifyChars ("for i in range(".toList ++ integerText n ++ "):".toList) =
      .ok (.block (.rounds (.parse (integerText n))) none) := by
  apply classifyChars_of_header rfl
  have hw : Text.after? rangeWord ("range(".toList ++ integerText n ++ "):".toList) =
      some (integerText n ++ "):".toList) := rfl
  have hr : range? ("i in range(".toList ++ integerText n ++ "):".toList) =
      some (integerText n, []) := by
    -- no range starts in the name and the word before it
    change range? ("range(".toList ++ integerText n ++ "):".toList) = _
    exact range?_of_after hw (shortest_integerText n)
  have hh : header? ("for i in range(".toList ++ integerText n ++ "):".toList) =
      (range? ("i in range(".toList ++ integerText n ++ "):".toList)).map
        fun found => (.rounds (.parse found.1), found.2) := rfl
  rw [hh, hr]
  rfl

theorem exists_runs_append {p : Char → Bool} {least : Nat} {part rest : List Char}
    (hp : ∀ c ∈ part, p c = true) (hr : ∀ c ∈ rest.head?, p c = false)
    (hl : least ≤ part.length) : ∃ more, runs p least (part ++ rest) = (part, rest) :: more := by
  obtain ⟨m, hm⟩ : ∃ m, part.length + 1 - least = m + 1 := ⟨part.length - least, by omega⟩
  unfold runs
  rw [takeWhile_span hp hr]
  dsimp only
  rw [hm, List.range_succ_eq_map, List.map_cons, Nat.sub_zero, List.take_left, List.drop_left]
  exact ⟨_, rfl⟩

theorem shortest_colonThen_integerText (n : Int) :
    shortest colonThen (integerText n ++ ":".toList) = some (integerText n, []) := by
  apply shortest_append (integerText_ne_nil n) (isExpression_integerText n).unbroken
  · intro c hc tail
    have hb : c ≠ ':' := ne_of_mem_integerText hc (by decide) (by decide)
    rw [colonThen, Text.trimStart_cons_of_not_blank (isBlank_of_mem_integerText hc)]
    split
    · next heq =>
      cases heq
      exact absurd rfl hb
    · rfl
  · rfl

def testText (x : List Char) (comparison : Comparison) (n : Int) : List Char :=
  x ++ ' ' :: (comparison.symbol.toList ++ ' ' :: (integerText n ++ ":".toList))

theorem symbol_operator (comparison : Comparison) :
    (∀ c ∈ comparison.symbol.toList, isOperatorChar c = true) ∧
      1 ≤ comparison.symbol.toList.length := by
  cases comparison <;> exact ⟨List.all_eq_true.1 rfl, by decide⟩

theorem nameThen_testText {x : List Char} (hx : IsWord x) (comparison : Comparison) (n : Int) :
    nameThen (testText x comparison n) =
      some (x, comparison.symbol.toList ++ ' ' :: (integerText n ++ ":".toList)) := by
  cases comparison <;> exact nameThen_append hx (by decide) _

theorem test?_testText {x : List Char} (hx : IsWord x) (comparison : Comparison) (n : Int) :
    test? (testText x comparison n) =
      some ((x, comparison.symbol.toList, integerText n), []) := by
  have hs : Text.trimStart (testText x comparison n) = testText x comparison n := by
    cases x with
    | nil => exact absurd rfl hx.ne_nil
    | cons c rest =>
      have hc := Text.isBlank_of_isWord (hx.word c List.mem_cons_self)
      exact Text.trimStart_cons_of_not_blank hc _
  obtain ⟨ho, hl⟩ := symbol_operator comparison
  have hr : ∀ c ∈ (' ' :: (integerText n ++ ":".toList)).head?, isOperatorChar c = false := by
    intro c hc
    cases hc
    rfl
  obtain ⟨more, hm⟩ := exists_runs_append ho hr hl
  have hb : ∀ c ∈ (integerText n ++ ":".toList).head?, Text.isBlank c = false := by
    intro c hc
    rcases List.mem_append.1 (List.mem_of_mem_head? hc) with hc | hc
    · exact isBlank_of_mem_integerText hc
    · rw [List.mem_singleton.1 hc]
      decide
  have hs' : ∀ c ∈ [' '], Text.isBlank c = true := List.all_eq_true.1 rfl
  obtain ⟨fewer, hf⟩ := exists_runs_append hs' hb (Nat.zero_le _)
  rw [List.singleton_append] at hf
  rw [test?, hs, nameThen_testText hx]
  simp only [Option.bind_eq_bind, Option.bind_some, hm, List.findSome?_cons, hf,
    shortest_colonThen_integerText]
  rfl

theorem classifyChars_test {x : List Char} (hx : IsWord x) (comparison : Comparison) (n : Int) :
    classifyChars ("if ".toList ++ testText x comparison n) =
      .ok (.block (.test (.parse x) comparison.symbol (.parse (integerText n))) none) := by
  obtain ⟨c, rest, hc, hr⟩ : ∃ c rest, Text.isWord c = true ∧
      testText x comparison n = c :: rest := by
    cases x with
    | nil => exact absurd rfl hx.ne_nil
    | cons c x => exact ⟨c, _, hx.word c List.mem_cons_self, rfl⟩
  have hn : nameThen ("if ".toList ++ testText x comparison n) = some ("if".toList, c :: rest) := by
    rw [hr]
    have hw : IsWord "if".toList := ⟨by decide, List.all_eq_true.1 rfl⟩
    exact nameThen_append hw (Text.isBlank_of_isWord hc) rest
  have he : c ≠ '=' := by rintro rfl; exact absurd hc (by decide)
  have hp : c ≠ '+' := by rintro rfl; exact absurd hc (by decide)
  have ha : assignment? ("if ".toList ++ testText x comparison n) = none := by
    rw [assignment?, hn]
    simp [he]
  have hi : increment? ("if ".toList ++ testText x comparison n) = none := by
    rw [increment?, hn]
    simp [hp]
  apply classifyChars_of_header
  · rw [precedesHeaders, ha, hi]
    rfl
  · have hh : header? ("if ".toList ++ testText x comparison n) =
        (test? (testText x comparison n)).map fun found =>
          (.test (.parse found.1.1) (String.ofList found.1.2.1) (.parse found.1.2.2),
            found.2) := rfl
    rw [hh, test?_testText hx, Option.map_some]
    dsimp only
    rw [String.ofList_toList]

end Script

end BlockScript
