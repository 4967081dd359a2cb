import BlockScript.Script.Statement

/-!
# What a statement is made of

Reading a line cuts it into pieces and never makes up a character. So all text
that a statement carries, and all text that is shown when a line is none, comes
from the line.
-/

set_option autoImplicit false

namespace BlockScript

namespace Text

theorem trimStart_subset (cs : List Char) : trimStart cs ⊆ cs :=
  (List.dropWhile_sublist isBlank).subset

theorem trim_subset (cs : List Char) : trim cs ⊆ cs := by
  intro c hc
  rw [trim, trimEnd, List.mem_reverse] at hc
  have h := (List.dropWhile_sublist isBlank).subset hc
  exact trimStart_subset cs (List.mem_reverse.1 h)

theorem splitOn_subset {separator : Char} {cs part : List Char} (h : part ∈ splitOn separator cs) :
    part ⊆ cs := by
  induction cs generalizing part with
  | nil => simp_all [splitOn]
  | cons c cs ih =>
    simp only [splitOn] at h
    split at h
    · rcases List.mem_cons.1 h with rfl | h
      · exact List.nil_subset _
      · exact List.subset_cons_of_subset c (ih h)
    · split at h
      · next hs => simp_all
      · next first rest hs =>
        rw [hs] at ih
        rcases List.mem_cons.1 h with rfl | h
        · exact List.cons_subset_cons c (ih List.mem_cons_self)
        · exact List.subset_cons_of_subset c (ih (List.mem_cons_of_mem first h))

theorem after?_subset {word text rest : List Char} (h : after? word text = some rest) :
    rest ⊆ text := by
  rw [after?_eq_some h]
  exact List.subset_append_right word rest

end Text

namespace Script

variable {text rest : List Char}

theorem lineRest?_subset (h : lineRest? text = some rest) : rest ⊆ text := by
  fun_induction lineRest? text generalizing rest with
  | case1 => simp_all
  | case2 => simp_all
  | case3 => simp at h
  | case4 c text _ _ ih =>
    obtain ⟨part, hp, rfl⟩ := Option.map_eq_some_iff.1 h
    exact List.cons_subset_cons c (ih hp)

theorem nameThen_subset {name : List Char} (h : nameThen text = some (name, rest)) :
    name ⊆ text ∧ rest ⊆ text := by
  unfold nameThen at h
  split at h
  · cases h
  · cases h
    have hd := (List.dropWhile_sublist Text.isWord (l := text)).subset
    exact ⟨(List.takeWhile_sublist Text.isWord).subset,
      List.Subset.trans (Text.trimStart_subset _) hd⟩

theorem expression_subset {expression value : List Char}
    (h : lineRest? (Text.trimStart expression) = some value) : value ⊆ expression :=
  List.Subset.trans (lineRest?_subset h) (Text.trimStart_subset expression)

theorem assignment?_subset {name value : List Char} (h : assignment? text = some (name, value)) :
    name ⊆ text ∧ value ⊆ text := by
  obtain ⟨⟨found, after⟩, hn, h⟩ := Option.bind_eq_some_iff.1 h
  obtain ⟨hname, hafter⟩ := nameThen_subset hn
  dsimp only at h
  split at h
  · cases h
  · next expression _ =>
    obtain ⟨part, hp, h⟩ := Option.bind_eq_some_iff.1 h
    cases h
    have hv := List.Subset.trans (expression_subset hp) (List.subset_cons_self '=' expression)
    exact ⟨hname, List.Subset.trans hv hafter⟩
  · cases h

theorem increment?_subset {name value : List Char} (h : increment? text = some (name, value)) :
    name ⊆ text ∧ value ⊆ text := by
  obtain ⟨⟨found, after⟩, hn, h⟩ := Option.bind_eq_some_iff.1 h
  obtain ⟨hname, hafter⟩ := nameThen_subset hn
  dsimp only at h
  split at h
  · next expression =>
    obtain ⟨part, hp, h⟩ := Option.bind_eq_some_iff.1 h
    cases h
    have hv := List.Subset.trans (expression_subset hp) (List.subset_cons_of_subset '+'
      (List.subset_cons_self '=' expression))
    exact ⟨hname, List.Subset.trans hv hafter⟩
  · cases h

theorem colonThen_subset (h : colonThen text = some rest) : rest ⊆ text := by
  unfold colonThen at h
  split at h
  · next tail ht =>
    have hs := Text.trimStart_subset text
    rw [ht] at hs
    exact List.Subset.trans (lineRest?_subset h)
      (List.Subset.trans (List.subset_cons_self ':' tail) hs)
  · cases h

theorem bracketColonThen_subset (h : bracketColonThen text = some rest) : rest ⊆ text := by
  unfold bracketColonThen at h
  split at h
  · exact List.subset_cons_of_subset ')' (colonThen_subset h)
  · cases h

theorem shortest_subset {fits : List Char → Option (List Char)}
    (hf : ∀ text rest, fits text = some rest → rest ⊆ text) {part : List Char}
    (h : shortest fits text = some (part, rest)) : part ⊆ text ∧ rest ⊆ text := by
  induction text generalizing part with
  | nil => simp [shortest] at h
  | cons c text ih =>
    simp only [shortest] at h
    split at h
    · cases h
    · split at h
      · next a ha =>
        cases h
        exact ⟨by simp, List.subset_cons_of_subset c (hf _ _ ha)⟩
      · obtain ⟨⟨part', rest'⟩, hp, he⟩ := Option.map_eq_some_iff.1 h
        cases he
        obtain ⟨h₁, h₂⟩ := ih hp
        exact ⟨List.cons_subset_cons c h₁, List.subset_cons_of_subset c h₂⟩

theorem range?_subset {count : List Char} (h : range? text = some (count, rest)) :
    count ⊆ text ∧ rest ⊆ text := by
  induction text with
  | nil => simp [range?] at h
  | cons c text ih =>
    simp only [range?] at h
    split at h
    · next found hb =>
      cases h
      obtain ⟨tail, ht, hs⟩ := Option.bind_eq_some_iff.1 hb
      obtain ⟨h₁, h₂⟩ := shortest_subset (fun _ _ => bracketColonThen_subset) hs
      have ha := Text.after?_subset ht
      exact ⟨List.Subset.trans h₁ ha, List.Subset.trans h₂ ha⟩
    · split at h
      · cases h
      · obtain ⟨h₁, h₂⟩ := ih h
        exact ⟨List.subset_cons_of_subset c h₁, List.subset_cons_of_subset c h₂⟩

theorem runs_subset {p : Char → Bool} {least : Nat} {part : List Char}
    (h : (part, rest) ∈ runs p least text) : part ⊆ text ∧ rest ⊆ text := by
  simp only [runs, List.mem_map, Prod.mk.injEq] at h
  obtain ⟨n, _, rfl, rfl⟩ := h
  exact ⟨List.take_subset _ _, List.drop_subset _ _⟩

theorem test?_subset {subject operator value : List Char}
    (h : test? text = some ((subject, operator, value), rest)) :
    subject ⊆ text ∧ operator ⊆ text ∧ value ⊆ text ∧ rest ⊆ text := by
  obtain ⟨⟨name, rest₀⟩, hn, h⟩ := Option.bind_eq_some_iff.1 h
  obtain ⟨⟨sign, rest₁⟩, ho, h⟩ := List.exists_of_findSome?_eq_some h
  obtain ⟨⟨blanks, rest₂⟩, hb, h⟩ := List.exists_of_findSome?_eq_some h
  obtain ⟨⟨literal, rest₃⟩, hs, h⟩ := Option.bind_eq_some_iff.1 h
  cases h
  have ht := Text.trimStart_subset text
  have h₀ := nameThen_subset hn
  have h₁ := runs_subset ho
  have h₂ := runs_subset hb
  have h₃ := shortest_subset (fun _ _ => colonThen_subset) hs
  have hrest : rest₀ ⊆ text := List.Subset.trans h₀.2 ht
  have hafter : rest₂ ⊆ text := List.Subset.trans h₂.2 (List.Subset.trans h₁.2 hrest)
  exact ⟨List.Subset.trans h₀.1 ht, List.Subset.trans h₁.1 hrest, List.Subset.trans h₃.1 hafter,
    List.Subset.trans h₃.2 hafter⟩

def Operand.chars : Operand → List Char
  | .number _ => []
  | .text s | .name s => s.toList

def Simple.chars : Simple → List Char
  | .assign name value | .increase name value => name.toList ++ value.chars
  | .print args => args.flatMap Operand.chars
  | .trace text | .inert text => text.toList

def Header.chars : Header → List Char
  | .rounds count => count.chars
  | .test subject operator value => subject.chars ++ operator.toList ++ value.chars

def Inline.chars (inline : Inline) : List Char := inline.text.toList ++ inline.statement.chars

def Statement.chars : Statement → List Char
  | .simple statement => statement.chars
  | .block header none => header.chars
  | .block header (some inline) => header.chars ++ inline.chars

def LineFault.chars : LineFault → List Char
  | .unclosedPrint text => text.toList
  | .nestedHeader inline => inline.toList

theorem Operand.unquote?_subset {inside : List Char} (h : unquote? text = some inside) :
    inside ⊆ text := by
  unfold unquote? at h
  split at h
  · next quote tail =>
    split at h
    · cases h
      exact List.subset_cons_of_subset quote (List.dropLast_subset tail)
    · cases h
  · cases h

theorem Operand.chars_parse (token : List Char) : (parse token).chars ⊆ token := by
  unfold parse
  split
  · exact List.nil_subset _
  · split
    · exact List.nil_subset _
    · split
      · next inside hu =>
        simp only [chars, String.toList_ofList]
        exact List.Subset.trans (unquote?_subset hu) (Text.trim_subset token)
      · simp only [chars, String.toList_ofList]
        exact Text.trim_subset token

theorem header?_subset {header : Header} {inline : List Char}
    (h : header? text = some (header, inline)) : header.chars ⊆ text ∧ inline ⊆ text := by
  unfold header? at h
  split at h
  · next tail ha =>
    obtain ⟨⟨count, after⟩, hr, he⟩ := Option.map_eq_some_iff.1 h
    cases he
    have hs := range?_subset hr
    have ht := Text.after?_subset ha
    exact ⟨List.Subset.trans (Operand.chars_parse count) (List.Subset.trans hs.1 ht),
      List.Subset.trans hs.2 ht⟩
  · split at h
    · next tail ha =>
      obtain ⟨⟨⟨subject, operator, value⟩, after⟩, hr, he⟩ := Option.map_eq_some_iff.1 h
      cases he
      have hs := test?_subset hr
      have ht := Text.after?_subset ha
      refine ⟨?_, List.Subset.trans hs.2.2.2 ht⟩
      simp only [Header.chars, String.toList_ofList, List.append_subset]
      exact ⟨⟨List.Subset.trans (Operand.chars_parse subject) (List.Subset.trans hs.1 ht),
        List.Subset.trans hs.2.1 ht⟩,
        List.Subset.trans (Operand.chars_parse value) (List.Subset.trans hs.2.2.1 ht)⟩
    · cases h

theorem printArgs?_subset {args : List Operand} (h : printArgs? text = some args) :
    args.flatMap Operand.chars ⊆ text := by
  unfold printArgs? at h
  split at h
  · cases h
    intro c hc
    simp only [List.flatMap_map, List.mem_flatMap] at hc
    obtain ⟨part, hp, hc⟩ := hc
    exact List.dropLast_subset text (Text.splitOn_subset hp (Operand.chars_parse part hc))
  · cases h

theorem simple_subset {statement : Simple} (h : simple text = .ok statement) :
    statement.chars ⊆ text := by
  unfold simple at h
  split at h
  · next name value ha =>
    cases h
    have hs := assignment?_subset ha
    simp only [Simple.chars, String.toList_ofList, List.append_subset]
    exact ⟨hs.1, List.Subset.trans (Operand.chars_parse value) hs.2⟩
  · split at h
    · next name value hi =>
      cases h
      have hs := increment?_subset hi
      simp only [Simple.chars, String.toList_ofList, List.append_subset]
      exact ⟨hs.1, List.Subset.trans (Operand.chars_parse value) hs.2⟩
    · split at h
      · next content hp =>
        split at h
        · next args ha =>
          cases h
          exact List.Subset.trans (printArgs?_subset ha) (Text.after?_subset hp)
        · cases h
      · split at h <;> cases h <;> simp [Simple.chars]

theorem simple_fault {fault : LineFault} (h : simple text = .error fault) :
    fault.chars ⊆ text := by
  unfold simple at h
  split at h
  · cases h
  · split at h
    · cases h
    · split at h
      · split at h
        · cases h
        · cases h
          simp [LineFault.chars]
      · split at h <;> cases h

def MadeOf (text : List Char) : Except LineFault Statement → Prop
  | .ok statement => statement.chars ⊆ text
  | .error fault => fault.chars ⊆ text

theorem simple_madeOf (text : List Char) : MadeOf text ((simple text).map .simple) := by
  cases hs : simple text with
  | ok statement => exact simple_subset hs
  | error fault => exact simple_fault hs

theorem inline_subset {header : Header} {inline body : List Char}
    (hf : header? text = some (header, inline)) (hb : Text.trim inline = body) : body ⊆ text := by
  rw [← hb]
  exact List.Subset.trans (Text.trim_subset inline) (header?_subset hf).2

theorem classifyChars_madeOf (text : List Char) : MadeOf text (classifyChars text) := by
  fun_induction classifyChars text with
  | case1 text _ => exact simple_madeOf text
  | case2 text _ _ => exact simple_madeOf text
  | case3 text _ header inline found _ => exact (header?_subset found).1
  | case4 text _ header inline found c cs inside fault hc ih =>
    rw [hc] at ih
    exact List.Subset.trans ih (inline_subset found inside)
  | case5 text _ header inline found c cs inside _ _ hc ih =>
    simpa [MadeOf, LineFault.chars] using inline_subset found inside
  | case6 text _ header inline found c cs inside statement hc ih =>
    rw [hc] at ih
    have hb := inline_subset found inside
    simp only [MadeOf, Statement.chars, Inline.chars, String.toList_ofList, List.append_subset]
    exact ⟨(header?_subset found).1, hb, List.Subset.trans ih hb⟩

end Script

end BlockScript
