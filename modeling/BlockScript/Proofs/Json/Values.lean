import BlockScript.Proofs.Failure
import BlockScript.Proofs.Json.Escapes
import BlockScript.Proofs.Json.Numbers
import Mathlib.Data.List.Forall2

/-!
# Values read back from their text

A text that stands for a value is read up to its end, and has neither a space nor
a closing bracket at its start, so that lists and records of such texts read back
part by part.
-/

set_option autoImplicit false

namespace BlockScript.Json

def Plain (text : List Char) : Prop := ∀ c ∈ text, c = '\n' ∨ Printable c

instance (text : List Char) : Decidable (Plain text) :=
  List.decidableBAll (fun c => c = '\n' ∨ Printable c) text

theorem plain_cons {c : Char} {cs : List Char} :
    Plain (c :: cs) ↔ (c = '\n' ∨ Printable c) ∧ Plain cs := List.forall_mem_cons

theorem plain_append {a b : List Char} : Plain (a ++ b) ↔ Plain a ∧ Plain b :=
  List.forall_mem_append

/-- A text from which a value is read back, whatever ends it. -/
structure Restores (text : List Char) (v : Value) : Prop where
  plain : Plain text
  first : ∃ c cs, text = c :: cs ∧ isSpace c = false ∧ c ≠ ']'
  reads : ∀ (fuel : Nat) (rest : List Char), text.length ≤ fuel → Ends rest →
    readValue plainHold fuel (text ++ rest) = .ok (v, rest)

theorem skipSpace_cons {c : Char} (h : isSpace c = false) (cs : List Char) :
    skipSpace (c :: cs) = c :: cs := List.dropWhile_cons_of_neg (by simp [h])

def Gap (gap : List Char) : Prop := ∀ c ∈ gap, isSpace c = true

theorem gap_space : Gap [' '] := by
  intro c hc
  rw [List.mem_singleton.1 hc]
  rfl

theorem skipSpace_gap {gap : List Char} (hg : Gap gap) {c : Char} (h : isSpace c = false)
    (cs : List Char) : skipSpace (gap ++ c :: cs) = c :: cs :=
  dropWhile_span hg (by rintro d ⟨⟩; exact h)

theorem ends_of_isSpace {c : Char} (h : isSpace c = true) :
    c.isDigit = false ∧ c ≠ '.' ∧ c ≠ 'e' ∧ c ≠ 'E' := by
  simp only [isSpace, Bool.or_eq_true, beq_iff_eq] at h
  rcases h with ((rfl | rfl) | rfl) | rfl <;> decide

theorem ends_cons {c : Char} (h : c = ',' ∨ c = ']' ∨ c = '\x7d') (cs : List Char) :
    Ends (c :: cs) := by
  rintro d ⟨⟩
  rcases h with rfl | rfl | rfl <;> decide

theorem ends_gap {gap : List Char} (hg : Gap gap) {c : Char} (h : c = ']' ∨ c = '\x7d')
    (cs : List Char) : Ends (gap ++ c :: cs) := by
  cases gap with
  | nil => exact ends_cons (.inr h) cs
  | cons d gap =>
    rintro e ⟨⟩
    exact ends_of_isSpace (hg d List.mem_cons_self)

theorem Restores.of_succ {text : List Char} {v : Value} (plain : Plain text)
    (first : ∃ c cs, text = c :: cs ∧ isSpace c = false ∧ c ≠ ']')
    (reads : ∀ (fuel : Nat) (rest : List Char), text.length ≤ fuel + 1 → Ends rest →
      readValue plainHold (fuel + 1) (text ++ rest) = .ok (v, rest)) : Restores text v where
  plain := plain
  first := first
  reads fuel rest hf hr := by
    obtain ⟨c, cs, rfl, -, -⟩ := first
    cases fuel with
    | zero => cases hf
    | succ fuel => exact reads fuel rest hf hr

theorem restores_word {word : List Char} {v : Value} (hp : Plain word)
    (hw : word.head?.any (fun c => !isSpace c && c != ']') = true)
    (hr : ∀ (fuel : Nat) (rest : List Char),
      readValue plainHold (fuel + 1) (word ++ rest) = .ok (v, rest)) : Restores word v := by
  apply Restores.of_succ hp
  · cases word with
    | nil => cases hw
    | cons c cs =>
      simp only [List.head?_cons, Option.any_some, Bool.and_eq_true, Bool.not_eq_true',
        bne_iff_ne] at hw
      exact ⟨c, cs, rfl, hw⟩
  · exact fun fuel rest _ _ => hr fuel rest

theorem restores_null : Restores "null".toList .null :=
  restores_word (by decide) rfl fun _ _ => rfl

theorem restores_bool (b : Bool) : Restores (if b then "true" else "false").toList (.bool b) := by
  cases b with
  | true => exact restores_word (by decide) rfl fun _ _ => rfl
  | false => exact restores_word (by decide) rfl fun _ _ => rfl

theorem restores_nan : Restores "NaN".toList (.number (.float (.nan 0))) :=
  restores_word (by decide) rfl fun _ _ => rfl

theorem restores_infinity (negative : Bool) :
    Restores (layout.write (.infinity negative)).toList
      (.number (.float (.infinity negative))) := by
  cases negative with
  | true => exact restores_word (by decide) rfl fun _ _ => rfl
  | false => exact restores_word (by decide) rfl fun _ _ => rfl

theorem toList_writeText (s : String) :
    (writeText s).toList = '"' :: (s.toList.flatMap escape ++ ['"']) := by
  rw [writeText, String.toList_ofList]

theorem plain_writeText (s : String) : Plain (writeText s).toList := by
  rw [toList_writeText, plain_cons, plain_append]
  refine ⟨by decide, ?_, by decide⟩
  intro c hc
  obtain ⟨d, -, hd⟩ := List.mem_flatMap.1 hc
  exact .inr ((escaped_escape d).printable c hd)

theorem readString_writeText (s : String) (rest : List Char) :
    readString plainHold (s.toList.flatMap escape ++ ['"'] ++ rest) = .ok (s, rest) := by
  rw [List.append_assoc]
  have h := readString_escaped s.toList rest
  rwa [String.ofList_toList] at h

theorem restores_text (s : String) : Restores (writeText s).toList (.text s) := by
  apply Restores.of_succ (plain_writeText s)
  · exact ⟨_, _, toList_writeText s, by decide, by decide⟩
  · intro fuel rest _ _
    rw [toList_writeText, List.cons_append, readValue, readString_writeText]
    rfl

theorem readValue_number {text rest : List Char} {n : Number} (h : SpellsNumber text n)
    (hr : Ends rest) (fuel : Nat) :
    readValue plainHold (fuel + 1) (text ++ rest) = .ok (.number n, rest) := by
  have hn := readNumber_of_spellsNumber h hr
  obtain ⟨c, cs, hd, rfl | rfl⟩ := h.first
  · rw [List.cons_append] at hn ⊢
    generalize cs ++ rest = more at hn ⊢
    rw [readValue, hn]
    · rfl
    -- No other form starts with a digit.
    all_goals
      rintro tail ⟨⟩
      cases hd
  · rw [List.cons_append, List.cons_append] at hn ⊢
    generalize cs ++ rest = more at hn ⊢
    rw [readValue, hn]
    · rfl
    all_goals rintro tail ⟨⟩
    cases hd

theorem printable_of_isDigit {c : Char} (h : c.isDigit = true) : Printable c := by
  have hc : 48 ≤ c.toNat ∧ c.toNat ≤ 57 := by
    simpa [Char.isDigit, UInt32.le_iff_toNat_le] using h
  exact ⟨by omega, by omega⟩

theorem printable_of_spellsNumber {text : List Char} {n : Number} (h : SpellsNumber text n) :
    ∀ c ∈ text, Printable c := by
  obtain ⟨negative, s, rfl, -, -⟩ := h
  intro c hc
  rcases mem_signed hc with rfl | hc
  · decide
  rcases s.mem_chars hc with hd | rfl | rfl | rfl | rfl
  · exact printable_of_isDigit hd
  all_goals decide

theorem restores_number {text : List Char} {n : Number} (h : SpellsNumber text n) :
    Restores text (.number n) := by
  apply Restores.of_succ
  · intro c hc
    exact .inr (printable_of_spellsNumber h c hc)
  · obtain ⟨c, cs, hd, rfl | rfl⟩ := h.first
    · refine ⟨c, cs, rfl, ?_, ?_⟩
      · rw [← Bool.not_eq_true]
        intro hs
        rw [(ends_of_isSpace hs).1] at hd
        cases hd
      · rintro rfl
        cases hd
    · exact ⟨_, _, rfl, by decide, by decide⟩
  · intro fuel rest _ hr
    exact readValue_number h hr fuel

section Parts

variable {gap closing : List Char}

def joined (gap : List Char) (texts : List (List Char)) : List Char :=
  List.intercalate (',' :: gap) texts

theorem joined_singleton (text : List Char) : joined gap [text] = text :=
  List.intercalate_singleton

theorem joined_cons_cons (text next : List Char) (texts : List (List Char)) :
    joined gap (text :: next :: texts) = text ++ ',' :: (gap ++ joined gap (next :: texts)) := by
  rw [joined, List.intercalate_cons_cons, List.append_assoc, List.cons_append]
  rfl

theorem exists_joined_cons (gap : List Char) (c : Char) (text : List Char)
    (texts : List (List Char)) : ∃ cs, joined gap ((c :: text) :: texts) = c :: cs := by
  cases texts with
  | nil => exact ⟨text, joined_singleton _⟩
  | cons next texts => exact ⟨_, joined_cons_cons _ _ _⟩

theorem skipSpace_joined (hg : Gap gap) {next : List Char}
    (h : ∃ c cs, next = c :: cs ∧ isSpace c = false) (texts : List (List Char))
    (more : List Char) :
    skipSpace (gap ++ (joined gap (next :: texts) ++ more)) =
      joined gap (next :: texts) ++ more := by
  obtain ⟨c, cs, rfl, hc⟩ := h
  obtain ⟨tail, ht⟩ := exists_joined_cons gap c cs texts
  rw [ht, List.cons_append, skipSpace_gap hg hc]

theorem Restores.first_not_space {text : List Char} {v : Value} (h : Restores text v) :
    ∃ c cs, text = c :: cs ∧ isSpace c = false := by
  obtain ⟨c, cs, ht, hs, -⟩ := h.first
  exact ⟨c, cs, ht, hs⟩

theorem readItems_joined (hg : Gap gap) (hc : Gap closing) {texts : List (List Char)}
    {items : List Value} (h : List.Forall₂ Restores texts items) (hne : texts ≠ [])
    (rest : List Char) (fuel : Nat) (hf : (joined gap texts).length < fuel) :
    readItems plainHold fuel (joined gap texts ++ (closing ++ ']' :: rest)) = .ok (items, rest) := by
  induction h generalizing fuel with
  | nil => exact absurd rfl hne
  | @cons text item texts items hi ht ih =>
    cases fuel with
    | zero => cases hf
    | succ fuel =>
      cases ht with
      | nil =>
        rw [joined_singleton] at hf ⊢
        rw [readItems, hi.reads fuel _ (by omega) (ends_gap hc (.inl rfl) rest), Except.ok_bind]
        simp only [skipSpace_gap hc (by decide : isSpace ']' = false)]
        rfl
      | @cons next _ texts items hn ht =>
        rw [joined_cons_cons, List.length_append, List.length_cons, List.length_append] at hf
        rw [joined_cons_cons, List.append_assoc, List.cons_append, List.append_assoc, readItems,
          hi.reads fuel _ (by omega) (ends_cons (.inl rfl) _), Except.ok_bind]
        simp only [skipSpace_cons (by decide : isSpace ',' = false)]
        rw [skipSpace_joined hg hn.first_not_space, ih (List.cons_ne_nil _ _) fuel (by omega)]
        rfl

def RestoresField (text : List Char) (field : String × Value) : Prop :=
  ∃ inner, text = (writeText field.1).toList ++ ':' :: ' ' :: inner ∧ Restores inner field.2

theorem RestoresField.plain {text : List Char} {field : String × Value}
    (h : RestoresField text field) : Plain text := by
  obtain ⟨inner, ht, hi⟩ := h
  rw [ht, plain_append, plain_cons, plain_cons]
  exact ⟨plain_writeText field.1, by decide, by decide, hi.plain⟩

theorem RestoresField.first {text : List Char} {field : String × Value}
    (h : RestoresField text field) : ∃ cs, text = '"' :: cs := by
  obtain ⟨inner, ht, -⟩ := h
  rw [ht, toList_writeText]
  exact ⟨_, rfl⟩

/-- One field, if what follows it does not go on with its value. -/
theorem readFields_field {text : List Char} {field : String × Value}
    (h : RestoresField text field) {rest : List Char} (hr : Ends rest) {fuel : Nat}
    (hf : text.length ≤ fuel) :
    readFields plainHold (fuel + 1) (text ++ rest) =
      match skipSpace rest with
      | '\x7d' :: after => .ok ([field], after)
      | ',' :: next => do
        let (fields, after) ← readFields plainHold fuel (skipSpace next)
        return (field :: fields, after)
      | other => complain .comma other := by
  obtain ⟨name, value⟩ := field
  obtain ⟨inner, ht, hi⟩ := h
  obtain ⟨c, cs, hcs, hs⟩ := hi.first_not_space
  have hl : inner.length ≤ fuel := by
    simp only [ht, List.length_append, List.length_cons] at hf
    omega
  have hv : readValue plainHold fuel (skipSpace (' ' :: (inner ++ rest))) = .ok (value, rest) := by
    have hsk : skipSpace (' ' :: (inner ++ rest)) = inner ++ rest := by
      rw [hcs]
      exact skipSpace_gap gap_space hs (cs ++ rest)
    rw [hsk, hi.reads fuel rest hl hr]
  have hn := readString_writeText name (':' :: ' ' :: (inner ++ rest))
  rw [ht, toList_writeText, List.append_assoc, List.cons_append, List.cons_append,
    List.cons_append, readFields, hn, Except.ok_bind]
  simp only [skipSpace_cons (by decide : isSpace ':' = false)]
  rw [hv, Except.ok_bind]
  rfl

theorem readFields_joined (hg : Gap gap) (hc : Gap closing) {texts : List (List Char)}
    {fields : List (String × Value)} (h : List.Forall₂ RestoresField texts fields)
    (hne : texts ≠ []) (rest : List Char) (fuel : Nat) (hf : (joined gap texts).length < fuel) :
    readFields plainHold fuel (joined gap texts ++ (closing ++ '\x7d' :: rest)) = .ok (fields, rest) := by
  induction h generalizing fuel with
  | nil => exact absurd rfl hne
  | @cons text field texts fields hi ht ih =>
    cases fuel with
    | zero => cases hf
    | succ fuel =>
      cases ht with
      | nil =>
        rw [joined_singleton] at hf ⊢
        rw [readFields_field hi (ends_gap hc (.inr rfl) rest) (by omega)]
        simp only [skipSpace_gap hc (by decide : isSpace '\x7d' = false)]
      | @cons next _ texts fields hn ht =>
        obtain ⟨cs, hq⟩ := hn.first
        rw [joined_cons_cons, List.length_append, List.length_cons, List.length_append] at hf
        rw [joined_cons_cons, List.append_assoc, List.cons_append, List.append_assoc,
          readFields_field hi (ends_cons (.inl rfl) _) (by omega)]
        simp only [skipSpace_cons (by decide : isSpace ',' = false)]
        rw [skipSpace_joined hg ⟨'"', cs, hq, rfl⟩, ih (List.cons_ne_nil _ _) fuel (by omega)]
        rfl

end Parts

section Enclosed

theorem gap_newLine (depth : Nat) : Gap (Style.newLine depth).toList := by
  intro c hc
  rw [Style.newLine, String.toList_ofList, List.mem_cons] at hc
  rcases hc with rfl | hc
  · rfl
  · rw [List.eq_of_mem_replicate hc]
    rfl

theorem plain_newLine (depth : Nat) : Plain (Style.newLine depth).toList := by
  rw [Style.newLine, String.toList_ofList, plain_cons]
  refine ⟨.inl rfl, ?_⟩
  intro c hc
  rw [List.eq_of_mem_replicate hc]
  exact .inr (by decide)

theorem toList_enclose (depth : Nat) (left right : String) {l r : Char} (hl : left.toList = [l])
    (hr : right.toList = [r]) {parts : List String} (h : parts ≠ []) :
    (enclose .tree depth left right parts).toList =
      l :: ((Style.newLine depth).toList ++
        (joined (Style.newLine depth).toList (parts.map String.toList) ++
          ((Style.newLine (depth - 1)).toList ++ [r]))) := by
  have hp : parts.isEmpty = false := List.isEmpty_eq_false_iff.2 h
  simp only [enclose, hp, Bool.false_eq_true, if_false, Style.tree, String.toList_append,
    String.toList_intercalate, List.append_assoc, hl, hr, joined]
  rfl

theorem toList_enclose_nil (depth : Nat) (left right : String) :
    (enclose .tree depth left right []).toList = left.toList ++ right.toList :=
  String.toList_append

theorem plain_joined {gap : List Char} (hg : Plain gap) {texts : List (List Char)}
    (h : ∀ text ∈ texts, Plain text) : Plain (joined gap texts) := by
  induction texts with
  | nil =>
    rintro c ⟨⟩
  | cons text texts ih =>
    have ht := h text List.mem_cons_self
    have hr := ih fun t hm => h t (List.mem_cons_of_mem text hm)
    cases texts with
    | nil => rwa [joined_singleton]
    | cons next texts =>
      rw [joined_cons_cons, plain_append, plain_cons, plain_append]
      exact ⟨ht, by decide, hg, hr⟩

/-- Parts in brackets read back if the reader that the opening bracket calls for
reads the parts up to the closing one. -/
theorem restores_enclose (depth : Nat) {left right : String} {l r : Char}
    (hl : left.toList = [l]) (hr : right.toList = [r]) (hpl : Printable l) (hpr : Printable r)
    (hls : isSpace l = false) (hlb : l ≠ ']') {parts : List String} (hne : parts ≠ [])
    (hp : ∀ text ∈ parts.map String.toList, Plain text) {v : Value}
    (hv : ∀ (fuel : Nat) (rest : List Char),
      (joined (Style.newLine depth).toList (parts.map String.toList)).length < fuel →
      readValue plainHold (fuel + 1) (l :: ((Style.newLine depth).toList ++
        (joined (Style.newLine depth).toList (parts.map String.toList) ++
          ((Style.newLine (depth - 1)).toList ++ r :: rest)))) = .ok (v, rest)) :
    Restores (enclose .tree depth left right parts).toList v := by
  rw [toList_enclose depth left right hl hr hne]
  apply Restores.of_succ
  · simp only [plain_cons, plain_append]
    exact ⟨.inr hpl, plain_newLine depth, plain_joined (plain_newLine depth) hp,
      plain_newLine (depth - 1), .inr hpr, by decide⟩
  · exact ⟨l, _, rfl, hls, hlb⟩
  · intro fuel rest hf _
    simp only [List.length_cons, List.length_append, List.length_nil] at hf
    simp only [List.cons_append, List.append_assoc, List.nil_append]
    exact hv fuel rest (by omega)

theorem readValue_list {gap : List Char} (hg : Gap gap) {c : Char} (hs : isSpace c = false)
    (hc : c ≠ ']') (fuel : Nat) (cs : List Char) :
    readValue plainHold (fuel + 1) ('[' :: (gap ++ c :: cs)) = (do
      let (items, after) ← readItems plainHold fuel (c :: cs)
      return (.list items, after)) := by
  rw [readValue, skipSpace_gap hg hs]
  split
  · next heq => exact absurd (List.cons.inj heq).1 hc
  · rfl

theorem readValue_record {gap : List Char} (hg : Gap gap) {c : Char} (hs : isSpace c = false)
    (hc : c ≠ '\x7d') (fuel : Nat) (cs : List Char) :
    readValue plainHold (fuel + 1) ('\x7b' :: (gap ++ c :: cs)) = (do
      let (fields, after) ← readFields plainHold fuel (c :: cs)
      return (.record (Bindings.update [] fields), after)) := by
  rw [readValue, skipSpace_gap hg hs]
  split
  · next heq => exact absurd (List.cons.inj heq).1 hc
  · rfl

theorem restores_list (depth : Nat) {parts : List String} {items : List Value}
    (h : List.Forall₂ Restores (parts.map String.toList) items) :
    Restores (enclose .tree depth "[" "]" parts).toList (.list items) := by
  cases parts with
  | nil =>
    cases h
    rw [toList_enclose_nil]
    exact restores_word (by decide) rfl fun _ _ => rfl
  | cons part parts =>
    apply restores_enclose depth (l := '[') (r := ']') rfl rfl (by decide) (by decide) rfl
      (by decide) (List.cons_ne_nil part parts)
    · exact ((List.forall₂_and_left _ _).1 (h.imp fun _ _ hr => ⟨hr.plain, hr⟩)).1
    · intro fuel rest hf
      have hi := readItems_joined (gap_newLine depth) (gap_newLine (depth - 1)) h
        (List.cons_ne_nil _ _) rest fuel hf
      obtain ⟨item, items, hp, -, rfl⟩ := List.forall₂_cons_left_iff.1 h
      obtain ⟨c, cs, hc, hs, hb⟩ := hp.first
      obtain ⟨tail, hj⟩ := exists_joined_cons (Style.newLine depth).toList c cs
        (parts.map String.toList)
      rw [List.map_cons, hc, hj, List.cons_append] at hi ⊢
      rw [readValue_list (gap_newLine depth) hs hb, hi]
      rfl

theorem restores_record (depth : Nat) {parts : List String} {fields : List (String × Value)}
    (h : List.Forall₂ RestoresField (parts.map String.toList) fields)
    (hn : Bindings.update [] fields = fields) :
    Restores (enclose .tree depth "\x7b" "\x7d" parts).toList (.record fields) := by
  cases parts with
  | nil =>
    cases h
    rw [toList_enclose_nil]
    exact restores_word (by decide) rfl fun _ _ => rfl
  | cons part parts =>
    apply restores_enclose depth (l := '\x7b') (r := '\x7d') rfl rfl (by decide) (by decide) rfl
      (by decide) (List.cons_ne_nil part parts)
    · exact ((List.forall₂_and_left _ _).1 (h.imp fun _ _ hr => ⟨hr.plain, hr⟩)).1
    · intro fuel rest hf
      have hi := readFields_joined (gap_newLine depth) (gap_newLine (depth - 1)) h
        (List.cons_ne_nil _ _) rest fuel hf
      obtain ⟨field, others, hp, -, hfs⟩ := List.forall₂_cons_left_iff.1 h
      obtain ⟨cs, hc⟩ := hp.first
      obtain ⟨tail, hj⟩ := exists_joined_cons (Style.newLine depth).toList '"' cs
        (parts.map String.toList)
      rw [List.map_cons, hc, hj, List.cons_append] at hi ⊢
      rw [readValue_record (c := '"') (gap_newLine depth) rfl (by decide), hi, Except.ok_bind]
      simp only [hn]
      rfl

end Enclosed

end BlockScript.Json
