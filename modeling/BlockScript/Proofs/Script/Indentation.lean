import BlockScript.Proofs.Script.Lexemes
import BlockScript.Proofs.Script.Likeness
import Mathlib.Data.List.Forall2
import Mathlib.Data.List.TakeWhile
import Mathlib.Order.Monotone.Defs

/-!
# Only the order of indentations matters

A script is read through the lines that are not skipped: their texts, and which
of any two is indented further. Two sources that agree in this are run alike,
whatever else stands between the lines, in front of them or behind them.
-/

set_option autoImplicit false

namespace BlockScript

namespace Script

variable {same : Nat → Nat → Prop}

structure Paired (pairs : List (Line × Line)) : Prop where
  text : ∀ p ∈ pairs, p.1.text = p.2.text
  order : ∀ p ∈ pairs, ∀ q ∈ pairs, (p.1.indent ≤ q.1.indent ↔ p.2.indent ≤ q.2.indent)

namespace Paired

variable {pairs : List (Line × Line)}

theorem sublist {some : List (Line × Line)} (h : Paired pairs) (hs : some.Sublist pairs) :
    Paired some where
  text p hp := h.text p (hs.subset hp)
  order p hp q hq := h.order p (hs.subset hp) q (hs.subset hq)

theorem within_eq {p : Line × Line} (h : Paired (p :: pairs)) :
    ∀ q ∈ pairs, ((fun line : Line => decide (p.2.indent < line.indent)) ∘ Prod.snd) q =
      ((fun line : Line => decide (p.1.indent < line.indent)) ∘ Prod.fst) q := by
  intro q hq
  simp only [Function.comp_apply]
  have ho := h.order q (List.mem_cons_of_mem p hq) p List.mem_cons_self
  rw [decide_eq_decide]
  omega

/-- Paired lines are read as forests that match. -/
theorem forest_matching (h : Paired pairs) (hn : ∀ p ∈ pairs, same p.1.number p.2.number) :
    Matching same (forest (pairs.map Prod.fst)) (forest (pairs.map Prod.snd)) := by
  induction hl : pairs.length using Nat.strong_induction_on generalizing pairs with
  | _ n ih =>
    subst hl
    cases pairs with
    | nil =>
      rw [List.map_nil, List.map_nil, forest]
      exact .nil
    | cons p pairs =>
      have ht := h.text p List.mem_cons_self
      have hp := hn p List.mem_cons_self
      have hsub : ∀ some : List (Line × Line), some.Sublist pairs →
          Matching same (forest (some.map Prod.fst)) (forest (some.map Prod.snd)) := by
        intro some hs
        refine ih some.length ?_ (h.sublist (hs.cons p)) ?_ rfl
        · exact Nat.lt_succ_of_le hs.length_le
        · intro q hq
          exact hn q (List.mem_cons_of_mem p (hs.subset hq))
      have hrest := hsub pairs (List.Sublist.refl pairs)
      rw [List.map_cons, List.map_cons, forest, forest, ← ht]
      cases classifyChars p.1.text with
      | error fault => exact .leaf _ ht hp hrest
      | ok statement =>
        cases statement with
        | simple statement => exact .leaf _ ht hp hrest
        | block header inline =>
          cases inline with
          | some inline => exact .leaf _ ht hp hrest
          | none =>
            rw [List.takeWhile_map, List.takeWhile_map, List.dropWhile_map, List.dropWhile_map,
              takeWhile_congr h.within_eq, dropWhile_congr h.within_eq]
            exact .owner header ht hp (hsub _ (List.takeWhile_sublist _))
              (hsub _ (List.dropWhile_sublist _))

end Paired

def visibleLines (source : String) : List Line := Line.visible (Line.ofSource source)

def linePairs (s t : String) : List (Line × Line) := (visibleLines s).zip (visibleLines t)

def Corresponds (s t : String) (n m : Nat) : Prop :=
  ∃ p ∈ linePairs s t, p.1.number = n ∧ p.2.number = m

/-- Sources whose lines, but for those that are skipped, have the same texts in
order and are ordered alike by their indentations. -/
structure SameLayout (s t : String) : Prop where
  texts : (visibleLines s).map Line.text = (visibleLines t).map Line.text
  order : ∀ p ∈ linePairs s t, ∀ q ∈ linePairs s t,
    (p.1.indent ≤ q.1.indent ↔ p.2.indent ≤ q.2.indent)

theorem SameLayout.length_eq {s t : String} (h : SameLayout s t) :
    (visibleLines s).length = (visibleLines t).length := by
  simpa using congrArg List.length h.texts

theorem SameLayout.paired {s t : String} (h : SameLayout s t) : Paired (linePairs s t) where
  text := by
    have hz := h.texts
    rw [← List.forall₂_eq_eq_eq, List.forall₂_map_left_iff, List.forall₂_map_right_iff] at hz
    intro p hp
    exact (List.forall₂_iff_zip.1 hz).2 hp
  order := h.order

def failureMarker (line : Nat) (cause : Cause) : String := s!"Error on line {line}: {cause.message}"

inductive Ending.Alike (same : Nat → Nat → Prop) (a b : Ending) : Prop
  | equal : a.stop = b.stop → (∀ n cause, a.stop ≠ some (.failed n cause)) →
      a.output = b.output → Alike same a b
  | failed (printed : List String) {n m : Nat} (cause : Cause) : same n m →
      a.stop = some (.failed n cause) → b.stop = some (.failed m cause) →
      a.output = printed ++ [failureMarker n cause, finishMarker] →
      b.output = printed ++ [failureMarker m cause, finishMarker] → Alike same a b

/-- Two runs under one budget that no script can tell apart. -/
structure RunsAlike (budget : Int) (s t : String) : Prop where
  steps : (run budget s).state.steps = (run budget t).state.steps
  vars : (run budget s).state.vars = (run budget t).state.vars
  ending : Ending.Alike (Corresponds s t) (run budget s) (run budget t)

theorem Result.Alike.ending {result result' : Result Unit} (h : Result.Alike same result result') :
    Ending.Alike same result.ending result'.ending := by
  cases h with
  | ok a hst =>
    refine .equal rfl (fun n cause hf => by cases hf) ?_
    rw [Ending.output, Ending.output]
    simp only [Result.ending, hst.output]
    rfl
  | error hstop hst =>
    cases hstop with
    | runaway =>
      refine .equal rfl (fun n cause hf => by cases hf) ?_
      rw [Ending.output, Ending.output]
      simp only [Result.ending, hst.output]
      rfl
    | failed cause hn =>
      refine .failed _ cause hn rfl rfl rfl ?_
      rw [Ending.output]
      simp only [Result.ending, hst.output]
      rfl

theorem SameLayout.runsAlike {s t : String} (h : SameLayout s t) (budget : Int) :
    RunsAlike budget s t := by
  obtain ⟨result, he, hr⟩ := exists_evalAll budget s
  obtain ⟨result', he', hr'⟩ := exists_evalAll budget t
  have hm : Matching (Corresponds s t) _ _ :=
    h.paired.forest_matching fun p hp => ⟨p, hp, rfl, rfl⟩
  rw [linePairs, List.map_fst_zip h.length_eq.le, List.map_snd_zip h.length_eq.ge] at hm
  obtain ⟨found, hf, ha⟩ := hm.follows budget initial initial ⟨rfl, rfl, rfl⟩ result he
  obtain rfl : result' = found := Option.some.inj (he'.symm.trans hf)
  refine ⟨?_, ?_, ?_⟩
  · rw [hr, hr']
    cases ha <;> exact State.Alike.steps ‹_›
  · rw [hr, hr']
    cases ha <;> exact State.Alike.vars ‹_›
  · rw [hr, hr']
    exact ha.ending

def rawLines (source : String) : List (List Char) := Text.splitOn '\n' source.toList

def lineOf (raw : List Char) : Line := Line.ofRaw 0 raw

def unskipped (source : String) : List (List Char) :=
  (rawLines source).filter fun raw => !(lineOf raw).isSkippable

def Reindented (f : Nat → Nat) (raw raw' : List Char) : Prop :=
  ∃ blanks : List Char, (∀ c ∈ blanks, Text.isBlank c = true) ∧
    blanks.length = f (lineOf raw).indent ∧ raw' = blanks ++ Text.trimStart raw

def Trailed (raw raw' : List Char) : Prop :=
  ∃ blanks : List Char, (∀ c ∈ blanks, Text.isBlank c = true) ∧ raw' = raw ++ blanks

def Shifted (f : Nat → Nat) (line line' : Line) : Prop :=
  line.text = line'.text ∧ line'.indent = f line.indent

theorem visible_unnumbered (n : Nat) (raws : List (List Char)) :
    (Line.visible (Line.numbered n raws)).map (fun line => { line with number := 0 }) =
      (raws.filter fun raw => !(lineOf raw).isSkippable).map lineOf := by
  induction raws generalizing n with
  | nil => rfl
  | cons raw raws ih =>
    cases hs : (lineOf raw).isSkippable with
    | true =>
      have hn : (Line.ofRaw n raw).isSkippable = true := hs
      simp [Line.numbered, Line.visible_cons_of_skippable hn, hs, ih]
    | false =>
      have hn : (Line.ofRaw n raw).isSkippable = false := hs
      simp [Line.numbered, Line.visible_cons hn, hs, ih]
      rfl

theorem shifted_of_unskipped {f : Nat → Nat} {s t : String}
    (h : List.Forall₂ (fun raw raw' => Shifted f (lineOf raw) (lineOf raw'))
      (unskipped s) (unskipped t)) :
    List.Forall₂ (Shifted f) (visibleLines s) (visibleLines t) := by
  have hm : List.Forall₂ (Shifted f) ((unskipped s).map lineOf) ((unskipped t).map lineOf) := by
    rw [List.forall₂_map_left_iff, List.forall₂_map_right_iff]
    exact h
  rw [unskipped, unskipped, ← visible_unnumbered 1, ← visible_unnumbered 1,
    List.forall₂_map_left_iff, List.forall₂_map_right_iff] at hm
  exact hm

theorem SameLayout.of_shifted {f : Nat → Nat} (hf : StrictMono f) {s t : String}
    (h : List.Forall₂ (Shifted f) (visibleLines s) (visibleLines t)) : SameLayout s t where
  texts := by
    rw [← List.forall₂_eq_eq_eq, List.forall₂_map_left_iff, List.forall₂_map_right_iff]
    exact h.imp fun _ _ hl => hl.1
  order p hp q hq := by
    have hi : ∀ r ∈ linePairs s t, Shifted f r.1 r.2 := fun r hr => (List.forall₂_iff_zip.1 h).2 hr
    rw [(hi p hp).2, (hi q hq).2, hf.le_iff_le]

/-- Lines of which each is as before, but for its indentation if it is not skipped. -/
theorem SameLayout.of_rawLines {f : Nat → Nat} (hf : StrictMono f) {s t : String}
    (h : List.Forall₂ (fun raw raw' => (lineOf raw).text = (lineOf raw').text ∧
      ((lineOf raw).isSkippable = false → (lineOf raw').indent = f (lineOf raw).indent))
      (rawLines s) (rawLines t)) : SameLayout s t := by
  refine .of_shifted hf (shifted_of_unskipped ?_)
  have hu := List.rel_filter (p := fun raw => !(lineOf raw).isSkippable)
    (q := fun raw => !(lineOf raw).isSkippable) ?_ h
  · have hv : ∀ raw ∈ unskipped s, (lineOf raw).isSkippable = false := by
      intro raw hr
      simpa using (List.mem_filter.1 hr).2
    exact ((List.forall₂_and_left _ _).2 ⟨hv, hu⟩).imp fun _ _ hr => ⟨hr.2.1, hr.2.2 hr.1⟩
  · intro raw raw' hr
    simp [Line.isSkippable, hr.1]

end Script

namespace Text

theorem head?_trimStart (cs : List Char) : ∀ c ∈ (trimStart cs).head?, isBlank c = false := by
  intro c hc
  have hd := List.head?_dropWhile_not isBlank cs
  rw [trimStart, Option.mem_def] at hc
  rw [hc] at hd
  exact hd

/-- What follows a text does not change how many blanks it starts with, unless the text
has nothing else. -/
theorem takeWhile_append_of_trim {cs : List Char} (hc : trim cs ≠ []) (blanks : List Char) :
    (cs ++ blanks).takeWhile isBlank = cs.takeWhile isBlank := by
  rw [List.takeWhile_append, if_neg]
  intro hl
  have hall : cs.takeWhile isBlank = cs := (List.takeWhile_prefix isBlank).eq_of_length hl
  have hn : cs.dropWhile isBlank = [] :=
    List.dropWhile_eq_nil_iff.2 (List.takeWhile_eq_self_iff.1 hall)
  rw [trim, trimStart, hn] at hc
  exact hc rfl

end Text

namespace Script

theorem lineOf_reindented {f : Nat → Nat} {raw raw' : List Char} (h : Reindented f raw raw') :
    (lineOf raw).text = (lineOf raw').text ∧ (lineOf raw').indent = f (lineOf raw).indent := by
  obtain ⟨blanks, hb, hl, rfl⟩ := h
  have hd := Text.head?_trimStart raw
  constructor
  · change Text.trim raw = Text.trimEnd (Text.trimStart (blanks ++ Text.trimStart raw))
    rw [Text.trimStart, dropWhile_span hb hd]
    rfl
  · change ((blanks ++ Text.trimStart raw).takeWhile Text.isBlank).length = _
    rw [takeWhile_span hb hd, hl]

theorem lineOf_trailed {raw raw' : List Char} (h : Trailed raw raw') :
    (lineOf raw).text = (lineOf raw').text ∧
      ((lineOf raw).isSkippable = false → (lineOf raw').indent = (lineOf raw).indent) := by
  obtain ⟨blanks, hb, rfl⟩ := h
  constructor
  · exact (Text.trim_append_blanks hb raw).symm
  · intro hs
    have hn : Text.trim raw ≠ [] := by
      intro hn
      have ht : (lineOf raw).text = [] := hn
      simp [Line.isSkippable, ht] at hs
    change ((raw ++ blanks).takeWhile Text.isBlank).length = _
    rw [Text.takeWhile_append_of_trim hn]
    rfl

/-- Only the order of indentations matters, and lines that are skipped do not
matter at all. Sources whose other lines have the same texts and are ordered alike
by indentation are run alike under every budget. In particular this holds if
lines that are skipped are put in or taken out anywhere; if all lines are
indented anew so that what was indented further still is; and if blanks are
added at the ends of lines. -/
theorem run_depends_on_layout (budget : Int) (s t : String) :
    (SameLayout s t → RunsAlike budget s t) ∧
    (unskipped s = unskipped t → RunsAlike budget s t) ∧
    (∀ f : Nat → Nat, StrictMono f →
      List.Forall₂ (Reindented f) (rawLines s) (rawLines t) → RunsAlike budget s t) ∧
    (List.Forall₂ Trailed (rawLines s) (rawLines t) → RunsAlike budget s t) := by
  refine ⟨fun h => h.runsAlike budget, ?_, ?_, ?_⟩
  · intro h
    have hu : List.Forall₂ (fun raw raw' => Shifted id (lineOf raw) (lineOf raw'))
        (unskipped s) (unskipped t) := by
      rw [← h, List.forall₂_same]
      exact fun raw _ => ⟨rfl, rfl⟩
    exact (SameLayout.of_shifted strictMono_id (shifted_of_unskipped hu)).runsAlike budget
  · intro f hf h
    refine (SameLayout.of_rawLines hf (h.imp fun _ _ hr => ?_)).runsAlike budget
    exact ⟨(lineOf_reindented hr).1, fun _ => (lineOf_reindented hr).2⟩
  · intro h
    exact (SameLayout.of_rawLines strictMono_id (h.imp fun _ _ => lineOf_trailed)).runsAlike budget

/-- A script whose fourth line fails, which is the seventh in the second source. -/
theorem run_depends_on_layout_spread :
    let s := "n = 1\nif n > 0:\n  print(n)\nfor i in range(x):\n  print(i)"
    let t := "\nn = 1 \n    # test\nif n > 0:\r\n\t\t\tprint(n)\n\nfor i in range(x):\n   print(i)\r"
    SameLayout s t ∧ RunsAlike 100 s t := by
  intro s t
  have h : SameLayout s t := ⟨by decide +kernel, by decide +kernel⟩
  exact ⟨h, (run_depends_on_layout 100 s t).1 h⟩

end Script

end BlockScript
