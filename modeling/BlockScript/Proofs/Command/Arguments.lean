import BlockScript.Command.Arguments
import BlockScript.Proofs.Failure

/-!
# Values of options

Under the newer convention an option that takes a value has one whenever it is set, so
the settings that come of a command line lack none.
-/

set_option autoImplicit false

namespace BlockScript.Command

structure Settings.Complete (settings : Settings) : Prop where
  output : settings.output ≠ .unnamed
  maxSteps : settings.maxSteps ≠ none

section Turns

variable {convention : Convention} {form : Form} {switch : Switch} {rest : List (String × Mark)}
  {turn : Turn}

def Turn.Given (turn : Turn) : Prop := ∀ use ∈ turn.uses, use.1.takesValue = true → use.2 ≠ none

theorem given_value {text : String} {extras : List String} :
    Turn.Given ⟨[(switch, some text)], extras, rest⟩ := by
  rintro use hu - hn
  rw [List.mem_singleton.1 hu] at hn
  cases hn

theorem given_flag (ht : ¬ switch.takesValue = true) {extras : List String} :
    Turn.Given ⟨[(switch, none)], extras, rest⟩ := by
  intro use hu h
  rw [List.mem_singleton.1 hu] at h
  exact absurd h ht

theorem given_afterSetting (ht : ¬ switch.takesValue = true) {x : Except UsageFault Turn}
    (hx : ∀ {turn : Turn}, x = .ok turn → turn.Given)
    (h : x.map (Turn.afterSetting switch) = .ok turn) : turn.Given := by
  cases x with
  | error fault => cases h
  | ok later =>
    cases h
    exact List.forall_mem_cons.2 ⟨fun h => absurd h ht, hx rfl⟩

theorem given_of_plainUse (h : plainUse switch rest = .ok turn) : turn.Given := by
  unfold plainUse at h
  split at h
  · split at h
    · cases h
      exact given_value
    · cases h
  · next ht =>
    cases h
    exact given_flag ht

theorem given_of_joinedUses {equals : Bool} {letters : List Char}
    (h : joinedUses convention form switch rest equals letters = .ok turn) : turn.Given := by
  fun_induction joinedUses convention form switch rest equals letters generalizing turn with
  | case1 =>
    cases h
    exact given_value
  | case5 _ _ ht =>
    cases h
    exact given_flag ht
  | case6 _ _ ht _ _ _ _ _ _ ih =>
    refine given_afterSetting ht (fun hx => ?_) h
    split at hx
    · exact given_of_plainUse hx
    · exact ih hx
    · next hempty hequals =>
      split at ih
      · cases hempty rfl
      · cases hequals _ rfl rfl
      · exact ih hx
  | case2 | case3 | case4 => cases h

theorem given_of_turnOf {attached : Option Attached}
    (h : turnOf convention form switch attached rest = .ok turn) :
    turn.Given := by
  cases attached with
  | none => exact given_of_plainUse h
  | some attached =>
    cases attached with
    | letters equals text => exact given_of_joinedUses h
    | value text =>
      rw [turnOf] at h
      split at h
      · cases h
        exact given_value
      · cases h

end Turns

section Settings

variable {form : Form} {settings settings' : Settings}

theorem complete_of_apply {use : Use} (hu : use.1.takesValue = true → use.2 ≠ none)
    (hc : settings.Complete) (h : settings.apply .newer form use = .ok settings') :
    settings'.Complete := by
  obtain ⟨switch, value⟩ := use
  cases hs : switch.setting with
  | help =>
    simp only [Settings.apply, hs] at h
    cases h
  | verbose | json | noValidate =>
    simp only [Settings.apply, hs] at h
    cases h
    exact ⟨hc.output, hc.maxSteps⟩
  | output =>
    obtain ⟨text, rfl⟩ := Option.ne_none_iff_exists'.1 (hu (by simp only [Switch.takesValue, hs]))
    simp only [Settings.apply, hs] at h
    cases h
    exact ⟨nofun, hc.maxSteps⟩
  | maxSteps =>
    obtain ⟨text, rfl⟩ := Option.ne_none_iff_exists'.1 (hu (by simp only [Switch.takesValue, hs]))
    simp only [Settings.apply, hs] at h
    split at h
    · cases h
      exact ⟨hc.output, nofun⟩
    · cases h

theorem complete_of_foldlM {uses : List Use}
    (hu : ∀ use ∈ uses, use.1.takesValue = true → use.2 ≠ none) (hc : settings.Complete)
    (h : uses.foldlM (Settings.apply .newer form) settings = .ok settings') :
    settings'.Complete := by
  induction uses generalizing settings with
  | nil =>
    cases h
    exact hc
  | cons use uses ih =>
    obtain ⟨hfirst, hrest⟩ := List.forall_mem_cons.1 hu
    obtain ⟨next, hn, h⟩ := Except.exists_of_bind_eq_ok h
    exact ih hrest (complete_of_apply hfirst hc hn) h

end Settings

section Reading

variable {form : Form} {takesAll : Bool}

theorem complete_of_readMarks {fuel : Nat} {reading reading' : Reading}
    {marks : List (String × Mark)} (hc : reading.settings.Complete)
    (h : readMarks .newer form takesAll fuel reading marks = .ok reading') :
    reading'.settings.Complete := by
  fun_induction readMarks .newer form takesAll fuel reading marks with
  | case1 | case2 =>
    cases h
    exact hc
  | case3 _ _ _ _ ih => exact ih hc h
  | case4 => cases h
  | case5 _ _ _ _ _ _ _ ht ih =>
    obtain ⟨settings, hs, h⟩ := Except.exists_of_bind_eq_ok h
    exact ih settings (complete_of_foldlM (given_of_turnOf ht) hc hs) h
  | case6 _ _ _ _ _ _ _ ht hf _ _ ih =>
    simp only [hf, ht] at h
    exact ih hc h
  | case7 _ _ _ _ _ _ _ hnone ih =>
    split at h
    · next hf ht => cases hnone _ _ hf ht
    · exact ih hc h

theorem complete_of_readForm {settings : Settings} {args words : List String} {reading : Reading}
    (hc : settings.Complete)
    (h : readForm .newer form takesAll settings args = .ok (reading, words)) :
    reading.settings.Complete := by
  unfold readForm at h
  split at h
  · cases h
  · obtain ⟨reading', hr, h⟩ := Except.exists_of_bind_eq_ok h
    split at h
    · cases h
      exact complete_of_readMarks hc hr
    · cases h

end Reading

theorem complete_of_readBy {args : List String} {request : Request}
    (h : readBy .newer args = .ok request) : request.settings.Complete := by
  unfold readBy at h
  obtain ⟨⟨outer, words⟩, ho, h⟩ := Except.exists_of_bind_eq_ok h
  have hinitial : Settings.initial.Complete := ⟨nofun, nofun⟩
  have hc := complete_of_readForm hinitial ho
  cases words with
  | nil => cases h
  | cons word rest =>
    dsimp only at h
    split at h
    · cases h
    · obtain ⟨⟨inner, input⟩, hi, h⟩ := Except.exists_of_bind_eq_ok h
      dsimp only at h
      split at h
      · cases h
        exact complete_of_readForm hc hi
      · cases h

end BlockScript.Command
