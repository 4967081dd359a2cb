import BlockScript.Block.Edit

/-!
# The variables of a program

The names of a program are the bare forms of the names of its blocks, and no
others, in the order in which blocks first go by them. A block that works with a
name given as text has that text among them.
-/

set_option autoImplicit false

namespace BlockScript.Program

theorem exists_of_addName {names names' : List String} {v : Value}
    (h : addName names v = .ok names') :
    ∃ x, v.bare = .ok x ∧ ∀ y, y ∈ names' ↔ y ∈ names ∨ y = x := by
  unfold addName at h
  cases hv : v.bare with
  | error fault =>
    rw [hv] at h
    cases h
  | ok x =>
    rw [hv] at h
    refine ⟨x, rfl, fun y => ?_⟩
    have hn : (if names.contains x then names else names ++ [x]) = names' := Except.ok.inj h
    rw [← hn]
    by_cases hx : x ∈ names
    · have hor : y ∈ names ∨ y = x ↔ y ∈ names :=
        or_iff_left_of_imp fun hy => hy ▸ hx
      simp [hx, hor]
    · simp [hx]

theorem exists_foldlM_addName {vs : List Value} (h : ∀ v ∈ vs, ∃ x, v.bare = .ok x)
    (names : List String) : ∃ names', vs.foldlM addName names = .ok names' := by
  induction vs generalizing names with
  | nil => exact ⟨names, rfl⟩
  | cons v vs ih =>
    obtain ⟨⟨x, hx⟩, hvs⟩ := List.forall_mem_cons.1 h
    rw [List.foldlM_cons, addName, hx]
    exact ih hvs _

theorem exists_variableNames {program : Program}
    (h : ∀ b ∈ program.walk, ∀ v, variableName? b = some v → ∃ x, v.bare = .ok x) :
    ∃ names, program.variableNames = .ok names := by
  refine exists_foldlM_addName (fun v hv => ?_) []
  obtain ⟨b, hb, hv⟩ := List.mem_filterMap.1 hv
  exact h b hb v hv

def goesBy (b : Block) (x : String) : Bool :=
  match (variableName? b).map Value.bare with
  | some (.ok y) => y == x
  | _ => false

theorem goesBy_iff (b : Block) (x : String) :
    goesBy b x = true ↔ ∃ v, variableName? b = some v ∧ v.bare = .ok x := by
  unfold goesBy
  cases hv : variableName? b with
  | none => simp
  | some v => cases hx : v.bare <;> simp [hx]

/-- What it is for names to be those of a list of blocks, in the order in which
blocks of the list first go by them. -/
structure Lists (bs : List Block) (names : List String) : Prop where
  shown : ∀ b ∈ bs, ∀ v, variableName? b = some v → ∃ x, v.bare = .ok x
  mem_iff : ∀ x, x ∈ names ↔ ∃ b ∈ bs, goesBy b x = true
  ordered : names.Pairwise fun x y => bs.findIdx (goesBy · x) < bs.findIdx (goesBy · y)

namespace Lists

variable {bs : List Block} {names : List String}

theorem nil : Lists [] [] := ⟨nofun, fun x => by simp, .nil⟩

theorem findIdx_lt (h : Lists bs names) {x : String} (hx : x ∈ names) :
    bs.findIdx (goesBy · x) < bs.length :=
  List.findIdx_lt_length_of_exists ((h.mem_iff x).1 hx)

theorem ordered_snoc (h : Lists bs names) (b : Block) :
    names.Pairwise fun x y =>
      (bs ++ [b]).findIdx (goesBy · x) < (bs ++ [b]).findIdx (goesBy · y) := by
  refine h.ordered.imp_of_mem fun hx hy hlt => ?_
  rw [List.findIdx_append, if_pos (h.findIdx_lt hx), List.findIdx_append,
    if_pos (h.findIdx_lt hy)]
  exact hlt

theorem snoc_unnamed (h : Lists bs names) {b : Block} (hb : variableName? b = none) :
    Lists (bs ++ [b]) names where
  shown := by
    intro c hc v hv
    rcases List.mem_append.1 hc with hc | hc
    · exact h.shown c hc v hv
    · rw [List.mem_singleton.1 hc, hb] at hv
      cases hv
  mem_iff := by
    intro x
    have hx : goesBy b x = false := by simp [goesBy, hb]
    simp [h.mem_iff, List.mem_append, or_and_right, exists_or, hx]
  ordered := h.ordered_snoc b

/-- The name of a further block comes last, unless it is there already. -/
theorem snoc_named (h : Lists bs names) {b : Block} {v : Value} {names' : List String}
    (hb : variableName? b = some v) (ha : addName names v = .ok names') :
    Lists (bs ++ [b]) names' := by
  obtain ⟨x, hx, hm⟩ := exists_of_addName ha
  have hg : ∀ y, goesBy b y = true ↔ y = x := fun y => by
    rw [goesBy_iff]
    simp [hb, hx, eq_comm]
  refine ⟨?_, ?_, ?_⟩
  · intro c hc w hw
    rcases List.mem_append.1 hc with hc | hc
    · exact h.shown c hc w hw
    · rw [List.mem_singleton.1 hc, hb] at hw
      cases hw
      exact ⟨x, hx⟩
  · intro y
    simp [hm, h.mem_iff, List.mem_append, or_and_right, exists_or, hg]
  · have hn : names' = if names.contains x then names else names ++ [x] := by
      rw [addName, hx] at ha
      exact (Except.ok.inj ha).symm
    by_cases hc : x ∈ names
    · rw [hn, if_pos (List.contains_iff_mem.2 hc)]
      exact h.ordered_snoc b
    · rw [hn, if_neg (mt List.contains_iff_mem.1 hc), List.pairwise_append]
      refine ⟨h.ordered_snoc b, List.pairwise_singleton _ _, fun y hy z hz => ?_⟩
      -- No block before this one goes by the new name.
      have hlast : ¬ bs.findIdx (goesBy · x) < bs.length := by
        rw [List.findIdx_lt_length, ← h.mem_iff]
        exact hc
      rw [List.mem_singleton.1 hz, List.findIdx_append, if_pos (h.findIdx_lt hy),
        List.findIdx_append, if_neg hlast]
      exact Nat.lt_of_lt_of_le (h.findIdx_lt hy) (Nat.le_add_left _ _)

theorem append (h : Lists bs names) {more : List Block} {names' : List String}
    (hf : (more.filterMap variableName?).foldlM addName names = .ok names') :
    Lists (bs ++ more) names' := by
  induction more generalizing bs names with
  | nil =>
    cases hf
    rwa [List.append_nil]
  | cons b more ih =>
    rw [List.append_cons]
    cases hb : variableName? b with
    | none =>
      rw [List.filterMap_cons_none hb] at hf
      exact ih (h.snoc_unnamed hb) hf
    | some v =>
      rw [List.filterMap_cons_some hb, List.foldlM_cons] at hf
      cases ha : addName names v with
      | error fault =>
        rw [ha] at hf
        cases hf
      | ok names₁ =>
        rw [ha] at hf
        exact ih (h.snoc_named hb ha) hf

end Lists

theorem lists_variableNames {program : Program} {names : List String}
    (h : program.variableNames = .ok names) : Lists program.walk names :=
  Lists.nil.append h

theorem mem_variableNames {program : Program} {names : List String}
    (h : program.variableNames = .ok names) (y : String) :
    y ∈ names ↔ ∃ b ∈ program.walk, ∃ v, variableName? b = some v ∧ v.bare = .ok y := by
  rw [(lists_variableNames h).mem_iff]
  simp only [goesBy_iff]

/-- Unless the name of a block is given as nothing, it is the parameter that the
block works with. -/
theorem variableName?_eq_param {b : Block} {kind : Kind} {input : String} {v : Value}
    (hk : b.kind? = some kind) (hi : kind.nameInput? = some input)
    (hn : Bindings.get? b.params input ≠ some .null) (hp : b.param input = .ok v) :
    variableName? b = some v := by
  unfold variableName?
  unfold Block.param at hp
  rw [hk, Option.bind_eq_bind, Option.bind_some, hi, Option.bind_eq_bind, Option.bind_some]
  cases hg : Bindings.get? b.params input with
  | none =>
    rw [hg] at hp
    cases hd : b.default? input with
    | none => simp [hd] at hp
    | some d => simpa [hd] using hp
  | some w =>
    rw [hg] at hp
    cases hp
    cases v with
    | null => exact absurd hg hn
    | bool | number | text | list | record => rfl

/-- The name of a block is the parameter that it works with or the default. -/
theorem param_of_variableName? {b : Block} {kind : Kind} {v : Value} (hk : b.kind? = some kind)
    (hv : variableName? b = some v) :
    ∃ input, kind.nameInput? = some input ∧ (b.param input = .ok v ∨ b.default? input = some v) := by
  unfold variableName? at hv
  rw [hk, Option.bind_eq_bind, Option.bind_some] at hv
  obtain ⟨input, hi, hv⟩ := Option.bind_eq_some_iff.1 hv
  refine ⟨input, hi, ?_⟩
  split at hv
  · exact Or.inr hv
  · exact Or.inr hv
  · next hg =>
    cases hv
    rw [Block.param, hg]
    exact Or.inl rfl

theorem variableName?_of_param {b : Block} {kind : Kind} {input x : String}
    (hk : b.kind? = some kind) (hi : kind.nameInput? = some input)
    (hp : b.param input = .ok (.text x)) : variableName? b = some (.text x) := by
  refine variableName?_eq_param hk hi ?_ hp
  intro hg
  simp [Block.param, hg] at hp

end BlockScript.Program
