import BlockScript.Variables

/-!
# Looking up what was put

A key that was put has its new value, and every key that is not the same keeps
its own. Names of variables are not all told apart by equality, but a name that
is text is the same as no other name.
-/

set_option autoImplicit false

namespace BlockScript

namespace Bindings

variable {κ α : Type} [BEq κ] {key other : κ}

theorem get?_put_self (hk : (key == key) = true) (bindings : Bindings κ α) (value : α) :
    (bindings.put key value).get? key = some value := by
  induction bindings with
  | nil => simp [put, get?, hk]
  | cons binding rest ih =>
    obtain ⟨k, v⟩ := binding
    by_cases h : (key == k) = true
    · simp [put, get?, h]
    · simp [put, get?, h, ih]

theorem get?_put_of_ne (hk : (key == key) = true)
    (ho : ∀ k, (key == k) = true → (other == k) = false) (bindings : Bindings κ α) (value : α) :
    (bindings.put key value).get? other = bindings.get? other := by
  induction bindings with
  | nil => simp [put, get?, ho key hk]
  | cons binding rest ih =>
    obtain ⟨k, v⟩ := binding
    by_cases h : (key == k) = true
    · simp [put, get?, h, ho k h]
    · simp [put, get?, h, ih]

theorem put_of_not_mem [LawfulBEq κ] {bindings : Bindings κ α} (h : key ∉ bindings.keys)
    (value : α) : bindings.put key value = bindings ++ [(key, value)] := by
  induction bindings with
  | nil => rfl
  | cons binding rest ih =>
    obtain ⟨k, v⟩ := binding
    rw [keys, List.map_cons, List.mem_cons, not_or] at h
    have hk : ¬ (key == k) = true := by simpa using h.1
    rw [put, if_neg hk, ih h.2, List.cons_append]

theorem exists_same_of_get? {bindings : Bindings κ α} {value : α}
    (h : bindings.get? key = some value) :
    ∃ k, (key == k) = true ∧ (k, value) ∈ bindings := by
  induction bindings with
  | nil => cases h
  | cons binding rest ih =>
    obtain ⟨k, v⟩ := binding
    by_cases hk : (key == k) = true
    · simp only [get?, hk, if_true, Option.some.injEq] at h
      exact ⟨k, hk, by simp [h]⟩
    · simp only [get?, hk] at h
      obtain ⟨k', hs, hm⟩ := ih h
      exact ⟨k', hs, List.mem_cons_of_mem _ hm⟩

theorem exists_of_get? {bindings : Bindings κ α} {value : α}
    (h : bindings.get? key = some value) : ∃ k, (k, value) ∈ bindings := by
  obtain ⟨k, -, hm⟩ := exists_same_of_get? h
  exact ⟨k, hm⟩

/-- A binding after a put is an old one, or has the new value under the new key or
under the spelling that was there before. -/
theorem mem_put {bindings : Bindings κ α} {value : α} {binding : κ × α}
    (h : binding ∈ bindings.put key value) :
    binding ∈ bindings ∨
      binding.2 = value ∧ (binding.1 = key ∨ binding.1 ∈ bindings.keys) := by
  induction bindings with
  | nil =>
    rw [put, List.mem_singleton] at h
    exact Or.inr ⟨by rw [h], Or.inl (by rw [h])⟩
  | cons first rest ih =>
    obtain ⟨k, v⟩ := first
    by_cases hk : (key == k) = true
    · simp only [put, hk, if_true, List.mem_cons] at h
      rcases h with rfl | h
      · exact Or.inr ⟨rfl, Or.inr (by simp [keys])⟩
      · exact Or.inl (List.mem_cons_of_mem _ h)
    · simp only [put, hk, Bool.false_eq_true, if_false, List.mem_cons] at h
      rcases h with rfl | h
      · exact Or.inl List.mem_cons_self
      · rcases ih h with hm | ⟨hv, hkey⟩
        · exact Or.inl (List.mem_cons_of_mem _ hm)
        · exact Or.inr ⟨hv, hkey.imp id fun hm => List.mem_cons_of_mem k hm⟩

theorem keys_prefix_put (bindings : Bindings κ α) (key : κ) (value : α) :
    bindings.keys <+: (bindings.put key value).keys := by
  rw [keys_put]
  split
  · exact List.prefix_rfl
  · exact List.prefix_append _ _

/-- A put changes what stands at one place, which may be the first free one. -/
theorem exists_getElem?_put (bindings : Bindings κ α) (key : κ) (value : α) :
    ∃ place, ∀ i : Nat, i ≠ place → (bindings.put key value)[i]? = bindings[i]? := by
  induction bindings with
  | nil =>
    refine ⟨0, fun i hi => ?_⟩
    obtain ⟨j, rfl⟩ := Nat.exists_eq_succ_of_ne_zero hi
    rfl
  | cons binding rest ih =>
    obtain ⟨k, v⟩ := binding
    by_cases hk : (key == k) = true
    · refine ⟨0, fun i hi => ?_⟩
      obtain ⟨j, rfl⟩ := Nat.exists_eq_succ_of_ne_zero hi
      rw [put, if_pos hk]
      rfl
    · obtain ⟨place, hp⟩ := ih
      refine ⟨place + 1, fun i hi => ?_⟩
      rw [put, if_neg hk]
      cases i with
      | zero => rfl
      | succ j => exact hp j fun hj => hi (hj ▸ rfl)

/-- Putting bindings of new keys that are all different keeps their order. -/
theorem update_of_nodup [LawfulBEq κ] {bindings changes : Bindings κ α}
    (h : (keys (bindings ++ changes)).Nodup) : bindings.update changes = bindings ++ changes := by
  induction changes generalizing bindings with
  | nil => exact (List.append_nil bindings).symm
  | cons change changes ih =>
    have hk : change.1 ∉ bindings.keys := by
      simp only [keys, List.map_append, List.map_cons] at h
      exact fun hm => (List.nodup_append.1 h).2.2 _ hm _ List.mem_cons_self rfl
    rw [update, List.foldl_cons, put_of_not_mem hk]
    rw [List.append_cons bindings change changes] at h ⊢
    exact ih h

section Lawful

variable [LawfulBEq κ]

theorem mem_keys_iff {bindings : Bindings κ α} {key : κ} :
    bindings.contains key = true ↔ key ∈ bindings.keys := by
  induction bindings with
  | nil => simp [contains, get?, keys]
  | cons binding rest ih =>
    obtain ⟨k, v⟩ := binding
    by_cases hk : key = k
    · simp [contains, get?, keys, hk]
    · simpa [contains, get?, keys, hk] using ih

theorem get?_put (bindings : Bindings κ α) (key : κ) (value : α) (other : κ) :
    (bindings.put key value).get? other =
      if other == key then some value else bindings.get? other := by
  by_cases h : (other == key) = true
  · rw [if_pos h, beq_iff_eq.1 h, get?_put_self (by simp)]
  · rw [if_neg h, get?_put_of_ne (by simp)]
    intro k hk
    rwa [← beq_iff_eq.1 hk, ← Bool.not_eq_true]

/-- After an update a key has its new value, and a key that was not updated its old one. -/
theorem get?_update {changes : Bindings κ α} (hn : changes.keys.Nodup) (bindings : Bindings κ α)
    (key : κ) : (bindings.update changes).get? key = (changes.get? key).or (bindings.get? key) := by
  induction changes generalizing bindings with
  | nil => rfl
  | cons change changes ih =>
    obtain ⟨k, v⟩ := change
    obtain ⟨hk, hn⟩ := List.nodup_cons.1 hn
    rw [update, List.foldl_cons]
    refine (ih hn (bindings.put k v)).trans ?_
    rw [get?_put, get?]
    by_cases h : (key == k) = true
    · have hnone : get? changes key = none := by
        rw [beq_iff_eq.1 h, ← Option.not_isSome_iff_eq_none]
        exact fun hs => hk (mem_keys_iff.1 hs)
      rw [if_pos h, if_pos h, hnone]
      rfl
    · rw [if_neg h, if_neg h]

/-- An update leaves the keys where they are and puts the new ones after them, in order. -/
theorem keys_update {changes : Bindings κ α} (hn : changes.keys.Nodup) (bindings : Bindings κ α) :
    (bindings.update changes).keys =
      bindings.keys ++ changes.keys.filter fun key => !bindings.contains key := by
  induction changes generalizing bindings with
  | nil => exact (List.append_nil _).symm
  | cons change changes ih =>
    obtain ⟨k, v⟩ := change
    obtain ⟨hk, hn⟩ := List.nodup_cons.1 hn
    have hc : ∀ key ∈ keys changes,
        (!(bindings.put k v).contains key) = !bindings.contains key := by
      intro key hm
      have hne : ¬ (key == k) = true := fun he => hk (beq_iff_eq.1 he ▸ hm)
      rw [contains, contains, get?_put, if_neg hne]
    rw [update, List.foldl_cons]
    refine (ih hn (bindings.put k v)).trans ?_
    rw [List.filter_congr hc, keys_put]
    cases h : bindings.contains k <;> simp [keys, h]

/-- What an update leaves under a key comes from the update or was there before. -/
theorem mem_or_of_get?_update {changes : Bindings κ α} (bindings : Bindings κ α) {key : κ}
    {value : α} (h : (bindings.update changes).get? key = some value) :
    (key, value) ∈ changes ∨ bindings.get? key = some value := by
  induction changes generalizing bindings with
  | nil => exact .inr h
  | cons change changes ih =>
    obtain ⟨k, v⟩ := change
    rw [update, List.foldl_cons] at h
    rcases ih (bindings.put k v) h with hm | hg
    · exact .inl (List.mem_cons_of_mem _ hm)
    · rw [get?_put] at hg
      by_cases hk : (key == k) = true
      · rw [if_pos hk, Option.some.injEq] at hg
        exact .inl (by simp [beq_iff_eq.1 hk, hg])
      · rw [if_neg hk] at hg
        exact .inr hg

end Lawful

end Bindings

theorem VarName.text_beq_iff (x : String) (name : VarName) :
    (VarName.text x == name) = true ↔ name = .text x := by
  change VarName.same (.text x) name = true ↔ _
  cases name with
  | text y => rw [VarName.same, beq_iff_eq, VarName.text.injEq, eq_comm]
  | null | bool | number => simp [VarName.same, VarName.number?]

section Names

variable {α : Type}

theorem get?_put_string (vars : Bindings String α) (x y : String) (value : α) :
    (vars.put x value).get? y = if y = x then some value else vars.get? y := by
  rw [Bindings.get?_put]
  simp only [beq_iff_eq]

/-- Looking up a variable by text after one named by text was given a value. -/
theorem get?_put_text (vars : Bindings VarName α) (x y : String) (value : α) :
    (vars.put (.text x) value).get? (.text y) =
      if y = x then some value else vars.get? (.text y) := by
  have hx : (VarName.text x == VarName.text x) = true := (VarName.text_beq_iff x _).2 rfl
  by_cases h : y = x
  · subst h
    rw [if_pos rfl, Bindings.get?_put_self hx]
  · rw [if_neg h, Bindings.get?_put_of_ne hx]
    intro k hk
    rw [← Bool.not_eq_true, VarName.text_beq_iff, (VarName.text_beq_iff x k).1 hk]
    rintro ⟨⟩
    exact h rfl

end Names

end BlockScript
