import BlockScript.Files.Folder
import BlockScript.Proofs.Bindings
import BlockScript.Proofs.Failure

/-!
# A file that was written is there

Making folders and writing files only adds to what there is, so that a path that
leads to a place keeps leading there. Writing a file makes the folder it goes
into, hence the file is found where it was written, with the octets it was given.
-/

set_option autoImplicit false

namespace BlockScript.Folder

variable {folder made : Folder} {path : Path} {place : Place} {names : List String}

def Grows (folder made : Folder) : Prop :=
  ∀ place, folder.isFolder place = true → made.isFolder place = true

theorem grows_makeAt (folder : Folder) (place : Place) :
    Grows folder { folder with folders := folder.folders ++ [place] } := by
  intro other h
  simp only [isFolder, List.any_append, Bool.or_eq_true] at h ⊢
  rcases h with (h | h) | h
  · exact .inl (.inl h)
  · exact .inl (.inr (.inl h))
  · exact .inr h

theorem isFolder_makeAt (folder : Folder) (place : Place) :
    isFolder { folder with folders := folder.folders ++ [place] } place = true := by
  have h : place.isPrefixOf place = true := List.isPrefixOf_iff_prefix.2 (List.prefix_refl place)
  simp [isFolder, h]

theorem grows_write (folder : Folder) (place : Place) (octets : List UInt8) :
    Grows folder { folder with files := folder.files.put place octets } := by
  intro other h
  simp only [isFolder, Bool.or_eq_true, List.any_eq_true] at h ⊢
  rcases h with h | ⟨file, hf, h⟩
  · exact .inl h
  · refine .inr ⟨file, ?_, h⟩
    rw [Bindings.keys_put]
    split
    · exact hf
    · exact List.mem_append_left _ hf

theorem follow_grows (h : Grows folder made) {start : Place}
    (hf : folder.follow start names = .found place) : made.follow start names = .found place := by
  induction names generalizing start with
  | nil => exact hf
  | cons name names ih =>
    rw [follow] at hf ⊢
    by_cases hs : folder.isFolder start = true
    · rw [if_pos hs] at hf
      rw [if_pos (h start hs)]
      split at hf
      · cases hf
      · next hn =>
        rw [if_neg hn]
        exact ih hf
    · rw [if_neg hs] at hf
      split at hf <;> cases hf

theorem follow_append (folder : Folder) (start : Place) (names more : List String) :
    folder.follow start (names ++ more) =
      match folder.follow start names with
      | .found place => folder.follow place more
      | other => other := by
  induction names generalizing start with
  | nil => rfl
  | cons name names ih =>
    rw [List.cons_append, follow, follow]
    split
    · split
      · rfl
      · exact ih _
    · split <;> rfl

def base (path : Path) : Place := if path.root = "" then [] else ["/"]

def LeadsToFolder (folder : Folder) (path : Path) : Prop :=
  ∃ place, folder.follow (base path) path.parts = .found place ∧ folder.isFolder place = true

theorem lookup_grows (h : Grows folder made) (hl : folder.lookup path = .found place) :
    made.lookup path = .found place := by
  unfold lookup at hl ⊢
  split at hl
  · cases hl
  · split at hl
    · cases hl
    · next h₁ h₂ =>
      rw [if_neg h₁, if_neg h₂]
      exact follow_grows h hl

theorem follow_of_lookup (hl : folder.lookup path = .found place) :
    folder.follow (base path) path.parts = .found place := by
  unfold lookup at hl
  split at hl
  · cases hl
  · split at hl
    · cases hl
    · exact hl

/-- In a folder that is there, a name leads somewhere or is at fault itself. -/
theorem lookup_ne_missing (h : LeadsToFolder folder path.parent) :
    folder.lookup path ≠ .missing := by
  obtain ⟨place, hf, hp⟩ := h
  have hn : folder.follow (base path) path.parts ≠ .missing := by
    by_cases he : path.parts = []
    · rw [he]
      simp [follow]
    · rw [← List.dropLast_concat_getLast he, follow_append]
      change folder.follow (base path) path.parts.dropLast = .found place at hf
      simp only [hf, follow, if_pos hp]
      split <;> simp
  unfold lookup
  split
  · simp
  · split
    · simp
    · exact hn

theorem leadsToFolder_of_makeAt (h : folder.makeAt path = .ok (some made)) :
    LeadsToFolder made path := by
  unfold makeAt at h
  split at h
  · next place hl =>
    have hf := follow_of_lookup hl
    split at h
    · next hp =>
      cases h
      exact ⟨place, hf, hp⟩
    · split at h
      · cases h
      · cases h
        exact ⟨place, follow_grows (grows_makeAt folder place) hf, isFolder_makeAt folder place⟩
  all_goals cases h

theorem lookup_of_makeAt (h : folder.makeAt path = .ok none) : folder.lookup path = .missing := by
  unfold makeAt at h
  split at h
  · split at h
    · cases h
    · split at h <;> cases h
  · next hl => exact hl
  all_goals cases h

theorem isFolder_base (folder : Folder) (path : Path) : folder.isFolder (base path) = true := by
  have h : Place.isFixed (base path) = true := by
    unfold base
    split <;> decide
  simp [isFolder, h]

/-- The first names of a path lead to a folder once it was made. -/
theorem leadsToFolder_of_makeFolder {n : Nat} (hn : n ≤ path.parts.length)
    (h : folder.makeFolder path n = .ok made) :
    LeadsToFolder made ⟨path.root, path.parts.take n⟩ := by
  induction n generalizing made with
  | zero =>
    cases h
    exact ⟨base path, rfl, isFolder_base folder path⟩
  | succ n ih =>
    rw [makeFolder] at h
    obtain ⟨first, hm, h⟩ := Except.exists_of_bind_eq_ok h
    cases first with
    | some first =>
      cases h
      exact leadsToFolder_of_makeAt hm
    | none =>
      obtain ⟨around, ha, h⟩ := Except.exists_of_bind_eq_ok h
      obtain ⟨second, hs, h⟩ := Except.exists_of_bind_eq_ok h
      cases second with
      | some second =>
        cases h
        exact leadsToFolder_of_makeAt hs
      | none =>
        -- The folder around was made just before, so the next one cannot miss it.
        have hd : (path.parts.take (n + 1)).dropLast = path.parts.take n := by
          rw [List.dropLast_eq_take, List.take_take, List.length_take]
          congr 1
          omega
        refine absurd (lookup_of_makeAt hs) (lookup_ne_missing ?_)
        simp only [Path.parent, hd]
        exact ih (by omega) ha

theorem read_of_write {octets : List UInt8} (h : folder.write path octets = .ok made) :
    made.read path = .ok (some octets) := by
  rw [write] at h
  obtain ⟨around, ha, h⟩ := Except.exists_of_bind_eq_ok h
  have hp := leadsToFolder_of_makeFolder (Nat.le_refl _) ha
  rw [List.take_length] at hp
  split at h
  · next place hl =>
    split at h
    · cases h
    · cases h
      have hk : (place == place) = true := by simp
      rw [read, lookup_grows (grows_write around place octets) hl]
      exact congrArg Except.ok (Bindings.get?_put_self hk around.files octets)
  · next hl => exact absurd hl (lookup_ne_missing hp)
  all_goals cases h

end BlockScript.Folder
