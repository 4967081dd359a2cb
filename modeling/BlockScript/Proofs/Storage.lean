import BlockScript.Proofs.Block.Stored
import BlockScript.Proofs.Files.Folder
import BlockScript.Storage

/-!
# Saving and loading a program

The text of a program has printable characters of ASCII and line feeds only, so
that neither its encoding nor the line ends and marks that loading takes out
change it. Hence a program that was saved is loaded as it was, but for the payload
of what is not a number.
-/

set_option autoImplicit false

namespace BlockScript

theorem Utf8.decodeFrom_ascii {cs : List Char} (h : ∀ c ∈ cs, c.toNat < 0x80) (position : Nat) :
    decodeFrom position none (cs.flatMap encodeChar) = .ok cs := by
  induction cs generalizing position with
  | nil => rfl
  | cons c cs ih =>
    have hc := h c List.mem_cons_self
    have hn : (UInt8.ofNat c.toNat).toNat = c.toNat := by
      rw [UInt8.toNat_ofNat']
      omega
    have he : encodeChar c = [UInt8.ofNat c.toNat] := if_pos hc
    rw [List.flatMap_cons, he, List.singleton_append, decodeFrom, hn, if_pos hc,
      ih (fun d hd => h d (List.mem_cons_of_mem c hd)), Char.ofNat_toNat]
    rfl

namespace Storage

theorem unifyLineEnds_of_not_mem {cs : List Char} (h : '\r' ∉ cs) : unifyLineEnds cs = cs := by
  induction cs with
  | nil => rfl
  | cons c cs ih =>
    rw [List.mem_cons, not_or] at h
    rw [unifyLineEnds, if_neg (Ne.symm h.1), ih h.2]
    intro tail hc
    exact absurd hc (Ne.symm h.1)

theorem readText_encode (path : Path) {text : String} {c : Char} {cs : List Char}
    (ht : text.toList = c :: cs) (h : Json.Plain text.toList) :
    readText path (some (Utf8.encode text)) = .ok text := by
  have ha : ∀ d ∈ text.toList, d.toNat < 0x80 := by
    intro d hd
    rcases h d hd with rfl | hp
    · decide
    · exact Nat.lt_trans hp.2 (by decide)
  have hr : '\r' ∉ text.toList := by
    intro hm
    rcases h _ hm with hn | hp
    · cases hn
    · exact absurd hp.1 (by decide)
  have hb : (c == byteOrderMark) = false := by
    have hc := ha c (by rw [ht]; exact List.mem_cons_self)
    rw [beq_eq_false_iff_ne]
    rintro rfl
    exact absurd hc (by decide)
  have hd : text.toList.dropWhile (· == byteOrderMark) = text.toList := by
    rw [ht, List.dropWhile_cons_of_neg (by simp [hb])]
  rw [readText, Utf8.decode, Utf8.encode, Utf8.decodeFrom_ascii ha]
  simp only [unifyLineEnds_of_not_mem hr, hd, String.ofList_toList]

theorem read_of_restores {text : String} {v : Value} (h : Json.Restores text.toList v) :
    Json.read (text ++ "\n") = .ok v := by
  obtain ⟨c, cs, ht, hs⟩ := h.first_not_space
  have hl : (text ++ "\n").toList = text.toList ++ ['\n'] := String.toList_append
  have hv := h.reads (2 * (text.toList ++ ['\n']).length + 1) ['\n']
    (by rw [List.length_append]; omega) (by rintro d ⟨⟩; decide)
  have hc : Json.readChars Json.plainHold (text.toList ++ ['\n']) = .ok v := by
    have hk : Json.skipSpace (text.toList ++ ['\n']) = text.toList ++ ['\n'] := by
      rw [ht, List.cons_append, Json.skipSpace_cons hs]
    rw [Json.readChars, hk, hv]
    rfl
  rw [Json.read, Json.readBy, hl, hc]

theorem exists_programText {program : Program} (h : program.Storable) :
    ∃ text, programText program = .ok (text ++ "\n") ∧
      Json.Restores text.toList program.toValue.restored := by
  obtain ⟨text, hw, hr⟩ :=
    Json.exists_writeAt 0 program.toValue (Block.storableItems_toValues program h)
  exact ⟨text, by rw [programText, Json.writeTree, hw]; rfl, hr⟩

theorem parseProgram_of_restores (path : Path) {program : Program} {text : String}
    (h : Json.Restores text.toList program.toValue.restored) :
    parseProgram Json.plainHold path false (text ++ "\n") = .ok program.restored := by
  have hd : Json.readBy Json.plainHold (text ++ "\n") = .ok program.toValue.restored :=
    read_of_restores h
  rw [parseProgram, hd]
  simp only [Program.ofValue_restored]
  rfl

/-- A program that was saved is loaded as it was: every block with its id, type,
parameters and children, none kept apart from no children. The file that was
written holds the text. -/
theorem loadProgram_programText (program : Program) (h : program.Storable) (path : Path) :
    ∃ text, programText program = .ok text ∧
      loadProgram path false (some (Utf8.encode text)) = .ok program.restored ∧
      ∀ folder made : Folder, folder.write path (Utf8.encode text) = .ok made →
        made.read path = .ok (some (Utf8.encode text)) := by
  obtain ⟨text, hw, hr⟩ := exists_programText h
  refine ⟨text ++ "\n", hw, ?_, fun folder made hm => Folder.read_of_write hm⟩
  obtain ⟨c, cs, ht, -⟩ := hr.first
  have hs : Json.Plain (text ++ "\n").toList := by
    rw [String.toList_append, Json.plain_append]
    exact ⟨hr.plain, by decide⟩
  have hl : (text ++ "\n").toList = c :: (cs ++ "\n".toList) := by
    rw [String.toList_append, ht, List.cons_append]
  rw [loadProgram, loadProgramBy, readText_encode path hl hs, Except.ok_bind]
  exact parseProgram_of_restores path hr

def assorted : Program :=
  [⟨"π\t😀", "loop",
    [("count", .int (-12345678901234567890)), ("on", .bool true),
      ("tenth", .number (.float (.finite false ⟨4591870180066957722, by decide⟩))),
      ("nested", .record [("b", .list [.null, .number (.float (.nan 7)), .list []]),
        ("a", .record []), ("", .number (.float (.infinity true)))])],
    some [⟨"\"\\", "print", [("message", .text "1")], none⟩, ⟨"", "repeat", [], some []⟩]⟩]

theorem loadProgram_programText_assorted :
    assorted.Storable ∧ ∃ text, programText assorted = .ok text ∧
      loadProgram ⟨"", ["saved", "program"]⟩ false (some (Utf8.encode text)) =
        .ok assorted.restored ∧
      Folder.read ⟨[(["saved", "program"], Utf8.encode text)], [["saved"]]⟩
        ⟨"", ["saved", "program"]⟩ = .ok (some (Utf8.encode text)) := by
  have hs : assorted.Storable := by decide
  obtain ⟨text, hw, hl, hf⟩ := loadProgram_programText assorted hs ⟨"", ["saved", "program"]⟩
  refine ⟨hs, text, hw, hl, hf ⟨[], []⟩ _ ?_⟩
  rfl

end Storage

end BlockScript
