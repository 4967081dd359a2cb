/-!
# Cutting text

Texts are cut at a separating character, and known words are taken off their
front.
-/

set_option autoImplicit false

namespace BlockScript.Text

def splitOn (separator : Char) : List Char → List (List Char)
  | [] => [[]]
  | c :: rest =>
    if c = separator then [] :: splitOn separator rest
    else
      match splitOn separator rest with
      | [] => [[c]]
      | part :: parts => (c :: part) :: parts

def after? : List Char → List Char → Option (List Char)
  | [], text => some text
  | _ :: _, [] => none
  | w :: word, c :: text => if w = c then after? word text else none

theorem after?_eq_some {word text rest : List Char} (h : after? word text = some rest) :
    text = word ++ rest := by
  induction word generalizing text with
  | nil => simpa [after?] using h
  | cons w word ih =>
    cases text with
    | nil => simp [after?] at h
    | cons c text =>
      simp only [after?] at h
      split at h
      · next hw => rw [hw, ih h, List.cons_append]
      · cases h

def startsWith (word text : List Char) : Bool := (after? word text).isSome

end BlockScript.Text
