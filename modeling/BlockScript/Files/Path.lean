import BlockScript.Text.Split

/-!
# Paths

A path is a row of names. Empty names and single dots say nothing and are left
out; double dots are kept, since they depend on what the names before them are.
-/

set_option autoImplicit false

namespace BlockScript

structure Path where
  /-- The slashes a path from the root starts with, nothing for other paths. -/
  root : String
  parts : List String
  deriving DecidableEq, Repr

namespace Path

/-- A path starts at the root if it starts with a slash; two slashes are kept
apart from one, and more than two count as one. -/
def rootOf (text : List Char) : String :=
  match (text.takeWhile (· == '/')).length with
  | 0 => ""
  | 2 => "//"
  | _ => "/"

def ofText (text : String) : Path :=
  let parts := (Text.splitOn '/' text.toList).map String.ofList
  ⟨rootOf text.toList, parts.filter fun part => part ≠ "" ∧ part ≠ "."⟩

def toText (path : Path) : String :=
  if path.root = "" ∧ path.parts = [] then "." else path.root ++ "/".intercalate path.parts

def parent (path : Path) : Path := { path with parts := path.parts.dropLast }

end Path

end BlockScript
