import BlockScript.Bindings
import BlockScript.Files.Path
import BlockScript.Text.Quoted
import BlockScript.Text.Utf8

/-!
# Folders of files

A folder holds files and further folders under a base that paths start from. The
base, the folders above it and the root are always there. Writing a file makes
the folders it needs.
-/

set_option autoImplicit false

namespace BlockScript

/-- A row of names from the base. Double dots stand only at its front, where they
lead above the base, and a slash stands only at its front, for the root. -/
abbrev Place := List String

structure Folder where
  files : Bindings Place (List UInt8)
  folders : List Place
  deriving Repr

inductive FileFault where
  | isFolder (path : Path)
  | fileInTheWay (path : Path)
  | notFolder (path : Path)
  | nameTooLong (path : Path)
  | holdsNull
  deriving DecidableEq, Repr

def FileFault.message : FileFault → String
  | .isFolder path => s!"[Errno 21] Is a directory: {Text.quoted path.toText}"
  | .fileInTheWay path => s!"[Errno 17] File exists: {Text.quoted path.toText}"
  | .notFolder path => s!"[Errno 20] Not a directory: {Text.quoted path.toText}"
  | .nameTooLong path => s!"[Errno 36] File name too long: {Text.quoted path.toText}"
  | .holdsNull => "embedded null byte"

inductive Lookup where
  | found (place : Place)
  | missing
  | blocked
  | tooLong
  | illegal
  deriving DecidableEq, Repr

namespace Place

def enter (place : Place) (name : String) : Place :=
  if name != ".." then place ++ [name]
  else if place.all (· == "..") then place ++ [".."]
  else if place == ["/"] then place
  else place.dropLast

def isFixed (place : Place) : Bool := place.all (· == "..") || place == ["/"]

end Place

def octetCount (text : String) : Nat := (Utf8.encode text).length

def nameLimit : Nat := 255

def pathLimit : Nat := 4095

namespace Folder

def isFile (folder : Folder) (place : Place) : Bool := folder.files.contains place

def isFolder (folder : Folder) (place : Place) : Bool :=
  Place.isFixed place || folder.folders.any place.isPrefixOf ||
    folder.files.keys.any fun file => place.isPrefixOf file && place != file

def follow (folder : Folder) : Place → List String → Lookup
  | place, [] => .found place
  | place, name :: names =>
    if folder.isFolder place then
      if nameLimit < octetCount name then .tooLong
      else folder.follow (Place.enter place name) names
    else if folder.isFile place then .blocked
    else .missing

def lookup (folder : Folder) (path : Path) : Lookup :=
  if path.toText.toList.contains (Char.ofNat 0) then .illegal
  else if pathLimit < octetCount path.toText then .tooLong
  else folder.follow (if path.root = "" then [] else ["/"]) path.parts

def read (folder : Folder) (path : Path) : Except FileFault (Option (List UInt8)) :=
  match folder.lookup path with
  | .found place => .ok (folder.files.get? place)
  | .tooLong => .error (.nameTooLong path)
  | .missing | .blocked | .illegal => .ok none

/-- Makes the folder that a path leads to, unless it is there. Nothing is made if
the folder around it is missing. -/
def makeAt (folder : Folder) (path : Path) : Except FileFault (Option Folder) :=
  match folder.lookup path with
  | .found place =>
    if folder.isFolder place then .ok (some folder)
    else if folder.isFile place then .error (.fileInTheWay path)
    else .ok (some { folder with folders := folder.folders ++ [place] })
  | .missing => .ok none
  | .blocked => .error (.notFolder path)
  | .tooLong => .error (.nameTooLong path)
  | .illegal => .error .holdsNull

def makeFolder (folder : Folder) (path : Path) : Nat → Except FileFault Folder
  | 0 => .ok folder
  | n + 1 => do
    let here : Path := ⟨path.root, path.parts.take (n + 1)⟩
    match ← folder.makeAt here with
    | some made => return made
    | none =>
      let around ← folder.makeFolder path n
      return (← around.makeAt here).getD around

def write (folder : Folder) (path : Path) (octets : List UInt8) : Except FileFault Folder := do
  let folder ← folder.makeFolder path.parent path.parent.parts.length
  match folder.lookup path with
  | .found place =>
    if folder.isFolder place then throw (.isFolder path)
    return { folder with files := folder.files.put place octets }
  | .missing => return folder
  | .blocked => throw (.notFolder path)
  | .tooLong => throw (.nameTooLong path)
  | .illegal => throw .holdsNull

end Folder

end BlockScript
