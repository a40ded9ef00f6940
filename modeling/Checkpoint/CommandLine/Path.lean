/-! # Paths

A path is a root, which may be empty, and names from there on. Empty names and single dots are left
out; double dots stay, since what they lead to is for the file system to say. -/
namespace Checkpoint

structure Path where
  /-- One slash or two for a path from the top, nothing for one from where the program stands. -/
  root : String
  names : List String
  deriving DecidableEq, Repr

namespace Path

/-- Cuts a text at every slash; the part before the first is in `part`, last character first. -/
def cutInto (part : List Char) : List Char → List (List Char)
  | [] => [part.reverse]
  | c :: rest => if c = '/' then part.reverse :: cutInto [] rest else cutInto (c :: part) rest

/-- The root that a text starts with. Only exactly two slashes differ from one. -/
def rootOf : List Char → String
  | '/' :: '/' :: '/' :: _ => "/"
  | '/' :: '/' :: _ => "//"
  | '/' :: _ => "/"
  | _ => ""

def ofString (text : String) : Path where
  root := rootOf text.toList
  names := ((cutInto [] text.toList).map String.ofList).filter fun name => name ≠ "" ∧ name ≠ "."

/-- The text of a path; the path without root and names is a single dot. -/
def toString (path : Path) : String :=
  if path.root.isEmpty && path.names.isEmpty then "."
  else path.root ++ "/".intercalate path.names

/-- Whether a name has a NUL character in it, which no name of a file can have. -/
def hasNul (path : Path) : Bool := path.names.any (·.contains '\x00')

def parent (path : Path) : Path := { path with names := path.names.dropLast }

/-- The path beside a path whose last name has `ending` behind it; a path needs a name for that. -/
def beside? (path : Path) (ending : String) : Option Path :=
  path.names.getLast?.map fun name =>
    { path with names := path.names.dropLast ++ [name ++ ending] }

end Path

end Checkpoint
