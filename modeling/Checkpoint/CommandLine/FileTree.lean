import Checkpoint.CommandLine.FileSystem

/-! # File trees

Files and directories as a value. Each has a location, which is the list of names from the top, and
the top itself is a directory. There are no links: every file has one location, and a content that
is its own. -/
namespace Checkpoint

inductive FileEntry where
  | file (content : Bytes)
  | directory
  deriving DecidableEq, Repr

/-- The names from the top down. -/
abbrev Location := List String

/-- Files and directories, and where the program stands among them. -/
structure FileTree where
  entries : List (Location × FileEntry)
  workingDirectory : Location
  deriving Repr

namespace FileTree

def get? (tree : FileTree) (location : Location) : Option FileEntry :=
  if location = [] then some .directory else tree.entries.lookup location

def erase (tree : FileTree) (location : Location) : FileTree :=
  { tree with entries := tree.entries.filter (·.1 ≠ location) }

def insert (tree : FileTree) (location : Location) (entry : FileEntry) : FileTree :=
  { tree with entries := (location, entry) :: (tree.erase location).entries }

def maxNameBytes : Nat := 255

def maxPathBytes : Nat := 4095

def checkName (name : String) : Except SystemFault Unit :=
  if maxNameBytes < name.utf8ByteSize then .error .nameTooLong else .ok ()

/-- Follows names from one directory to another. -/
def walk (tree : FileTree) (start : Location) : List String → Except SystemFault Location
  | [] => .ok start
  | name :: rest => do
    checkName name
    let next := if name = ".." then start.dropLast else start ++ [name]
    match tree.get? next with
    | none => throw .noSuchFile
    | some (.file _) => throw .notADirectory
    | some .directory => tree.walk next rest

inductive Place where
  /-- To a name in a directory that is there. -/
  | named (location : Location)
  /-- To a directory that has been walked through. -/
  | passed (location : Location)

/-- Follows a path up to its last name. -/
def place (tree : FileTree) (path : Path) : Except SystemFault Place := do
  if maxPathBytes < path.toString.utf8ByteSize then throw .nameTooLong
  let start := if path.root.isEmpty then tree.workingDirectory else []
  match path.names.getLast? with
  | none => return .passed start
  | some name =>
    let directory ← tree.walk start path.names.dropLast
    checkName name
    if name = ".." then return .passed directory.dropLast else return .named (directory ++ [name])

def file (tree : FileTree) (path : Path) : Except SystemFault Bytes := do
  match ← tree.place path with
  | .passed _ => throw .isADirectory
  | .named location =>
    match tree.get? location with
    | none => throw .noSuchFile
    | some .directory => throw .isADirectory
    | some (.file content) => return content

def isDirectory (tree : FileTree) (path : Path) : Bool :=
  match tree.place path with
  | .ok (.passed _) => true
  | .ok (.named location) => tree.get? location == some .directory
  | .error _ => false

def makeDirectory (tree : FileTree) (path : Path) : Except SystemFault FileTree := do
  match ← tree.place path with
  | .passed _ => throw .fileExists
  | .named location =>
    match tree.get? location with
    | some _ => throw .fileExists
    | none => return tree.insert location .directory

def fill (tree : FileTree) (path : Path) (content : Bytes) : Except SystemFault FileTree := do
  match ← tree.place path with
  | .passed _ => throw .isADirectory
  | .named location =>
    if tree.get? location = some .directory then throw .isADirectory
    return tree.insert location (.file content)

def rename (tree : FileTree) (path target : Path) : Except SystemFault FileTree := do
  match ← tree.place path, ← tree.place target with
  | .named source, .named location =>
    match tree.get? source with
    | some (.file content) =>
      if tree.get? location = some .directory then throw .isADirectory
      return (tree.erase source).insert location (.file content)
    | some .directory => throw .isADirectory
    | none => throw .noSuchFile
  | _, _ => throw .busy

def remove (tree : FileTree) (path : Path) : Except SystemFault FileTree := do
  match ← tree.place path with
  | .passed _ => throw .isADirectory
  | .named location =>
    match tree.get? location with
    | some (.file _) => return tree.erase location
    | some .directory => throw .isADirectory
    | none => throw .noSuchFile

end FileTree

structure World where
  tree : FileTree
  stdout : String := ""
  stderr : String := ""

namespace World

def change (path : Path) (target : Option Path) (f : FileTree → Except SystemFault FileTree) :
    StateM World (Except SystemError Unit) := fun w =>
  match f w.tree with
  | .ok tree => (.ok (), { w with tree })
  | .error fault => (.error { fault, path, target }, w)

def fileSystem : FileSystem (StateM World) where
  openInput path := do
    match (← get).tree.file path with
    | .ok _ => return .ok ()
    | .error fault => return .error { fault, path }
  contents path := return match (← get).tree.file path with
    | .ok content => .ok content
    | .error fault => .error { fault }
  makeDirectory path := change path none (·.makeDirectory path)
  isDirectory path := return (← get).tree.isDirectory path
  create path := change path none (·.fill path [])
  fill path content := change path none (·.fill path content)
  rename path target := change path (some target) (·.rename path target)
  remove path := change path none (·.remove path)
  print text := fun w => (.ok (), { w with stdout := w.stdout ++ text })
  printError text := modify fun w => { w with stderr := w.stderr ++ text }

end World

end Checkpoint
