/-! # Section table

An image is divided into sections, each with a name. The known kinds have a fixed order in which
they are visited; sections of other names are passed over. -/
namespace Checkpoint

/-- The kinds of section, in the order in which they are visited. -/
inductive SectionKind where
  | nsInfo
  | stringTable
  | inode
  | inodeReference
  | inodeDir
  | filesUnderConstruction
  | snapshot
  | snapshotDiff
  | secretManager
  | cacheManager
  deriving DecidableEq, Repr

namespace SectionKind

def all : List SectionKind :=
  [nsInfo, stringTable, inode, inodeReference, inodeDir, filesUnderConstruction, snapshot,
   snapshotDiff, secretManager, cacheManager]

def name : SectionKind → String
  | nsInfo => "NS_INFO"
  | stringTable => "STRING_TABLE"
  | inode => "INODE"
  | inodeReference => "INODE_REFERENCE"
  | inodeDir => "INODE_DIR"
  | filesUnderConstruction => "FILES_UNDERCONSTRUCTION"
  | snapshot => "SNAPSHOT"
  | snapshotDiff => "SNAPSHOT_DIFF"
  | secretManager => "SECRET_MANAGER"
  | cacheManager => "CACHE_MANAGER"

def ofName? (name : String) : Option SectionKind := all.find? (·.name == name)

/-- No kind is missing. -/
theorem mem_all (kind : SectionKind) : kind ∈ all := by cases kind <;> decide

/-- Different kinds have different names. -/
theorem ofName?_name (kind : SectionKind) : ofName? kind.name = some kind := by
  cases kind <;> decide +kernel

end SectionKind

/-- An entry of the section table: a name and a stretch of the image. -/
structure SectionEntry where
  name : String
  offset : Int
  length : Int
  deriving DecidableEq, Repr

namespace SectionEntry

def kind (entry : SectionEntry) : Option SectionKind := SectionKind.ofName? entry.name

/-- The order in which sections are visited: known kinds in their order, then the unknown names.
Sections of one kind, and those of unknown names, stay in the order of the table. -/
def visitOrder (table : List SectionEntry) : List SectionEntry :=
  SectionKind.all.flatMap (fun kind => table.filter (·.kind == some kind)) ++
    table.filter (·.kind == none)

/-- An entry together with its place in the visit order. -/
structure Row where
  entry : SectionEntry
  /-- Nothing for a section that is passed over. -/
  position : Option Nat
  deriving DecidableEq, Repr

/-- The table in its own order, with the place of each entry in the visit order. -/
def rows (table : List SectionEntry) : List Row :=
  let ordered := visitOrder table
  table.map fun entry =>
    { entry, position := if entry.kind.isSome then ordered.findIdx? (· == entry) else none }

end SectionEntry

end Checkpoint
