import Checkpoint.Image.Inode

/-! # Snapshots

The records of the sections `SNAPSHOT` and `SNAPSHOT_DIFF`. Diffs come in groups: an entry says to
which inode the diffs after it belong and how many there are, and each diff of a directory is
followed by the entries of its created list. -/
namespace Checkpoint

/-- The leading record of the snapshot section. -/
structure SnapshotHeader where
  snapshotCounter : Int
  snapshottableDirs : List Int
  numSnapshots : Int

/-- A snapshot, with the root as it was when it was taken. -/
structure Snapshot where
  id : Int
  root : Inode

/-- The start of a group of diffs. -/
structure DiffEntry where
  kind : Int
  inodeId : Int
  numDiffs : Int

/-- How a file changed between two snapshots. -/
structure FileDiff where
  snapshotId : Int
  fileSize : Int
  name : Bytes

/-- How a directory changed between two snapshots. -/
structure DirectoryDiff where
  snapshotId : Int
  childrenSize : Int
  isSnapshotRoot : Bool
  name : Bytes
  createdListSize : Int
  deletedInodes : List Int
  deletedReferences : List Int

/-- A child that was created between two snapshots. -/
structure CreatedEntry where
  name : Bytes

namespace SnapshotHeader

def schema : Schema where
  name := "SnapshotSection"
  fields := [
    { number := 1, name := "snapshotCounter", kind := .int32 },
    { number := 2, name := "snapshottableDir", kind := .int64, repeated := true },
    { number := 3, name := "numSnapshots", kind := .int32 }]

def ofRecord (r : Record) : SnapshotHeader where
  snapshotCounter := r.int 1
  snapshottableDirs := r.ints 2
  numSnapshots := r.int 3

end SnapshotHeader

namespace Snapshot

def schema : Schema where
  name := "SnapshotSection.Snapshot"
  fields := [
    { number := 1, name := "snapshotId", kind := .int32 },
    { number := 2, name := "root", kind := .message Inode.schema }]

/-- A snapshot without a root has an inode about which nothing is said. -/
def ofRecord (r : Record) : Snapshot where
  id := r.int 1
  root := .ofRecord ((r.record? 2).getD [])

end Snapshot

namespace DiffEntry

def schema : Schema where
  name := "DiffEntry"
  fields := [
    { number := 1, name := "type", kind := .enum, fallback := 1 },
    { number := 2, name := "inodeId", kind := .int64 },
    { number := 3, name := "numOfDiff", kind := .int32 }]

def ofRecord (r : Record) : DiffEntry where
  kind := (r.int? 1).getD 1
  inodeId := r.int 2
  numDiffs := r.int 3

end DiffEntry

namespace FileDiff

def schema : Schema where
  name := "FileDiff"
  fields := [
    { number := 1, name := "snapshotId", kind := .int32 },
    { number := 2, name := "fileSize", kind := .int64 },
    { number := 3, name := "name", kind := .bytes }]

def ofRecord (r : Record) : FileDiff where
  snapshotId := r.int 1
  fileSize := r.int 2
  name := r.bytes 3

end FileDiff

namespace DirectoryDiff

def schema : Schema where
  name := "DirectoryDiff"
  fields := [
    { number := 1, name := "snapshotId", kind := .int32 },
    { number := 2, name := "childrenSize", kind := .int32 },
    { number := 3, name := "isSnapshotRoot", kind := .bool },
    { number := 4, name := "name", kind := .bytes },
    { number := 6, name := "createdListSize", kind := .int32 },
    { number := 7, name := "deletedINode", kind := .int64, repeated := true },
    { number := 8, name := "deletedINodeRef", kind := .int32, repeated := true }]

def ofRecord (r : Record) : DirectoryDiff where
  snapshotId := r.int 1
  childrenSize := r.int 2
  isSnapshotRoot := r.flag 3
  name := r.bytes 4
  createdListSize := r.int 6
  deletedInodes := r.ints 7
  deletedReferences := r.ints 8

end DirectoryDiff

namespace CreatedEntry

def schema : Schema where
  name := "CreatedListEntry"
  fields := [{ number := 1, name := "name", kind := .bytes }]

def ofRecord (r : Record) : CreatedEntry := ⟨r.bytes 1⟩

end CreatedEntry

end Checkpoint
