import Checkpoint.Wire.Record
import Checkpoint.Wire.Schema

/-! # Links between inodes

The records of the sections `INODE_DIR`, `INODE_REFERENCE` and `FILES_UNDERCONSTRUCTION`. -/
namespace Checkpoint

/-- The children of a directory. -/
structure DirectoryLinks where
  parent : Int
  children : List Int
  /-- Children that are references, by their position in the reference section. -/
  references : List Int

/-- Another name under which snapshots keep an inode. -/
structure InodeReference where
  referredId : Int
  name : Bytes
  dstSnapshotId : Int
  lastSnapshotId : Int

/-- A file that has not been closed yet. -/
structure OpenFile where
  inodeId : Int
  path : String

namespace DirectoryLinks

def schema : Schema where
  name := "DirEntry"
  fields := [
    { number := 1, name := "parent", kind := .int64 },
    { number := 2, name := "children", kind := .int64, repeated := true },
    { number := 3, name := "refChildren", kind := .int32, repeated := true }]

def ofRecord (r : Record) : DirectoryLinks where
  parent := r.int 1
  children := r.ints 2
  references := r.ints 3

end DirectoryLinks

namespace InodeReference

def schema : Schema where
  name := "INodeReference"
  fields := [
    { number := 1, name := "referredId", kind := .int64 },
    { number := 2, name := "name", kind := .bytes },
    { number := 3, name := "dstSnapshotId", kind := .int32 },
    { number := 4, name := "lastSnapshotId", kind := .int32 }]

def ofRecord (r : Record) : InodeReference where
  referredId := r.int 1
  name := r.bytes 2
  dstSnapshotId := r.int 3
  lastSnapshotId := r.int 4

end InodeReference

namespace OpenFile

def schema : Schema where
  name := "FileUnderConstructionEntry"
  fields := [
    { number := 1, name := "inodeId", kind := .int64 },
    { number := 2, name := "fullPath", kind := .string }]

def ofRecord (r : Record) : OpenFile where
  inodeId := r.int 1
  path := r.text 2

end OpenFile

end Checkpoint
