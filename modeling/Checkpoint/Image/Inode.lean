import Checkpoint.Image.Xattr

/-! # Inodes

The records of the `INODE` section: files, directories and symbolic links, with their blocks,
quotas, access control lists and extended attributes. -/
namespace Checkpoint

structure Block where
  id : Int
  genStamp : Int
  numBytes : Int

/-- Who is writing a file that has not been closed yet. -/
structure Lease where
  clientName : String
  clientMachine : String

structure TypeQuota where
  storage : Int
  quota : Int

structure FileInode where
  replication : Int
  modificationTime : Int
  accessTime : Int
  preferredBlockSize : Int
  permission : Permission
  blocks : List Block
  lease : Option Lease
  acl : List AclEntry
  xattrs : Option (List Xattr)
  storagePolicy : Option Int
  isStriped : Bool

structure DirectoryInode where
  modificationTime : Int
  nameQuota : Option Int
  spaceQuota : Option Int
  permission : Permission
  acl : List AclEntry
  xattrs : Option (List Xattr)
  typeQuotas : List TypeQuota

structure SymlinkInode where
  permission : Permission
  target : Bytes
  modificationTime : Int
  accessTime : Int

inductive InodeContent where
  | file (f : FileInode)
  | directory (d : DirectoryInode)
  | symlink (l : SymlinkInode)
  /-- Nothing is said about the inode beyond its name. -/
  | bare

structure Inode where
  kind : Int
  id : Int
  name : Bytes
  content : InodeContent

namespace Block

def schema : Schema where
  name := "BlockProto"
  fields := [
    { number := 1, name := "blockId", kind := .int64 },
    { number := 2, name := "genStamp", kind := .int64 },
    { number := 3, name := "numBytes", kind := .int64 }]

def ofRecord (r : Record) : Block := ⟨r.int 1, r.int 2, r.int 3⟩

end Block

namespace Lease

def schema : Schema where
  name := "FileUnderConstructionFeature"
  fields := [
    { number := 1, name := "clientName", kind := .string },
    { number := 2, name := "clientMachine", kind := .string }]

def ofRecord (r : Record) : Lease := ⟨r.text 1, r.text 2⟩

end Lease

namespace TypeQuota

def schema : Schema where
  name := "QuotaByStorageTypeEntryProto"
  fields := [
    { number := 1, name := "storageType", kind := .enum, fallback := 1 },
    { number := 2, name := "quota", kind := .int64 }]

def listSchema : Schema where
  name := "QuotaByStorageTypeFeatureProto"
  fields := [{ number := 1, name := "quotas", kind := .message schema, repeated := true }]

def ofRecord (r : Record) : TypeQuota := ⟨(r.int? 1).getD 1, r.int 2⟩

def listOfRecord (r : Record) : List TypeQuota := (r.records 1).map ofRecord

/-- The name of a type of storage, or its number if it has no name. -/
def storageLabel (storage : Int) : String :=
  match storage with
  | 1 => "DISK"
  | 2 => "SSD"
  | 3 => "ARCHIVE"
  | 4 => "RAM_DISK"
  | 5 => "PROVIDED"
  | 6 => "NVDIMM"
  | _ => toString storage

end TypeQuota

namespace FileInode

def schema : Schema where
  name := "INodeFile"
  fields := [
    { number := 1, name := "replication", kind := .int32 },
    { number := 2, name := "modificationTime", kind := .int64 },
    { number := 3, name := "accessTime", kind := .int64 },
    { number := 4, name := "preferredBlockSize", kind := .int64 },
    { number := 5, name := "permission", kind := .fixed64 },
    { number := 6, name := "blocks", kind := .message Block.schema, repeated := true },
    { number := 7, name := "fileUC", kind := .message Lease.schema },
    { number := 8, name := "acl", kind := .message AclEntry.schema },
    { number := 9, name := "xAttrs", kind := .message Xattr.listSchema },
    { number := 10, name := "storagePolicyID", kind := .int32 },
    { number := 11, name := "isStriped", kind := .bool }]

def ofRecord (r : Record) : FileInode where
  replication := r.int 1
  modificationTime := r.int 2
  accessTime := r.int 3
  preferredBlockSize := r.int 4
  permission := .ofWord (r.nat 5)
  blocks := (r.records 6).map Block.ofRecord
  lease := (r.record? 7).map Lease.ofRecord
  acl := ((r.record? 8).map AclEntry.listOfRecord).getD []
  xattrs := (r.record? 9).map Xattr.listOfRecord
  storagePolicy := r.int? 10
  isStriped := r.flag 11

end FileInode

namespace DirectoryInode

def schema : Schema where
  name := "INodeDirectory"
  fields := [
    { number := 1, name := "modificationTime", kind := .int64 },
    { number := 2, name := "nsQuota", kind := .int64 },
    { number := 3, name := "dsQuota", kind := .int64 },
    { number := 4, name := "permission", kind := .fixed64 },
    { number := 5, name := "acl", kind := .message AclEntry.schema },
    { number := 6, name := "xAttrs", kind := .message Xattr.listSchema },
    { number := 7, name := "typeQuotas", kind := .message TypeQuota.listSchema }]

def ofRecord (r : Record) : DirectoryInode where
  modificationTime := r.int 1
  nameQuota := r.int? 2
  spaceQuota := r.int? 3
  permission := .ofWord (r.nat 4)
  acl := ((r.record? 5).map AclEntry.listOfRecord).getD []
  xattrs := (r.record? 6).map Xattr.listOfRecord
  typeQuotas := ((r.record? 7).map TypeQuota.listOfRecord).getD []

end DirectoryInode

namespace SymlinkInode

def schema : Schema where
  name := "INodeSymlink"
  fields := [
    { number := 1, name := "permission", kind := .fixed64 },
    { number := 2, name := "target", kind := .bytes },
    { number := 3, name := "modificationTime", kind := .int64 },
    { number := 4, name := "accessTime", kind := .int64 }]

def ofRecord (r : Record) : SymlinkInode where
  permission := .ofWord (r.nat 1)
  target := r.bytes 2
  modificationTime := r.int 3
  accessTime := r.int 4

end SymlinkInode

/-- What an inode record says beyond the name; if it says several things, the first counts. -/
def InodeContent.ofRecord (r : Record) : InodeContent :=
  match r.record? 4, r.record? 5, r.record? 6 with
  | some f, _, _ => file (.ofRecord f)
  | none, some d, _ => directory (.ofRecord d)
  | none, none, some l => symlink (.ofRecord l)
  | none, none, none => bare

namespace Inode

def schema : Schema where
  name := "INode"
  fields := [
    { number := 1, name := "type", kind := .enum, fallback := 1 },
    { number := 2, name := "id", kind := .int64 },
    { number := 3, name := "name", kind := .bytes },
    { number := 4, name := "file", kind := .message FileInode.schema },
    { number := 5, name := "directory", kind := .message DirectoryInode.schema },
    { number := 6, name := "symlink", kind := .message SymlinkInode.schema }]

/-- The leading record of the section. -/
def headerSchema : Schema where
  name := "INodeSection"
  fields := [
    { number := 1, name := "lastInodeId", kind := .int64 },
    { number := 2, name := "numInodes", kind := .int64 }]

def ofRecord (r : Record) : Inode where
  kind := (r.int? 1).getD 1
  id := r.int 2
  name := r.bytes 3
  content := .ofRecord r

/-- The name of a kind of inode, or its number if it has no name. -/
def kindLabel (kind : Int) : String :=
  match kind with
  | 1 => "FILE"
  | 2 => "DIRECTORY"
  | 3 => "SYMLINK"
  | _ => toString kind

end Inode

end Checkpoint
