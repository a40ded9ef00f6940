import Checkpoint.Image.Cache
import Checkpoint.Image.Container
import Checkpoint.Image.Delegation
import Checkpoint.Image.Link
import Checkpoint.Image.NameSystem
import Checkpoint.Image.Snapshot

/-! # Catalog

All record types of an image, by name. -/
namespace Checkpoint.Catalog

/-- Every record type. -/
def schemas : List Schema :=
  [Summary.sectionSchema, Summary.schema, NameSystem.schema, StringTable.schema,
   StringTable.entrySchema, Block.schema, Lease.schema, AclEntry.schema, Xattr.schema,
   Xattr.listSchema, TypeQuota.schema, TypeQuota.listSchema, FileInode.schema,
   DirectoryInode.schema, SymlinkInode.schema, Inode.schema, Inode.headerSchema, OpenFile.schema,
   DirectoryLinks.schema, InodeReference.schema, SnapshotHeader.schema, Snapshot.schema,
   DiffEntry.schema, FileDiff.schema, DirectoryDiff.schema, CreatedEntry.schema,
   DelegationHeader.schema, DelegationKey.schema, DelegationToken.schema, CacheHeader.schema,
   CachePool.schema, Expiration.schema, CacheDirective.schema]

def find? (name : String) : Option Schema := schemas.find? (·.name == name)

end Checkpoint.Catalog
