import Checkpoint.Document.Inode
import Checkpoint.Image.Cache
import Checkpoint.Image.Delegation
import Checkpoint.Image.Link
import Checkpoint.Image.NameSystem
import Checkpoint.Image.SectionTable
import Checkpoint.Image.Snapshot

/-! # Sections in the document

Every kind of section has a scribe that reads its records, writes them as they come and counts
them. Sections either start with a record that declares how many others follow, or go on to the end
of their stream. -/
namespace Checkpoint

def Scribe.header (schema : Schema) : Scribe Record :=
  Transcriber.ofReader (ByteStream.readHeader schema)

namespace NameSystem

def markup (n : NameSystem) : List Markup :=
  Markup.element "NameSection" true
    (Markup.number "namespaceId" n.namespaceId ++ Markup.number "genstampV1" n.genstampV1 ++
      Markup.number "genstampV2" n.genstampV2 ++
      Markup.number "genstampV1Limit" n.genstampV1Limit ++
      Markup.number "lastAllocatedBlockId" n.lastAllocatedBlockId ++
      Markup.number "txid" n.transactionId)

/-- Writes the `NS_INFO` section. -/
def scribe : Scribe Nat := do
  let header ← Scribe.header schema
  Transcriber.write (ofRecord header).markup
  return 1

end NameSystem

/-- Writes the inodes of the `INODE` section. -/
def Inode.scribeAll (strings : Option StringTable) : Scribe Nat := do
  let header ← Scribe.header headerSchema
  Scribe.element "INodeSection" true do
    Transcriber.write
      (Markup.number "lastInodeId" (header.int 1) ++ Markup.number "numInodes" (header.int 2))
    Transcriber.counted schema (header.int 2) fun r =>
      Scribe.element "inode" true ((ofRecord r).scribe strings)

namespace InodeReference

def markup (i : InodeReference) : List Markup :=
  Markup.element "ref" true
    (Markup.number "referredId" i.referredId ++ Markup.field "name" (Utf8.decodeLossy i.name) ++
      Markup.number "dstSnapshotId" i.dstSnapshotId ++
      Markup.number "lastSnapshotId" i.lastSnapshotId)

/-- Writes the references of the `INODE_REFERENCE` section. -/
def scribe : Scribe Nat :=
  Scribe.element "INodeReferenceSection" false
    (Transcriber.untilEnd schema fun r => Transcriber.write (ofRecord r).markup)

end InodeReference

namespace DirectoryLinks

def markup (d : DirectoryLinks) : List Markup :=
  Markup.element "directory" true
    (Markup.number "parent" d.parent ++ d.children.flatMap (Markup.number "child") ++
      d.references.flatMap (Markup.number "refChild"))

/-- Writes the directories of the `INODE_DIR` section. -/
def scribe : Scribe Nat :=
  Scribe.element "INodeDirectorySection" true
    (Transcriber.untilEnd schema fun r => Transcriber.write (ofRecord r).markup)

end DirectoryLinks

namespace OpenFile

def markup (f : OpenFile) : List Markup :=
  Markup.element "inode" true (Markup.number "id" f.inodeId ++ Markup.field "path" f.path)

/-- Writes the open files of the `FILES_UNDERCONSTRUCTION` section. -/
def scribe : Scribe Nat :=
  Scribe.element "FileUnderConstructionSection" true
    (Transcriber.untilEnd schema fun r => Transcriber.write (ofRecord r).markup)

end OpenFile

namespace Snapshot

/-- The directories that snapshots can be taken of, if there are any. -/
def directoryMarkup (dirs : List Int) : List Markup :=
  if dirs.isEmpty then []
  else Markup.element "snapshottableDir" true (dirs.flatMap (Markup.number "dir"))

def scribe (strings : Option StringTable) (s : Snapshot) : Scribe Unit :=
  Scribe.element "snapshot" false do
    Transcriber.write (Markup.number "id" s.id)
    Scribe.element "root" false (s.root.scribe strings)

/-- Writes the snapshots of the `SNAPSHOT` section. -/
def scribeAll (strings : Option StringTable) : Scribe Nat := do
  let header := SnapshotHeader.ofRecord (← Scribe.header SnapshotHeader.schema)
  Scribe.element "SnapshotSection" true do
    Transcriber.write
      (Markup.number "snapshotCounter" header.snapshotCounter ++
        Markup.number "numSnapshots" header.numSnapshots ++
        directoryMarkup header.snapshottableDirs)
    Transcriber.counted schema header.numSnapshots fun r => (ofRecord r).scribe strings

end Snapshot

namespace FileDiff

def markup (f : FileDiff) : List Markup :=
  Markup.element "fileDiff" true
    (Markup.number "snapshotId" f.snapshotId ++ Markup.number "size" f.fileSize ++
      Markup.field "name" (Utf8.decodeLossy f.name))

end FileDiff

namespace CreatedEntry

def markup (c : CreatedEntry) : List Markup :=
  Markup.element "created" true (Markup.field "name" (Utf8.decodeLossy c.name))

end CreatedEntry

namespace DirectoryDiff

/-- What a diff says itself, before the entries of its created list. -/
def markup (d : DirectoryDiff) : List Markup :=
  Markup.number "snapshotId" d.snapshotId ++ Markup.number "childrenSize" d.childrenSize ++
    Markup.flag "isSnapshotRoot" d.isSnapshotRoot ++
    Markup.field "name" (Utf8.decodeLossy d.name) ++
    Markup.number "createdListSize" d.createdListSize ++
    d.deletedInodes.flatMap (Markup.number "deletedInode") ++
    d.deletedReferences.flatMap (Markup.number "deletedInoderef")

/-- Writes a diff and reads its created list, which follows it in the stream. -/
def scribe (d : DirectoryDiff) : Scribe Unit :=
  Scribe.element "dirDiff" true do
    Transcriber.write d.markup
    discard <| Transcriber.counted CreatedEntry.schema d.createdListSize fun r =>
      Transcriber.write (CreatedEntry.ofRecord r).markup

end DirectoryDiff

namespace DiffEntry

def scribe (e : DiffEntry) : Scribe Unit :=
  let counts := Markup.number "inodeId" e.inodeId ++ Markup.number "count" e.numDiffs
  match e.kind with
  | 1 => Scribe.element "fileDiffEntry" false do
    Transcriber.write counts
    discard <| Transcriber.counted FileDiff.schema e.numDiffs fun r =>
      Transcriber.write (FileDiff.ofRecord r).markup
  | 2 => Scribe.element "dirDiffEntry" false do
    Transcriber.write counts
    discard <| Transcriber.counted DirectoryDiff.schema e.numDiffs fun r =>
      (DirectoryDiff.ofRecord r).scribe
  | kind => Transcriber.fail (.unknownDiffType kind)

/-- Writes the groups of the `SNAPSHOT_DIFF` section. -/
def scribeAll : Scribe Nat :=
  Scribe.element "SnapshotDiffSection" true
    (Transcriber.untilEnd schema fun r => (ofRecord r).scribe)

end DiffEntry

namespace DelegationHeader

/-- The elements of the counters that are there. -/
def markup (h : DelegationHeader) : List Markup :=
  Markup.optional Markup.number "currentId" h.currentId ++
    Markup.optional Markup.number "tokenSequenceNumber" h.tokenSequenceNumber ++
    Markup.optional Markup.number "numDelegationKeys" h.numKeys ++
    Markup.optional Markup.number "numTokens" h.numTokens

end DelegationHeader

namespace DelegationKey

def markup (k : DelegationKey) : List Markup :=
  Markup.element "delegationKey" false
    (Markup.optional Markup.number "id" k.id ++
      Markup.optional Markup.field "key" (k.key.map Bytes.hex) ++
      Markup.optional Markup.date "expiry" k.expiryDate)

end DelegationKey

namespace DelegationToken

def markup (t : DelegationToken) : List Markup :=
  Markup.element "token" false
    (Markup.optional Markup.number "version" t.version ++
      Markup.optional Markup.field "owner" t.owner ++
      Markup.optional Markup.field "renewer" t.renewer ++
      Markup.optional Markup.field "realUser" t.realUser ++
      Markup.optional Markup.date "issueDate" t.issueDate ++
      Markup.optional Markup.date "maxDate" t.maxDate ++
      Markup.optional Markup.number "sequenceNumber" t.sequenceNumber ++
      Markup.optional Markup.number "masterKeyId" t.masterKeyId ++
      Markup.optional Markup.date "expiryDate" t.expiryDate)

end DelegationToken

/-- Writes the keys and tokens of the `SECRET_MANAGER` section. -/
def DelegationHeader.scribe : Scribe Nat := do
  let header := ofRecord (← Scribe.header schema)
  let numKeys := header.numKeys.getD 0
  let numTokens := header.numTokens.getD 0
  Scribe.element "SecretManagerSection" false do
    Transcriber.write header.markup
    discard <| Transcriber.counted DelegationKey.schema numKeys fun r =>
      Transcriber.write (DelegationKey.ofRecord r).markup
    discard <| Transcriber.counted DelegationToken.schema numTokens fun r =>
      Transcriber.write (DelegationToken.ofRecord r).markup
  return numKeys.toNat + numTokens.toNat

namespace CachePool

def markup (p : CachePool) : List Markup :=
  Markup.element "pool" true
    (Markup.optional Markup.field "poolName" p.poolName ++
      Markup.optional Markup.field "ownerName" p.ownerName ++
      Markup.optional Markup.field "groupName" p.groupName ++
      Markup.optional Markup.number "mode" p.mode ++
      Markup.optional Markup.number "limit" p.limit ++
      Markup.optional Markup.number "maxRelativeExpiry" p.maxRelativeExpiry)

end CachePool

namespace Expiration

def markup (e : Expiration) : List Markup :=
  Markup.element "expiration" true
    (Markup.optional Markup.number "millis" e.millis ++ Markup.flag "relative" e.isRelative)

end Expiration

namespace CacheDirective

def markup (d : CacheDirective) : List Markup :=
  Markup.element "directive" true
    (Markup.optional Markup.number "id" d.id ++ Markup.optional Markup.field "path" d.path ++
      Markup.optional Markup.number "replication" d.replication ++
      Markup.optional Markup.field "pool" d.pool ++
      (d.expiration.map Expiration.markup).getD [])

end CacheDirective

/-- Writes the pools and directives of the `CACHE_MANAGER` section. -/
def CacheHeader.scribe : Scribe Nat := do
  let header := ofRecord (← Scribe.header schema)
  Scribe.element "CacheManagerSection" true do
    Transcriber.write
      (Markup.number "nextDirectiveId" header.nextDirectiveId ++
        Markup.number "numDirectives" header.numDirectives ++
        Markup.number "numPools" header.numPools)
    discard <| Transcriber.counted CachePool.schema header.numPools fun r =>
      Transcriber.write (CachePool.ofRecord r).markup
    discard <| Transcriber.counted CacheDirective.schema header.numDirectives fun r =>
      Transcriber.write (CacheDirective.ofRecord r).markup
  return header.numPools.toNat + header.numDirectives.toNat

/-- Reads the string table, which is not written; the number of its texts is counted. -/
def StringTable.scribe : Scribe (Nat × StringTable) := fun s =>
  let (outcome, s) := load s
  ⟨[], outcome.map fun table => (table.size, table), s⟩

/-- Reads and writes the section of a kind, with the string table of the sections before it: the
number of records and the string table for the sections after it. -/
def SectionKind.scribe (kind : SectionKind) (strings : Option StringTable) :
    Scribe (Nat × Option StringTable) :=
  let keep (scribe : Scribe Nat) : Scribe (Nat × Option StringTable) := do
    return (← scribe, strings)
  match kind with
  | nsInfo => keep NameSystem.scribe
  | stringTable => do
    let (size, table) ← StringTable.scribe
    return (size, some table)
  | inode => keep (Inode.scribeAll strings)
  | inodeReference => keep InodeReference.scribe
  | inodeDir => keep DirectoryLinks.scribe
  | filesUnderConstruction => keep OpenFile.scribe
  | snapshot => keep (Snapshot.scribeAll strings)
  | snapshotDiff => keep DiffEntry.scribeAll
  | secretManager => keep DelegationHeader.scribe
  | cacheManager => keep CacheHeader.scribe

end Checkpoint
