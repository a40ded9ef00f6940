import Checkpoint.Document.Scribe
import Checkpoint.Image.Inode

/-! # Inodes in the document

Owners, access control lists and attribute names are looked up in the string table while an inode
is written, so writing an inode can fail halfway. -/
namespace Checkpoint

def Block.markup (b : Block) : List Markup :=
  Markup.element "block" true
    (Markup.number "id" b.id ++ Markup.number "genstamp" b.genStamp ++
      Markup.number "numBytes" b.numBytes)

def Lease.markup (l : Lease) : List Markup :=
  Markup.element "file-under-construction" true
    (Markup.field "clientName" l.clientName ++ Markup.field "clientMachine" l.clientMachine)

def TypeQuota.markup (q : TypeQuota) : List Markup :=
  Markup.element "typeQuota" false
    (Markup.field "type" (storageLabel q.storage) ++ Markup.number "quota" q.quota)

/-- Blocks stand in an element of their own, which is left out if there are none. -/
def Block.listMarkup (blocks : List Block) : List Markup :=
  if blocks.isEmpty then [] else Markup.element "blocks" true (blocks.flatMap Block.markup)

def Xattr.scribe (strings : StringTable) (x : Xattr) : Scribe Unit :=
  Scribe.element "xattr" false do
    Scribe.found "ns" ((XattrNamespace.ofWord x.word).map XattrNamespace.label)
    Scribe.found "name" (Xattr.name x.word strings)
    let value := XattrValue.ofBytes x.value
    Transcriber.write (Markup.field value.tag value.shown)

def Xattr.scribeList (strings : StringTable) : Option (List Xattr) → Scribe Unit
  | none => pure ()
  | some xattrs => Scribe.element "xattrs" false (Transcriber.forEach xattrs (scribe strings))

/-- Writes an access control list, unless it is empty; all names are looked up first. -/
def AclEntry.scribeList (strings : StringTable) (acl : List AclEntry) : Scribe Unit :=
  match renderAll acl strings with
  | .error problem => Transcriber.fail (.malformed problem)
  | .ok [] => pure ()
  | .ok texts =>
    Transcriber.write (Markup.element "acls" false (texts.flatMap (Markup.field "acl")))

/-- The string table, which has to be there when a permission is written. -/
def StringTable.need (strings : Option StringTable) : Scribe StringTable :=
  match strings with
  | some table => pure table
  | none => Transcriber.fail .stringTableNotLoaded

def FileInode.scribe (strings : Option StringTable) (f : FileInode) : Scribe Unit := do
  Transcriber.write
    (Markup.number "replication" f.replication ++ Markup.number "mtime" f.modificationTime ++
      Markup.number "atime" f.accessTime ++
      Markup.number "preferredBlockSize" f.preferredBlockSize)
  let table ← StringTable.need strings
  Scribe.found "permission" (f.permission.render table)
  Xattr.scribeList table f.xattrs
  AclEntry.scribeList table f.acl
  Transcriber.write
    (Block.listMarkup f.blocks ++
      Markup.optional Markup.number "storagePolicyId" f.storagePolicy ++
      Markup.flag "isStriped" f.isStriped ++ (f.lease.map Lease.markup).getD [])

/-- Quotas of names and space are written only together. -/
def DirectoryInode.quotaMarkup (d : DirectoryInode) : List Markup :=
  match d.nameQuota, d.spaceQuota with
  | some names, some space => Markup.number "nsquota" names ++ Markup.number "dsquota" space
  | _, _ => []

def DirectoryInode.scribe (strings : Option StringTable) (d : DirectoryInode) : Scribe Unit := do
  Transcriber.write (Markup.number "mtime" d.modificationTime)
  let table ← StringTable.need strings
  Scribe.found "permission" (d.permission.render table)
  Xattr.scribeList table d.xattrs
  AclEntry.scribeList table d.acl
  Transcriber.write (d.quotaMarkup ++ d.typeQuotas.flatMap TypeQuota.markup)

def SymlinkInode.scribe (strings : Option StringTable) (l : SymlinkInode) : Scribe Unit := do
  let table ← StringTable.need strings
  Scribe.found "permission" (l.permission.render table)
  Transcriber.write
    (Markup.field "target" (Utf8.decodeLossy l.target) ++
      Markup.number "mtime" l.modificationTime ++ Markup.number "atime" l.accessTime)

def InodeContent.scribe (strings : Option StringTable) : InodeContent → Scribe Unit
  | file f => f.scribe strings
  | directory d => d.scribe strings
  | symlink l => l.scribe strings
  | bare => pure ()

/-- Writes what is known of an inode, without an element around it. -/
def Inode.scribe (strings : Option StringTable) (i : Inode) : Scribe Unit := do
  Transcriber.write
    (Markup.number "id" i.id ++ Markup.field "type" (kindLabel i.kind) ++
      Markup.field "name" (Utf8.decodeLossy i.name))
  i.content.scribe strings

end Checkpoint
