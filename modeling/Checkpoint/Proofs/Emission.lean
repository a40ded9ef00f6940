import Checkpoint.Proofs.Lister
import Checkpoint.Proofs.Nesting

/-! # What scribes emit

Whatever a stream holds, a scribe that succeeds has closed what it opened. One that fails leaves open
the elements that it was inside of, and nothing has been closed out of turn. -/
namespace Checkpoint

/-- Nested pieces have been written, or the elements that a failure left are open. -/
def Transcript.Balanced {α : Type} (run : Transcript Markup α) : Prop :=
  match run.outcome with
  | .ok _ => Markup.Nested run.written
  | .error _ => Markup.Open run.written

/-- On every stream a scribe closes what it opens, unless it fails. -/
def Emits {α : Type} (t : Scribe α) : Prop := ∀ s, (t.run s).Balanced

open Markup (Inner Nested Open Single)

namespace Emits

variable {α β : Type}

theorem pure (a : α) : Emits (pure a : Scribe α) := fun _ => Nested.nil

theorem write {pieces : List Markup} (h : Nested pieces) : Emits (Transcriber.write pieces) :=
  fun _ => h

theorem fail (problem : Problem) : Emits (Transcriber.fail problem : Scribe α) :=
  fun _ => .nested .nil

theorem bind {first : Scribe α} {next : α → Scribe β} (hf : Emits first)
    (hn : ∀ a, Emits (next a)) : Emits (first >>= next) := by
  intro s
  have hb := hf s
  rcases hr : first.run s with ⟨written, outcome, t⟩
  rw [hr] at hb
  cases outcome with
  | error problem => rwa [Transcriber.run_bind_error hr]
  | ok a =>
    rw [Transcriber.run_bind_ok hr]
    have hm := hn a t
    rcases hs : (next a).run t with ⟨more, outcome, u⟩
    rw [hs] at hm
    cases outcome with
    | error problem => exact Open.append hb hm
    | ok b => exact Nested.append hb hm

theorem element {body : Scribe α} {tag : String} {newline : Bool} (ht : Inner tag)
    (hb : Emits body) : Emits (Scribe.element tag newline body) := by
  intro s
  have h := hb s
  rcases hr : body.run s with ⟨inside, outcome, t⟩
  rw [hr] at h
  cases outcome with
  | error problem =>
    rw [Transcriber.run_element_error hr]
    exact Open.opening ht h
  | ok a =>
    rw [Transcriber.run_element_ok hr]
    exact Nested.element ht h

theorem found {text : Except RecordProblem String} {tag : String} (ht : Inner tag) :
    Emits (Scribe.found tag text) := by
  cases text with
  | ok text => exact .write (.field ht)
  | error problem => exact .fail _

theorem discard {t : Scribe α} (ht : Emits t) : Emits (discard t : Scribe Unit) :=
  .bind ht fun _ => .pure ()

theorem ofReader (reader : Reader α) : Emits (Transcriber.ofReader reader : Scribe α) := by
  intro s
  rw [Transcriber.run_ofReader]
  cases reader s with
  | ok a t => exact Nested.nil
  | error problem t => exact Open.nested .nil

theorem nextRecord (schema : Schema) (missing : Problem) :
    Emits (Transcriber.nextRecord schema missing : Scribe Record) := by
  intro s
  rw [Transcriber.run_nextRecord]
  split
  · exact Nested.nil
  · exact Open.nested .nil
  · exact Open.nested .nil

theorem forEach {elements : List α} {body : α → Scribe Unit} (h : ∀ a, Emits (body a)) :
    Emits (Transcriber.forEach elements body) := by
  induction elements with
  | nil => exact .pure ()
  | cons a rest ih =>
    rw [Transcriber.forEach_cons]
    exact .bind (h a) fun _ => ih

variable {schema : Schema} {body : Record → Scribe Unit}

theorem countedInto (hb : ∀ record, Emits (body record)) {declared : Int} (left found : Nat) :
    Emits (Transcriber.countedInto schema declared body left found []) := by
  induction left generalizing found with
  | zero => exact .pure found
  | succ left ih =>
    rw [Transcriber.countedInto_succ]
    exact .bind (.nextRecord _ _) fun record => .bind (hb record) fun _ => ih (found + 1)

theorem counted (hb : ∀ record, Emits (body record)) {declared : Int} :
    Emits (Transcriber.counted schema declared body) :=
  countedInto hb _ 0

theorem untilEndInto (hb : ∀ record, Emits (body record)) (limit found : Nat) :
    Emits (Transcriber.untilEndInto schema body limit found []) := by
  induction limit generalizing found with
  | zero => exact .pure found
  | succ limit ih =>
    rw [Transcriber.untilEndInto_succ]
    refine .bind (.ofReader _) fun next => ?_
    cases next with
    | none => exact .pure found
    | some record => exact .bind (hb record) fun _ => ih (found + 1)

theorem untilEnd (hb : ∀ record, Emits (body record)) :
    Emits (Transcriber.untilEnd schema body) :=
  fun s => untilEndInto hb (s.unread.length + 1) 0 s

end Emits

/-! ## Inodes -/

section Inode

variable {strings : Option StringTable} {table : StringTable}

theorem Lease.nested (l : Lease) : Nested l.markup :=
  .element .fileUnderConstruction (.append (.field .clientName) (.field .clientMachine))

theorem TypeQuota.nested (q : TypeQuota) : Nested q.markup :=
  .element .typeQuota (.append (.field .type) (.number .quota))

theorem Block.nested (b : Block) : Nested b.markup :=
  .element .block (.append (.append (.number .id) (.number .genstamp)) (.number .numBytes))

theorem Block.nested_listMarkup (blocks : List Block) : Nested (Block.listMarkup blocks) := by
  rw [Block.listMarkup]
  split
  · exact .nil
  · exact .element .blocks (.flatMap Block.nested)

theorem XattrValue.inner_tag (value : XattrValue) : Inner value.tag := by
  cases value with
  | text _ => exact .val
  | hex _ => exact .valHex

theorem Xattr.emits (x : Xattr) : Emits (Xattr.scribe table x) :=
  .element .xattr (.bind (.found .ns) fun _ => .bind (.found .name) fun _ =>
    .write (.field (XattrValue.inner_tag _)))

theorem Xattr.emits_scribeList (xattrs : Option (List Xattr)) :
    Emits (Xattr.scribeList table xattrs) := by
  cases xattrs with
  | none => exact .pure ()
  | some xattrs => exact .element .xattrs (.forEach Xattr.emits)

theorem AclEntry.emits_scribeList (acl : List AclEntry) : Emits (AclEntry.scribeList table acl) := by
  rw [AclEntry.scribeList]
  split
  · exact .fail _
  · exact .pure ()
  · exact .write (.element .acls (.flatMap fun _ => .field .acl))

theorem StringTable.emits_need : Emits (StringTable.need strings) := by
  cases strings with
  | none => exact .fail _
  | some table => exact .pure table

theorem FileInode.emits (f : FileInode) : Emits (f.scribe strings) := by
  have hstart : Nested (Markup.number "replication" f.replication ++
      Markup.number "mtime" f.modificationTime ++ Markup.number "atime" f.accessTime ++
      Markup.number "preferredBlockSize" f.preferredBlockSize) :=
    .append (.append (.append (.number .replication) (.number .mtime)) (.number .atime))
      (.number .preferredBlockSize)
  have hlease : Nested ((f.lease.map Lease.markup).getD []) := by
    cases f.lease with
    | none => exact .nil
    | some lease => exact lease.nested
  refine .bind (.write hstart) fun _ => .bind StringTable.emits_need fun table => ?_
  refine .bind (.found .permission) fun _ => .bind (Xattr.emits_scribeList _) fun _ => ?_
  refine .bind (AclEntry.emits_scribeList _) fun _ => .write ?_
  exact .append (.append (.append (Block.nested_listMarkup _)
    (.optional fun _ => .number .storagePolicyId)) (.flag .isStriped)) hlease

theorem DirectoryInode.nested_quotaMarkup (d : DirectoryInode) : Nested d.quotaMarkup := by
  rw [DirectoryInode.quotaMarkup]
  split
  · exact .append (.number .nsquota) (.number .dsquota)
  · exact .nil

theorem DirectoryInode.emits (d : DirectoryInode) : Emits (d.scribe strings) := by
  refine .bind (.write (.number .mtime)) fun _ => .bind StringTable.emits_need fun table => ?_
  refine .bind (.found .permission) fun _ => .bind (Xattr.emits_scribeList _) fun _ => ?_
  refine .bind (AclEntry.emits_scribeList _) fun _ => .write ?_
  exact .append (DirectoryInode.nested_quotaMarkup d) (.flatMap TypeQuota.nested)

theorem SymlinkInode.emits (l : SymlinkInode) : Emits (l.scribe strings) :=
  .bind StringTable.emits_need fun _ => .bind (.found .permission) fun _ =>
    .write (.append (.append (.field .target) (.number .mtime)) (.number .atime))

theorem Inode.emits (i : Inode) : Emits (i.scribe strings) := by
  refine .bind (.write (.append (.append (.number .id) (.field .type)) (.field .name))) fun _ => ?_
  cases i.content with
  | file f => exact f.emits
  | directory d => exact d.emits
  | symlink l => exact l.emits
  | bare => exact .pure ()

end Inode

/-! ## Sections -/

section Section

variable {strings : Option StringTable}

theorem Scribe.emits_header (schema : Schema) : Emits (Scribe.header schema) := .ofReader _

theorem NameSystem.nested (n : NameSystem) : Nested n.markup := by
  refine .element .nameSection (.append (.append (.append (.append (.append ?_ ?_) ?_) ?_) ?_) ?_)
  · exact .number .namespaceId
  · exact .number .genstampV1
  · exact .number .genstampV2
  · exact .number .genstampV1Limit
  · exact .number .lastAllocatedBlockId
  · exact .number .txid

theorem NameSystem.emits : Emits NameSystem.scribe :=
  .bind (Scribe.emits_header _) fun _ => .bind (.write (NameSystem.nested _)) fun _ => .pure 1

theorem Inode.emits_scribeAll : Emits (Inode.scribeAll strings) := by
  refine .bind (Scribe.emits_header _) fun header => .element .inodeSection ?_
  refine .bind (.write (.append (.number .lastInodeId) (.number .numInodes))) fun _ => ?_
  exact .counted fun _ => .element .inode (Inode.emits _)

theorem InodeReference.single (i : InodeReference) : Single "ref" i.markup :=
  .element .ref (.append (.append (.append (.number .referredId) (.field .name))
    (.number .dstSnapshotId)) (.number .lastSnapshotId))

theorem InodeReference.emits : Emits InodeReference.scribe :=
  .element .inodeReferenceSection (.untilEnd fun _ => .write (InodeReference.single _).nested)

theorem DirectoryLinks.single (d : DirectoryLinks) : Single "directory" d.markup :=
  .element .directory (.append (.append (.number .parent) (.flatMap fun _ => .number .child))
    (.flatMap fun _ => .number .refChild))

theorem DirectoryLinks.emits : Emits DirectoryLinks.scribe :=
  .element .inodeDirectorySection (.untilEnd fun _ => .write (DirectoryLinks.single _).nested)

theorem OpenFile.single (f : OpenFile) : Single "inode" f.markup :=
  .element .inode (.append (.number .id) (.field .path))

theorem OpenFile.emits : Emits OpenFile.scribe :=
  .element .fileUnderConstructionSection (.untilEnd fun _ => .write (OpenFile.single _).nested)

theorem Snapshot.nested_directoryMarkup (dirs : List Int) :
    Nested (Snapshot.directoryMarkup dirs) := by
  rw [Snapshot.directoryMarkup]
  split
  · exact .nil
  · exact .element .snapshottableDir (.flatMap fun _ => .number .dir)

theorem Snapshot.emits (s : Snapshot) : Emits (s.scribe strings) :=
  .element .snapshot (.bind (.write (.number .id)) fun _ => .element .root s.root.emits)

theorem Snapshot.emits_scribeAll : Emits (Snapshot.scribeAll strings) := by
  refine .bind (Scribe.emits_header _) fun header => .element .snapshotSection ?_
  refine .bind (.write ?_) fun _ => .counted fun _ => Snapshot.emits _
  exact .append (.append (.number .snapshotCounter) (.number .numSnapshots))
    (Snapshot.nested_directoryMarkup _)

theorem FileDiff.single (f : FileDiff) : Single "fileDiff" f.markup :=
  .element .fileDiff (.append (.append (.number .snapshotId) (.number .size)) (.field .name))

theorem CreatedEntry.single (c : CreatedEntry) : Single "created" c.markup :=
  .element .created (.field .name)

theorem DirectoryDiff.nested (d : DirectoryDiff) : Nested d.markup := by
  refine .append (.append (.append (.append (.append (.append ?_ ?_) ?_) ?_) ?_) ?_) ?_
  · exact .number .snapshotId
  · exact .number .childrenSize
  · exact .flag .isSnapshotRoot
  · exact .field .name
  · exact .number .createdListSize
  · exact .flatMap fun _ => .number .deletedInode
  · exact .flatMap fun _ => .number .deletedInoderef

theorem DirectoryDiff.emits (d : DirectoryDiff) : Emits d.scribe :=
  .element .dirDiff (.bind (.write d.nested) fun _ =>
    .discard (.counted fun _ => .write (CreatedEntry.single _).nested))

theorem DiffEntry.emits (e : DiffEntry) : Emits e.scribe := by
  have hc : Nested (Markup.number "inodeId" e.inodeId ++ Markup.number "count" e.numDiffs) :=
    .append (.number .inodeId) (.number .count)
  rw [DiffEntry.scribe]
  split
  · refine .element .fileDiffEntry (.bind (.write hc) fun _ => ?_)
    exact .discard (.counted fun _ => .write (FileDiff.single _).nested)
  · refine .element .dirDiffEntry (.bind (.write hc) fun _ => ?_)
    exact .discard (.counted fun _ => DirectoryDiff.emits _)
  · exact .fail _

theorem DiffEntry.emits_scribeAll : Emits DiffEntry.scribeAll :=
  .element .snapshotDiffSection (.untilEnd fun _ => DiffEntry.emits _)

theorem DelegationHeader.nested (h : DelegationHeader) : Nested h.markup := by
  refine .append (.append (.append ?_ ?_) ?_) ?_
  · exact .optional fun _ => .number .currentId
  · exact .optional fun _ => .number .tokenSequenceNumber
  · exact .optional fun _ => .number .numDelegationKeys
  · exact .optional fun _ => .number .numTokens

theorem DelegationKey.single (k : DelegationKey) : Single "delegationKey" k.markup := by
  refine .element .delegationKey (.append (.append ?_ ?_) ?_)
  · exact .optional fun _ => .number .id
  · exact .optional fun _ => .field .key
  · exact .optional fun _ => .date .expiry

theorem DelegationToken.single (t : DelegationToken) : Single "token" t.markup := by
  refine .element .token (.append (.append (.append (.append (.append (.append (.append (.append
    ?_ ?_) ?_) ?_) ?_) ?_) ?_) ?_) ?_)
  · exact .optional fun _ => .number .version
  · exact .optional fun _ => .field .owner
  · exact .optional fun _ => .field .renewer
  · exact .optional fun _ => .field .realUser
  · exact .optional fun _ => .date .issueDate
  · exact .optional fun _ => .date .maxDate
  · exact .optional fun _ => .number .sequenceNumber
  · exact .optional fun _ => .number .masterKeyId
  · exact .optional fun _ => .date .expiryDate

theorem DelegationHeader.emits : Emits DelegationHeader.scribe := by
  refine .bind (Scribe.emits_header _) fun header =>
    .bind (.element .secretManagerSection ?_) fun _ => .pure _
  refine .bind (.write (DelegationHeader.nested _)) fun _ => .bind ?_ fun _ => ?_
  · exact .discard (.counted fun _ => .write (DelegationKey.single _).nested)
  · exact .discard (.counted fun _ => .write (DelegationToken.single _).nested)

theorem CachePool.single (p : CachePool) : Single "pool" p.markup := by
  refine .element .pool (.append (.append (.append (.append (.append ?_ ?_) ?_) ?_) ?_) ?_)
  · exact .optional fun _ => .field .poolName
  · exact .optional fun _ => .field .ownerName
  · exact .optional fun _ => .field .groupName
  · exact .optional fun _ => .number .mode
  · exact .optional fun _ => .number .limit
  · exact .optional fun _ => .number .maxRelativeExpiry

theorem Expiration.nested (e : Expiration) : Nested e.markup :=
  .element .expiration (.append (.optional fun _ => .number .millis) (.flag .relative))

theorem CacheDirective.single (d : CacheDirective) : Single "directive" d.markup := by
  refine .element .directive (.append (.append (.append (.append ?_ ?_) ?_) ?_) ?_)
  · exact .optional fun _ => .number .id
  · exact .optional fun _ => .field .path
  · exact .optional fun _ => .number .replication
  · exact .optional fun _ => .field .pool
  · cases d.expiration with
    | none => exact .nil
    | some e => exact e.nested

theorem CacheHeader.emits : Emits CacheHeader.scribe := by
  refine .bind (Scribe.emits_header _) fun header =>
    .bind (.element .cacheManagerSection ?_) fun _ => .pure _
  refine .bind (.write ?_) fun _ => .bind ?_ fun _ => ?_
  · exact .append (.append (.number .nextDirectiveId) (.number .numDirectives)) (.number .numPools)
  · exact .discard (.counted fun _ => .write (CachePool.single _).nested)
  · exact .discard (.counted fun _ => .write (CacheDirective.single _).nested)

theorem StringTable.emits : Emits StringTable.scribe := by
  intro s
  rw [StringTable.run_scribe]
  cases (StringTable.lister.run s).outcome with
  | error problem => exact Open.nested .nil
  | ok bound => exact Nested.nil

/-- Every section closes what it opens, unless it fails. -/
theorem SectionKind.emits (strings : Option StringTable) (kind : SectionKind) :
    Emits (kind.scribe strings) := by
  have keep : ∀ {t : Scribe Nat}, Emits t →
      Emits (t >>= fun count => (Pure.pure (count, strings) : Scribe _)) :=
    fun ht => .bind ht fun _ => .pure _
  cases kind with
  | nsInfo => exact keep NameSystem.emits
  | stringTable => exact .bind StringTable.emits fun _ => .pure _
  | inode => exact keep Inode.emits_scribeAll
  | inodeReference => exact keep InodeReference.emits
  | inodeDir => exact keep DirectoryLinks.emits
  | filesUnderConstruction => exact keep OpenFile.emits
  | snapshot => exact keep Snapshot.emits_scribeAll
  | snapshotDiff => exact keep DiffEntry.emits_scribeAll
  | secretManager => exact keep DelegationHeader.emits
  | cacheManager => exact keep CacheHeader.emits

end Section

end Checkpoint
