import Mathlib.Data.List.Forall2
import Checkpoint.Document.Section
import Checkpoint.Image.Container
import Checkpoint.Proofs.Frame

/-! # The grammar of sections

What the bytes of a section may be, said without reading them: which frames follow one another, and
how many, where an earlier frame says so. Beside it stand the conditions under which the names that
inodes refer to can be looked up. -/
namespace Checkpoint

/-- Each of `xs` is spelled by a part of its own, and the parts one after the other are `bytes`. -/
def Spelled {γ : Type} (spells : γ → Bytes → Prop) (xs : List γ) (bytes : Bytes) : Prop :=
  ∃ parts, List.Forall₂ spells xs parts ∧ parts.flatten = bytes

/-- A frame that is read as `record`, and after it what `tail` allows. -/
def Led (schema : Schema) (record : Record) (tail : Bytes → Prop) (bytes : Bytes) : Prop :=
  ∃ first rest, bytes = first ++ rest ∧ Framed schema record first ∧ tail rest

/-- Whether sections of a kind declare no count and go on to their end. -/
def SectionKind.isOpen : SectionKind → Bool
  | inodeReference | inodeDir | filesUnderConstruction | snapshotDiff => true
  | nsInfo | stringTable | inode | snapshot | secretManager | cacheManager => false

/-- The records of a section that goes on to its end, as they belong together. -/
inductive Group where
  | reference (record : Record)
  | links (record : Record)
  | openFile (record : Record)
  | fileDiffs (entry : Record) (diffs : List Record)
  /-- Every diff comes with its created list. -/
  | directoryDiffs (entry : Record) (diffs : List (Record × List Record))

namespace Group

/-- The kind of section in which a group stands. -/
def kind : Group → SectionKind
  | reference _ => .inodeReference
  | links _ => .inodeDir
  | openFile _ => .filesUnderConstruction
  | fileDiffs _ _ | directoryDiffs _ _ => .snapshotDiff

/-- A diff of a directory, and as many created children as it declares. -/
def SpellsDiff (diff : Record × List Record) : Bytes → Prop :=
  Led DirectoryDiff.schema diff.1 fun rest =>
    diff.2.length = (DirectoryDiff.ofRecord diff.1).createdListSize.toNat ∧
      Spelled (Framed CreatedEntry.schema) diff.2 rest

/-- The frames of a group; an entry is followed by as many diffs as it declares. -/
def Spells : Group → Bytes → Prop
  | reference record => Framed InodeReference.schema record
  | links record => Framed DirectoryLinks.schema record
  | openFile record => Framed OpenFile.schema record
  | fileDiffs entry diffs => Led DiffEntry.schema entry fun rest =>
      (DiffEntry.ofRecord entry).kind = 1 ∧
        diffs.length = (DiffEntry.ofRecord entry).numDiffs.toNat ∧
          Spelled (Framed FileDiff.schema) diffs rest
  | directoryDiffs entry diffs => Led DiffEntry.schema entry fun rest =>
      (DiffEntry.ofRecord entry).kind = 2 ∧
        diffs.length = (DiffEntry.ofRecord entry).numDiffs.toNat ∧ Spelled SpellsDiff diffs rest

end Group

/-- The records of a section. -/
inductive SectionContent where
  | nsInfo (header : Record)
  | stringTable (header : Record) (entries : List Record)
  | inode (header : Record) (inodes : List Record)
  | snapshot (header : Record) (snapshots : List Record)
  | secretManager (header : Record) (keys tokens : List Record)
  | cacheManager (header : Record) (pools directives : List Record)
  /-- What a section holds that declares no count. -/
  | groups (kind : SectionKind) (members : List Group)

namespace SectionContent

/-- The kind of section that holds a content. -/
def kind : SectionContent → SectionKind
  | nsInfo _ => .nsInfo
  | stringTable _ _ => .stringTable
  | inode _ _ => .inode
  | snapshot _ _ => .snapshot
  | secretManager _ _ _ => .secretManager
  | cacheManager _ _ _ => .cacheManager
  | groups kind _ => kind

/-- The frames of a content; a header is followed by as many records as it declares. -/
def Spells : SectionContent → Bytes → Prop
  | nsInfo header => Framed NameSystem.schema header
  | stringTable header entries => Led StringTable.schema header fun rest =>
      entries.length = (header.int 1).toNat ∧
        (∀ entry ∈ entries, 0 ≤ entry.int 1 ∧ entry.int 1 ≤ (header.int 1).toNat) ∧
          Spelled (Framed StringTable.entrySchema) entries rest
  | inode header inodes => Led Inode.headerSchema header fun rest =>
      inodes.length = (header.int 2).toNat ∧ Spelled (Framed Inode.schema) inodes rest
  | snapshot header snapshots => Led SnapshotHeader.schema header fun rest =>
      snapshots.length = (SnapshotHeader.ofRecord header).numSnapshots.toNat ∧
        Spelled (Framed Snapshot.schema) snapshots rest
  | secretManager header keys tokens => Led DelegationHeader.schema header fun rest =>
      keys.length = (header.int 3).toNat ∧ tokens.length = (header.int 4).toNat ∧
        ∃ first second, rest = first ++ second ∧ Spelled (Framed DelegationKey.schema) keys first ∧
          Spelled (Framed DelegationToken.schema) tokens second
  | cacheManager header pools directives => Led CacheHeader.schema header fun rest =>
      pools.length = (CacheHeader.ofRecord header).numPools.toNat ∧
        directives.length = (CacheHeader.ofRecord header).numDirectives.toNat ∧
          ∃ first second, rest = first ++ second ∧ Spelled (Framed CachePool.schema) pools first ∧
            Spelled (Framed CacheDirective.schema) directives second
  | groups kind members => fun bytes =>
      kind.isOpen ∧ (∀ group ∈ members, group.kind = kind) ∧ Spelled Group.Spells members bytes

/-- The inodes in a content, for which names are looked up. -/
def inodes : SectionContent → List Inode
  | inode _ inodes => inodes.map Inode.ofRecord
  | snapshot _ snapshots => snapshots.map fun record => (Snapshot.ofRecord record).root
  | _ => []

end SectionContent

/-- Which identifiers a string table knows. -/
structure NameTable where
  /-- The largest identifier that may be looked up. -/
  bound : Nat
  /-- The identifiers that have a text. -/
  assigned : List Nat

namespace NameTable

/-- What the records of a string table section make known. -/
def ofRecords (header : Record) (entries : List Record) : NameTable where
  bound := (header.int 1).toNat
  assigned := entries.map fun entry => (entry.int 1).toNat

end NameTable

/-- The owner and the group can be looked up, if only to find that they have no text. -/
def Permission.Resolves (names : NameTable) (p : Permission) : Prop :=
  p.userId ≤ names.bound ∧ p.groupId ≤ names.bound

/-- The name can be looked up, if only to find that it has no text. -/
def AclEntry.Resolves (names : NameTable) (e : AclEntry) : Prop := e.nameId ≤ names.bound

/-- There is such a namespace, and the name has a text. -/
def Xattr.Resolves (names : NameTable) (x : Xattr) : Prop :=
  bitField x.word 30 2 + 4 * bitField x.word 5 1 ≤ 4 ∧ nameId x.word ≤ names.bound ∧
    nameId x.word ∈ names.assigned

/-- Every name that is looked up for an inode is found. -/
def InodeContent.Resolves (names : NameTable) : InodeContent → Prop
  | file f => f.permission.Resolves names ∧ (∀ x ∈ f.xattrs.getD [], x.Resolves names) ∧
      ∀ e ∈ f.acl, e.Resolves names
  | directory d => d.permission.Resolves names ∧ (∀ x ∈ d.xattrs.getD [], x.Resolves names) ∧
      ∀ e ∈ d.acl, e.Resolves names
  | symlink l => l.permission.Resolves names
  | bare => True

/-- An inode that holds something needs a string table, and all its names in it. -/
def Inode.Resolves (names : Option NameTable) (i : Inode) : Prop :=
  i.content = .bare ∨ ∃ table, names = some table ∧ i.content.Resolves table

/-- The bytes of a section in an image. -/
def SectionEntry.stored (entry : SectionEntry) (image : Bytes) : Bytes :=
  Bytes.slice image entry.offset.toNat entry.length.toNat

/-- The section makes `names` known, as a string table. -/
def SectionEntry.MakesKnown (entry : SectionEntry) (image : Bytes) (names : Option NameTable) :
    Prop :=
  ∃ header rows, (SectionContent.stringTable header rows).Spells (entry.stored image) ∧
    names = some (.ofRecords header rows)

/-- What is known of names after string tables: what the last one makes known. -/
def SectionEntry.Known (tables : List SectionEntry) (image : Bytes) (names : Option NameTable) :
    Prop :=
  match tables.getLast? with
  | none => names = none
  | some entry => entry.MakesKnown image names

/-- What is known of names in an image. -/
def Summary.Names (summary : Summary) (image : Bytes) (names : Option NameTable) : Prop :=
  SectionEntry.Known (summary.sections.filter (·.kind == some .stringTable)) image names

/-- The bytes of the section are spelled as sections of its kind are, and the names in it resolve;
nothing is asked of sections of unknown kinds. -/
def SectionEntry.Admitted (entry : SectionEntry) (image : Bytes) (names : Option NameTable) :
    Prop :=
  ∀ kind, entry.kind = some kind → ∃ content : SectionContent, content.kind = kind ∧
    content.Spells (entry.stored image) ∧ ∀ i ∈ content.inodes, i.Resolves names

/-! ## Spelling lists -/

section Spelled

variable {γ : Type} {spells : γ → Bytes → Prop} {x : γ} {xs : List γ} {bytes : Bytes}

@[simp] theorem spelled_nil : Spelled spells [] bytes ↔ bytes = [] := by
  constructor
  · rintro ⟨parts, h, rfl⟩
    rw [List.forall₂_nil_left_iff.mp h]
    rfl
  · rintro rfl
    exact ⟨[], .nil, rfl⟩

theorem spelled_cons : Spelled spells (x :: xs) bytes ↔
    ∃ first rest, bytes = first ++ rest ∧ spells x first ∧ Spelled spells xs rest := by
  constructor
  · rintro ⟨parts, h, rfl⟩
    obtain ⟨first, others, hx, hxs, rfl⟩ := List.forall₂_cons_left_iff.mp h
    exact ⟨first, others.flatten, rfl, hx, others, hxs, rfl⟩
  · rintro ⟨first, rest, rfl, hx, parts, hxs, rfl⟩
    exact ⟨first :: parts, .cons hx hxs, rfl⟩

/-- Conditions on single elements may be put into their spelling. -/
theorem spelled_and {p : γ → Prop} : Spelled (fun x bytes => spells x bytes ∧ p x) xs bytes ↔
    Spelled spells xs bytes ∧ ∀ x ∈ xs, p x := by
  induction xs generalizing bytes with
  | nil => simp
  | cons x xs ih =>
    simp only [spelled_cons, ih, List.forall_mem_cons]
    constructor
    · rintro ⟨first, rest, rfl, ⟨hx, hp⟩, hxs, hps⟩
      exact ⟨⟨first, rest, rfl, hx, hxs⟩, hp, hps⟩
    · rintro ⟨⟨first, rest, rfl, hx, hxs⟩, hp, hps⟩
      exact ⟨first, rest, rfl, ⟨hx, hp⟩, hxs, hps⟩

end Spelled

end Checkpoint
