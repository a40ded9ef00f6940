import Checkpoint.Proofs.Readback

/-! # Nesting

Pieces in which every element that is opened is closed, and pieces in which some elements are still
open. To a plain scanner the former leave the elements that are open as they are, and the latter
only add to them; and open elements can always be closed. -/
namespace Checkpoint

namespace Markup

/-- Whether `tag` can be the tag of an element inside of the document element. -/
def isInner (tag : String) : Bool := Xml.isName tag && tag != "fsimage"

/-- A literal is known by its characters, without decoding it. -/
theorem isInner_chars {tag : String} {c : Char} {rest : List Char}
    (ht : tag = String.ofList (c :: rest))
    (hc : (c.isAlpha && rest.all fun c => c.isAlphanum || c == '-') = true)
    (hn : (c :: rest != ['f', 's', 'i', 'm', 'a', 'g', 'e']) = true) : isInner tag = true := by
  have hf : "fsimage" = String.ofList ['f', 's', 'i', 'm', 'a', 'g', 'e'] := rfl
  rw [isInner, Xml.isName, ht, String.toList_ofList, hf, Bool.and_eq_true, bne_iff_ne]
  exact ⟨hc, fun he => bne_iff_ne.mp hn (String.ofList_injective he)⟩

/-- The tags that elements inside of the document element have. -/
inductive Inner : String → Prop
  | version : Inner "version" | layoutVersion : Inner "layoutVersion"
  | onDiskVersion : Inner "onDiskVersion" | oivRevision : Inner "oivRevision"
  | nameSection : Inner "NameSection" | namespaceId : Inner "namespaceId"
  | genstampV1 : Inner "genstampV1" | genstampV2 : Inner "genstampV2"
  | genstampV1Limit : Inner "genstampV1Limit" | lastAllocatedBlockId : Inner "lastAllocatedBlockId"
  | txid : Inner "txid" | inodeSection : Inner "INodeSection" | lastInodeId : Inner "lastInodeId"
  | numInodes : Inner "numInodes" | inode : Inner "inode" | id : Inner "id" | type : Inner "type"
  | name : Inner "name" | replication : Inner "replication" | mtime : Inner "mtime"
  | atime : Inner "atime" | preferredBlockSize : Inner "preferredBlockSize"
  | permission : Inner "permission" | xattrs : Inner "xattrs" | xattr : Inner "xattr"
  | ns : Inner "ns" | val : Inner "val" | valHex : Inner "valHex" | acls : Inner "acls"
  | acl : Inner "acl" | blocks : Inner "blocks" | block : Inner "block"
  | genstamp : Inner "genstamp" | numBytes : Inner "numBytes"
  | storagePolicyId : Inner "storagePolicyId" | isStriped : Inner "isStriped"
  | fileUnderConstruction : Inner "file-under-construction" | clientName : Inner "clientName"
  | clientMachine : Inner "clientMachine" | nsquota : Inner "nsquota" | dsquota : Inner "dsquota"
  | typeQuota : Inner "typeQuota" | quota : Inner "quota" | target : Inner "target"
  | inodeReferenceSection : Inner "INodeReferenceSection" | ref : Inner "ref"
  | referredId : Inner "referredId" | dstSnapshotId : Inner "dstSnapshotId"
  | lastSnapshotId : Inner "lastSnapshotId" | inodeDirectorySection : Inner "INodeDirectorySection"
  | directory : Inner "directory" | parent : Inner "parent" | child : Inner "child"
  | refChild : Inner "refChild"
  | fileUnderConstructionSection : Inner "FileUnderConstructionSection" | path : Inner "path"
  | snapshotSection : Inner "SnapshotSection" | snapshotCounter : Inner "snapshotCounter"
  | numSnapshots : Inner "numSnapshots" | snapshottableDir : Inner "snapshottableDir"
  | dir : Inner "dir" | snapshot : Inner "snapshot" | root : Inner "root"
  | snapshotDiffSection : Inner "SnapshotDiffSection" | fileDiffEntry : Inner "fileDiffEntry"
  | dirDiffEntry : Inner "dirDiffEntry" | inodeId : Inner "inodeId" | count : Inner "count"
  | fileDiff : Inner "fileDiff" | snapshotId : Inner "snapshotId" | size : Inner "size"
  | dirDiff : Inner "dirDiff" | childrenSize : Inner "childrenSize"
  | isSnapshotRoot : Inner "isSnapshotRoot" | createdListSize : Inner "createdListSize"
  | created : Inner "created" | deletedInode : Inner "deletedInode"
  | deletedInoderef : Inner "deletedInoderef"
  | secretManagerSection : Inner "SecretManagerSection" | currentId : Inner "currentId"
  | tokenSequenceNumber : Inner "tokenSequenceNumber"
  | numDelegationKeys : Inner "numDelegationKeys" | numTokens : Inner "numTokens"
  | delegationKey : Inner "delegationKey" | key : Inner "key" | expiry : Inner "expiry"
  | token : Inner "token" | owner : Inner "owner" | renewer : Inner "renewer"
  | realUser : Inner "realUser" | issueDate : Inner "issueDate" | maxDate : Inner "maxDate"
  | sequenceNumber : Inner "sequenceNumber" | masterKeyId : Inner "masterKeyId"
  | expiryDate : Inner "expiryDate"
  | cacheManagerSection : Inner "CacheManagerSection" | nextDirectiveId : Inner "nextDirectiveId"
  | numDirectives : Inner "numDirectives" | numPools : Inner "numPools" | pool : Inner "pool"
  | poolName : Inner "poolName" | ownerName : Inner "ownerName" | groupName : Inner "groupName"
  | mode : Inner "mode" | limit : Inner "limit" | maxRelativeExpiry : Inner "maxRelativeExpiry"
  | directive : Inner "directive" | expiration : Inner "expiration" | millis : Inner "millis"
  | relative : Inner "relative"

theorem Inner.isInner {tag : String} (h : Inner tag) : isInner tag = true := by
  cases h <;> exact isInner_chars rfl rfl rfl

/-- Every element that is opened is closed. -/
inductive Nested : List Markup → Prop
  | nil : Nested []
  | append {front back} : Nested front → Nested back → Nested (front ++ back)
  | empty {tag} : Inner tag → Nested [.empty tag]
  | field {tag content} : Inner tag → Nested (field tag content)
  | element {tag newline inside} : Inner tag → Nested inside → Nested (element tag newline inside)

/-- The pieces are one element, in which every element that is opened is closed. -/
inductive Single (tag : String) : List Markup → Prop
  | element {newline inside} : Inner tag → Nested inside → Single tag (element tag newline inside)

/-- No element is closed but the innermost one that is open. -/
inductive Open : List Markup → Prop
  | nested {pieces} : Nested pieces → Open pieces
  | append {front back} : Nested front → Open back → Open (front ++ back)
  | opening {tag inside} : Inner tag → Open inside → Open (.opening tag :: inside)

variable {tag content : String} {pieces : List Markup}

theorem Inner.isName (h : Inner tag) : Xml.isName tag = true :=
  (Bool.and_eq_true _ _).mp h.isInner |>.1

theorem Single.nested (h : Single tag pieces) : Nested pieces := by
  cases h with
  | element ht hi => exact .element ht hi

theorem Nested.row (h : Nested pieces) : Row pieces := by
  induction h with
  | nil => exact .nil
  | append _ _ ihf ihb => exact ihf.append ihb
  | empty ht => exact .empty ht.isName .nil
  | field ht => exact .field ht.isName .nil
  | element ht _ ih =>
    exact .opening ht.isName (ih.append (.closing ht.isName .nil))

theorem Open.row (h : Open pieces) : Row pieces := by
  induction h with
  | nested h => exact h.row
  | append hf _ ih => exact hf.row.append ih
  | opening ht _ ih => exact .opening ht.isName ih

theorem Nested.tags (h : Nested pieces) : ∀ tag ∈ pieces.filterMap tag?, Markup.isInner tag = true := by
  induction h with
  | nil => exact fun _ ht => nomatch ht
  | append _ _ ihf ihb =>
    rw [List.filterMap_append]
    exact List.forall_mem_append.mpr ⟨ihf, ihb⟩
  | empty ht => simpa [tag?] using ht.isInner
  | field ht => simpa [tag?, Markup.field] using ht.isInner
  | element ht _ ih =>
    rw [Markup.element, List.filterMap_append]
    refine List.forall_mem_append.mpr ⟨List.forall_mem_cons.mpr ⟨ht.isInner, ih⟩, ?_⟩
    simpa [tag?] using ht.isInner

theorem Open.tags (h : Open pieces) : ∀ tag ∈ pieces.filterMap tag?, Markup.isInner tag = true := by
  induction h with
  | nested h => exact h.tags
  | append hf _ ih =>
    rw [List.filterMap_append]
    exact List.forall_mem_append.mpr ⟨hf.tags, ih⟩
  | opening ht _ ih => exact List.forall_mem_cons.mpr ⟨ht.isInner, ih⟩

theorem nest_tokens_closing (tag : String) (newline : Bool) (stack : List String) :
    Xml.nest (tag :: stack) (tokens (.closing tag newline)) = some stack := by
  cases newline <;> simp [tokens, Xml.nest]

/-- Nested pieces leave the elements that are open as they are. -/
theorem Nested.nest (h : Nested pieces) (stack : List String) :
    Xml.nest stack (pieces.flatMap tokens) = some stack := by
  induction h generalizing stack with
  | nil => rfl
  | append _ _ ihf ihb => rw [List.flatMap_append, Xml.nest_append, ihf, Option.bind_some, ihb]
  | empty _ => simp [tokens, Xml.nest]
  | @field tag content _ =>
    rw [flatMap_tokens_field, tokens]
    split <;> simp [Xml.nest]
  | @element tag newline inside _ _ ih =>
    rw [Markup.element, List.flatMap_append, List.flatMap_cons, Xml.nest_append, tokens,
      List.singleton_append, Xml.nest, ih, Option.bind_some, List.flatMap_singleton,
      nest_tokens_closing]

/-- Open pieces add to the elements that are open. -/
theorem Open.nest (h : Open pieces) : ∃ opened, ∀ stack,
    Xml.nest stack (pieces.flatMap tokens) = some (opened ++ stack) := by
  induction h with
  | nested h => exact ⟨[], h.nest⟩
  | append hf _ ih =>
    obtain ⟨opened, ho⟩ := ih
    refine ⟨opened, fun stack => ?_⟩
    rw [List.flatMap_append, Xml.nest_append, hf.nest, Option.bind_some, ho]
  | @opening tag inside _ _ ih =>
    obtain ⟨opened, ho⟩ := ih
    refine ⟨opened ++ [tag], fun stack => ?_⟩
    rw [List.flatMap_cons, tokens, List.singleton_append, Xml.nest, ho]
    simp

/-- What is open can be closed. -/
theorem Open.complete (h : Open pieces) : ∃ more, Nested (pieces ++ more) := by
  induction h with
  | nested h => exact ⟨[], by rwa [List.append_nil]⟩
  | append hf _ ih =>
    obtain ⟨more, hm⟩ := ih
    exact ⟨more, by rw [List.append_assoc]; exact hf.append hm⟩
  | @opening tag inside ht _ ih =>
    obtain ⟨more, hm⟩ := ih
    refine ⟨more ++ [.closing tag false], ?_⟩
    have he : Nested (element tag false (inside ++ more)) := .element ht hm
    simpa [Markup.element] using he

/-! ## What the parts of a document are made of -/

section Parts

variable {α : Type} {tag : String}

theorem Nested.number {n : Int} (ht : Inner tag) :
    Nested (number tag n) := .field ht

theorem Nested.date {millis : Int} (ht : Inner tag) :
    Nested (date tag millis) := .field ht

theorem Nested.flag {present : Bool} (ht : Inner tag) :
    Nested (flag tag present) := by
  cases present with
  | false => exact .nil
  | true => exact .empty ht

theorem Nested.optional {write : String → α → List Markup} {a : Option α}
    (h : ∀ a, Nested (write tag a)) : Nested (optional write tag a) := by
  cases a with
  | none => exact .nil
  | some a => exact h a

theorem Nested.flatMap {f : α → List Markup} {elements : List α} (h : ∀ a, Nested (f a)) :
    Nested (elements.flatMap f) := by
  induction elements with
  | nil => exact .nil
  | cons a rest ih => exact .append (h a) ih

end Parts

end Markup

end Checkpoint
