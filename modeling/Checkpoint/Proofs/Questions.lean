import Checkpoint.Proofs.Attributes

/-! # Questions to records

What the sections want to know of a record, asked attribute by attribute. A question is kept with
its answer, so that questions can be put together without a proof about each of them. -/
namespace Checkpoint

/-- A question to the records of a type, and the answer that each of them gives. -/
structure Question (schema : Schema) (α : Type) where
  ask : Record → Except AskFault α
  answer : Record → α
  answered : ∀ {r}, schema.Typed r → ask r = .ok (answer r)

namespace Question

variable {schema inner : Schema} {α : Type} {as? : Value → Option α}

/-- Questions are asked one after the other, and a later one may depend on what has been
answered. -/
instance : Monad (Question schema) where
  pure a := { ask := fun _ => .ok a, answer := fun _ => a, answered := fun _ => rfl }
  bind first next :=
    { ask := fun r => first.ask r >>= fun a => (next a).ask r
      answer := fun r => (next (first.answer r)).answer r
      answered := fun h => by rw [first.answered h]; exact (next _).answered h }

theorem answer_bind {β : Type} (first : Question schema α) (next : α → Question schema β)
    (r : Record) : (first >>= next).answer r = (next (first.answer r)).answer r :=
  rfl

/-- Asks another record in place of the one at hand. -/
def instead (s : Record) (hs : inner.Typed s) (question : Question inner α) :
    Question schema α where
  ask _ := question.ask s
  answer _ := question.answer s
  answered _ := question.answered hs

/-! ## Attributes with one value -/

def one (as? : Value → Option α) (name : String) {field : Field} {a : α}
    (hn : schema.Names name false field) (hk : field.kind.Holds as?)
    (ha : field.fallbackValue.bind as? = some a) : Question schema α where
  ask := schema.askOne as? name
  answer r := ((r.value? field.number).bind as?).getD a
  answered h := h.askOne name hn hk ha

def set (as? : Value → Option α) (name : String) {field : Field}
    (hn : schema.Names name false field) (hk : field.kind.Holds as?) :
    Question schema (Option α) where
  ask := schema.askSet as? name
  answer r := (r.value? field.number).bind as?
  answered h := h.askSet name hn hk

section Value

variable (name : String) {field : Field}

def int {n : Int} (hn : schema.Names name false field := by exact ⟨rfl, rfl, rfl⟩)
    (hk : field.kind.isNumber = true := by rfl)
    (ha : field.fallbackValue.bind Value.int? = some n := by rfl) : Question schema Int :=
  one Value.int? name hn (Kind.holds_int hk) ha

def setInt (hn : schema.Names name false field := by exact ⟨rfl, rfl, rfl⟩)
    (hk : field.kind.isNumber = true := by rfl) : Question schema (Option Int) :=
  set Value.int? name hn (Kind.holds_int hk)

def ints (hn : schema.Names name true field := by exact ⟨rfl, rfl, rfl⟩)
    (hk : field.kind.isNumber = true := by rfl) : Question schema (List Int) where
  ask := schema.askMany Value.int? name
  answer r := r.ints field.number
  answered h := h.askMany name hn (Kind.holds_int hk)

def flag {b : Bool} (hn : schema.Names name false field := by exact ⟨rfl, rfl, rfl⟩)
    (hk : field.kind = .bool := by rfl)
    (ha : field.fallbackValue.bind Value.flag? = some b := by rfl) : Question schema Bool :=
  one Value.flag? name hn (hk ▸ Kind.holds_flag) ha

def text {s : String} (hn : schema.Names name false field := by exact ⟨rfl, rfl, rfl⟩)
    (hk : field.kind = .string := by rfl)
    (ha : field.fallbackValue.bind Value.text? = some s := by rfl) : Question schema String :=
  one Value.text? name hn (hk ▸ Kind.holds_text) ha

def setText (hn : schema.Names name false field := by exact ⟨rfl, rfl, rfl⟩)
    (hk : field.kind = .string := by rfl) : Question schema (Option String) :=
  set Value.text? name hn (hk ▸ Kind.holds_text)

def bytes {b : Bytes} (hn : schema.Names name false field := by exact ⟨rfl, rfl, rfl⟩)
    (hk : field.kind = .bytes := by rfl)
    (ha : field.fallbackValue.bind Value.bytes? = some b := by rfl) : Question schema Bytes :=
  one Value.bytes? name hn (hk ▸ Kind.holds_bytes) ha

def setBytes (hn : schema.Names name false field := by exact ⟨rfl, rfl, rfl⟩)
    (hk : field.kind = .bytes := by rfl) : Question schema (Option Bytes) :=
  set Value.bytes? name hn (hk ▸ Kind.holds_bytes)

/-! ## Records inside -/

/-- Asks the record in an attribute, unless the attribute reads as absent. -/
def within (question : Question inner α)
    (hn : schema.Names name false field := by exact ⟨rfl, rfl, rfl⟩)
    (hk : field.kind = .message inner := by rfl) : Question schema (Option α) where
  ask := schema.askIn question.ask name
  answer r := (r.record? field.number).map question.answer
  answered h := h.askIn name hn hk fun _ => question.answered

/-- Asks the record in an attribute if the field occurs. -/
def setWithin (question : Question inner α)
    (hn : schema.Names name false field := by exact ⟨rfl, rfl, rfl⟩)
    (hk : field.kind = .message inner := by rfl) : Question schema (Option α) where
  ask := schema.askSetIn question.ask name
  answer r := (r.record? field.number).map question.answer
  answered h := h.askSetIn name hn hk fun _ => question.answered

/-- Asks each record of a repeated attribute. -/
def each (question : Question inner α)
    (hn : schema.Names name true field := by exact ⟨rfl, rfl, rfl⟩)
    (hk : field.kind = .message inner := by rfl) : Question schema (List α) where
  ask := schema.askEach question.ask name
  answer r := (r.records field.number).map question.answer
  answered h := h.askEach name hn hk fun _ => question.answered

end Value

end Question

/-! ## Inodes -/

def Block.question : Question schema Block := do
  return { id := ← .int "blockId", genStamp := ← .int "genStamp", numBytes := ← .int "numBytes" }

def Lease.question : Question schema Lease := do
  return { clientName := ← .text "clientName", clientMachine := ← .text "clientMachine" }

def AclEntry.listQuestion : Question schema (List AclEntry) := do
  return (← .ints "entries").map fun word => ofWord word.toNat

def Xattr.question : Question schema Xattr := do
  return { word := (← .int "name").toNat, value := ← .bytes "value" }

def Xattr.listQuestion : Question listSchema (List Xattr) := .each "xAttrs" question

def TypeQuota.question : Question schema TypeQuota := do
  return { storage := ← .int "storageType", quota := ← .int "quota" }

def TypeQuota.listQuestion : Question listSchema (List TypeQuota) := .each "quotas" question

def FileInode.question : Question schema FileInode := do
  return {
    replication := ← .int "replication"
    modificationTime := ← .int "modificationTime"
    accessTime := ← .int "accessTime"
    preferredBlockSize := ← .int "preferredBlockSize"
    permission := .ofWord (← .int "permission").toNat
    blocks := ← .each "blocks" Block.question
    lease := ← .setWithin "fileUC" Lease.question
    acl := (← .within "acl" AclEntry.listQuestion).getD []
    xattrs := ← .setWithin "xAttrs" Xattr.listQuestion
    storagePolicy := ← .setInt "storagePolicyID"
    isStriped := ← .flag "isStriped" }

def DirectoryInode.question : Question schema DirectoryInode := do
  return {
    modificationTime := ← .int "modificationTime"
    nameQuota := ← .setInt "nsQuota"
    spaceQuota := ← .setInt "dsQuota"
    permission := .ofWord (← .int "permission").toNat
    acl := (← .within "acl" AclEntry.listQuestion).getD []
    xattrs := ← .setWithin "xAttrs" Xattr.listQuestion
    typeQuotas := (← .within "typeQuotas" TypeQuota.listQuestion).getD [] }

def SymlinkInode.question : Question schema SymlinkInode := do
  return {
    permission := .ofWord (← .int "permission").toNat
    target := ← .bytes "target"
    modificationTime := ← .int "modificationTime"
    accessTime := ← .int "accessTime" }

/-- Of several records that an inode may hold only the one that counts is asked. -/
def InodeContent.question : Question Inode.schema InodeContent := do
  match ← .setWithin "file" FileInode.question with
  | some f => return file f
  | none =>
    match ← .setWithin "directory" DirectoryInode.question with
    | some d => return directory d
    | none =>
      match ← .setWithin "symlink" SymlinkInode.question with
      | some l => return symlink l
      | none => return bare

def Inode.question : Question schema Inode := do
  return {
    kind := ← .int "type"
    id := ← .int "id"
    name := ← .bytes "name"
    content := ← InodeContent.question }

/-- What is asked of the leading record of the inodes. -/
def Inode.headerQuestion : Question headerSchema (Int × Int) := do
  return (← .int "lastInodeId", ← .int "numInodes")

theorem InodeContent.answer_question : question.answer = ofRecord := by
  funext r
  rw [question, Question.answer_bind, ofRecord]
  dsimp only [Question.setWithin]
  cases r.record? 4 with
  | some f => rfl
  | none =>
    dsimp only [Option.map_none]
    rw [Question.answer_bind]
    dsimp only [Question.setWithin]
    cases r.record? 5 with
    | some d => rfl
    | none =>
      dsimp only [Option.map_none]
      rw [Question.answer_bind]
      dsimp only [Question.setWithin]
      cases r.record? 6 <;> rfl

theorem Inode.answer_question : question.answer = ofRecord := by
  funext r
  exact congrArg (Inode.mk _ _ _) (congrFun InodeContent.answer_question r)

/-! ## Links and snapshots -/

def InodeReference.question : Question schema InodeReference := do
  return {
    referredId := ← .int "referredId"
    name := ← .bytes "name"
    dstSnapshotId := ← .int "dstSnapshotId"
    lastSnapshotId := ← .int "lastSnapshotId" }

def DirectoryLinks.question : Question schema DirectoryLinks := do
  return {
    parent := ← .int "parent"
    children := ← .ints "children"
    references := ← .ints "refChildren" }

def OpenFile.question : Question schema OpenFile := do
  return { inodeId := ← .int "inodeId", path := ← .text "fullPath" }

def SnapshotHeader.question : Question schema SnapshotHeader := do
  return {
    snapshotCounter := ← .int "snapshotCounter"
    snapshottableDirs := ← .ints "snapshottableDir"
    numSnapshots := ← .int "numSnapshots" }

/-- If there is no root, a record about which nothing has been said is asked in its place. -/
def Snapshot.question : Question schema Snapshot := do
  let id ← .int "snapshotId"
  match ← .within "root" Inode.question with
  | some root => return { id, root }
  | none => return { id, root := ← .instead [] (.message nofun nofun) Inode.question }

theorem Snapshot.answer_question : question.answer = ofRecord := by
  funext r
  rw [question, Question.answer_bind, Question.answer_bind, ofRecord]
  dsimp only [Question.within]
  cases r.record? 2 with
  | some root => exact congrArg (Snapshot.mk _) (congrFun Inode.answer_question root)
  | none => exact congrArg (Snapshot.mk _) (congrFun Inode.answer_question [])

def DiffEntry.question : Question schema DiffEntry := do
  return { kind := ← .int "type", inodeId := ← .int "inodeId", numDiffs := ← .int "numOfDiff" }

def FileDiff.question : Question schema FileDiff := do
  return {
    snapshotId := ← .int "snapshotId"
    fileSize := ← .int "fileSize"
    name := ← .bytes "name" }

def DirectoryDiff.question : Question schema DirectoryDiff := do
  return {
    snapshotId := ← .int "snapshotId"
    childrenSize := ← .int "childrenSize"
    isSnapshotRoot := ← .flag "isSnapshotRoot"
    name := ← .bytes "name"
    createdListSize := ← .int "createdListSize"
    deletedInodes := ← .ints "deletedINode"
    deletedReferences := ← .ints "deletedINodeRef" }

def CreatedEntry.question : Question schema CreatedEntry := do
  return { name := ← .bytes "name" }

/-! ## Delegation and cache -/

def DelegationHeader.question : Question schema DelegationHeader := do
  return {
    currentId := ← .setInt "currentId"
    tokenSequenceNumber := ← .setInt "tokenSequenceNumber"
    numKeys := ← .setInt "numKeys"
    numTokens := ← .setInt "numTokens" }

/-- How many keys and tokens follow, which is asked whether or not the fields occur. -/
def DelegationHeader.countQuestion : Question schema (Int × Int) := do
  return (← .int "numKeys", ← .int "numTokens")

def DelegationKey.question : Question schema DelegationKey := do
  return { id := ← .setInt "id", expiryDate := ← .setInt "expiryDate", key := ← .setBytes "key" }

def DelegationToken.question : Question schema DelegationToken := do
  return {
    version := ← .setInt "version"
    owner := ← .setText "owner"
    renewer := ← .setText "renewer"
    realUser := ← .setText "realUser"
    issueDate := ← .setInt "issueDate"
    maxDate := ← .setInt "maxDate"
    sequenceNumber := ← .setInt "sequenceNumber"
    masterKeyId := ← .setInt "masterKeyId"
    expiryDate := ← .setInt "expiryDate" }

def CacheHeader.question : Question schema CacheHeader := do
  return {
    nextDirectiveId := ← .int "nextDirectiveId"
    numPools := ← .int "numPools"
    numDirectives := ← .int "numDirectives" }

def CachePool.question : Question schema CachePool := do
  return {
    poolName := ← .setText "poolName"
    ownerName := ← .setText "ownerName"
    groupName := ← .setText "groupName"
    mode := ← .setInt "mode"
    limit := ← .setInt "limit"
    maxRelativeExpiry := ← .setInt "maxRelativeExpiry" }

def Expiration.question : Question schema Expiration := do
  return { millis := ← .setInt "millis", isRelative := ← .flag "isRelative" }

def CacheDirective.question : Question schema CacheDirective := do
  return {
    id := ← .setInt "id"
    path := ← .setText "path"
    replication := ← .setInt "replication"
    pool := ← .setText "pool"
    expiration := ← .setWithin "expiration" Expiration.question }

/-! ## The container and its first sections -/

def Summary.sectionQuestion : Question sectionSchema SectionEntry := do
  return { name := ← .text "name", offset := ← .int "offset", length := ← .int "length" }

def Summary.question : Question schema Summary := do
  return {
    ondiskVersion := ← .int "ondiskVersion"
    layoutVersion := ← .int "layoutVersion"
    codec := ← .text "codec"
    sections := ← .each "sections" sectionQuestion }

def NameSystem.question : Question schema NameSystem := do
  return {
    namespaceId := ← .int "namespaceId"
    genstampV1 := ← .int "genstampV1"
    genstampV2 := ← .int "genstampV2"
    genstampV1Limit := ← .int "genstampV1Limit"
    lastAllocatedBlockId := ← .int "lastAllocatedBlockId"
    transactionId := ← .int "transactionId" }

def StringTable.entryQuestion : Question entrySchema (Int × String) := do
  return (← .int "id", ← .text "str")

/-! ## All questions -/

/-- What sections take from the records of a type is what the records answer. -/
structure Inquiry where
  {schema : Schema}
  {α : Type}
  question : Question schema α
  taken : Record → α
  answer_eq : question.answer = taken

/-- Everything that is asked of records which stand by themselves in a section or in the summary. -/
def Catalog.inquiries : List Inquiry :=
  [⟨Summary.question, Summary.ofRecord, rfl⟩,
   ⟨NameSystem.question, NameSystem.ofRecord, rfl⟩,
   ⟨(.int "numEntry" : Question StringTable.schema Int), fun r => r.int 1, rfl⟩,
   ⟨StringTable.entryQuestion, fun r => (r.int 1, r.text 2), rfl⟩,
   ⟨Inode.headerQuestion, fun r => (r.int 1, r.int 2), rfl⟩,
   ⟨Inode.question, Inode.ofRecord, Inode.answer_question⟩,
   ⟨InodeReference.question, InodeReference.ofRecord, rfl⟩,
   ⟨DirectoryLinks.question, DirectoryLinks.ofRecord, rfl⟩,
   ⟨OpenFile.question, OpenFile.ofRecord, rfl⟩,
   ⟨SnapshotHeader.question, SnapshotHeader.ofRecord, rfl⟩,
   ⟨Snapshot.question, Snapshot.ofRecord, Snapshot.answer_question⟩,
   ⟨DiffEntry.question, DiffEntry.ofRecord, rfl⟩,
   ⟨FileDiff.question, FileDiff.ofRecord, rfl⟩,
   ⟨DirectoryDiff.question, DirectoryDiff.ofRecord, rfl⟩,
   ⟨CreatedEntry.question, CreatedEntry.ofRecord, rfl⟩,
   ⟨DelegationHeader.question, DelegationHeader.ofRecord, rfl⟩,
   ⟨DelegationHeader.countQuestion, fun r =>
      ((DelegationHeader.ofRecord r).numKeys.getD 0,
        (DelegationHeader.ofRecord r).numTokens.getD 0), rfl⟩,
   ⟨DelegationKey.question, DelegationKey.ofRecord, rfl⟩,
   ⟨DelegationToken.question, DelegationToken.ofRecord, rfl⟩,
   ⟨CacheHeader.question, CacheHeader.ofRecord, rfl⟩,
   ⟨CachePool.question, CachePool.ofRecord, rfl⟩,
   ⟨CacheDirective.question, CacheDirective.ofRecord, rfl⟩]

/-- A record that has been read from a body gives the answer that is taken from it. -/
theorem Inquiry.ask_eq (inquiry : Inquiry) {body : Bytes} {r : Record}
    (h : inquiry.schema.parse body = .ok r) : inquiry.question.ask r = .ok (inquiry.taken r) := by
  rw [inquiry.question.answered (LayoutOf.typed_of_parse h), inquiry.answer_eq]

end Checkpoint
