import Checkpoint.Proofs.Plans

/-! # Plans of sections

The plan by which the section of each kind is read and written. Sections that go on to their end
have plans for any number of records; a limit beyond the bytes of the stream makes no difference. -/
namespace Checkpoint

/-! ## Inodes read nothing -/

section Quiet

open Transcriber (Silent)

variable (table : StringTable)

theorem Xattr.exists_silent (x : Xattr) : ∃ p, (x.scribe table).Silent p :=
  ⟨_, ((Silent.found ..).bind ((Silent.found ..).bind (.write _))).element "xattr" false⟩

theorem Xattr.exists_silent_list (xattrs : Option (List Xattr)) :
    ∃ p, (scribeList table xattrs).Silent p := by
  cases xattrs with
  | none => exact ⟨_, .write []⟩
  | some xs =>
    have hx : ∀ x ∈ xs, (x.scribe table).Silent (Xattr.exists_silent table x).choose :=
      fun x _ => (Xattr.exists_silent table x).choose_spec
    exact ⟨_, (Silent.forEach hx).element "xattrs" false⟩

theorem AclEntry.exists_silent_list (acl : List AclEntry) :
    ∃ p, (scribeList table acl).Silent p := by
  rw [scribeList]
  split
  · exact ⟨_, .fail _⟩
  · exact ⟨_, .write []⟩
  · exact ⟨_, .write _⟩

theorem InodeContent.exists_silent (strings : Option StringTable) (c : InodeContent) :
    ∃ p, (c.scribe strings).Silent p := by
  cases strings with
  | none => exact ⟨_, c.scribe_silent_none⟩
  | some table =>
    cases c with
    | file f =>
      obtain ⟨p, hx⟩ := Xattr.exists_silent_list table f.xattrs
      obtain ⟨q, ha⟩ := AclEntry.exists_silent_list table f.acl
      exact ⟨_, (Silent.write _).bind ((Silent.found ..).bind (hx.bind (ha.bind (.write _))))⟩
    | directory d =>
      obtain ⟨p, hx⟩ := Xattr.exists_silent_list table d.xattrs
      obtain ⟨q, ha⟩ := AclEntry.exists_silent_list table d.acl
      exact ⟨_, (Silent.write _).bind ((Silent.found ..).bind (hx.bind (ha.bind (.write _))))⟩
    | symlink l => exact ⟨_, (Silent.found ..).bind (.write _)⟩
    | bare => exact ⟨_, .write []⟩

theorem Inode.exists_silent (strings : Option StringTable) (i : Inode) :
    ∃ p, (i.scribe strings).Silent p := by
  obtain ⟨p, hc⟩ := i.content.exists_silent strings
  exact ⟨_, (Silent.write _).bind hc⟩

end Quiet

/-! ## The plans -/

def NameSystem.plan : Plan Markup Nat :=
  (Plan.header schema).bind fun header => .write (ofRecord header).markup (.done 1)

def StringTable.entryPlan (bound : Nat) (r : Record) : Plan (Nat × String) Unit :=
  match entry bound r with
  | .ok listed => .only [listed]
  | .error problem => .fail problem

def StringTable.plan : Plan Markup (Nat × StringTable) :=
  ((Plan.header schema).bind fun header =>
    (Plan.counted entrySchema (header.int 1).toNat
      (entryPlan (header.int 1).toNat)).discard.bind fun _ =>
        .done (header.int 1).toNat).gather counted

section Inodes

variable (strings : Option StringTable)

def Inode.plan : Plan Markup Nat :=
  (Plan.header headerSchema).bind fun header =>
    .element "INodeSection" true
      (.write
        (Markup.number "lastInodeId" (header.int 1) ++ Markup.number "numInodes" (header.int 2))
        (.counted schema (header.int 2) fun r =>
          .quiet (Scribe.element "inode" true ((ofRecord r).scribe strings))))

def Snapshot.planFor (header : SnapshotHeader) : Plan Markup Nat :=
  .element "SnapshotSection" true
    (.write
      (Markup.number "snapshotCounter" header.snapshotCounter ++
        Markup.number "numSnapshots" header.numSnapshots ++
        directoryMarkup header.snapshottableDirs)
      (.counted schema header.numSnapshots fun r => .quiet ((ofRecord r).scribe strings)))

def Snapshot.plan : Plan Markup Nat :=
  (Plan.header SnapshotHeader.schema).bind fun header => planFor strings (.ofRecord header)

end Inodes

def DirectoryDiff.plan (d : DirectoryDiff) : Plan Markup Unit :=
  .element "dirDiff" true
    (.write d.markup (.discard (.counted CreatedEntry.schema d.createdListSize fun r =>
      .only (CreatedEntry.ofRecord r).markup)))

namespace DiffEntry

/-- An entry that belongs neither to a file nor to a directory is refused. -/
def refuse (r : Record) : Option Problem :=
  match (ofRecord r).kind with
  | 1 | 2 => none
  | kind => some (.unknownDiffType kind)

def plan (e : DiffEntry) : Plan Markup Unit :=
  let counts := Markup.number "inodeId" e.inodeId ++ Markup.number "count" e.numDiffs
  match e.kind with
  | 1 => .element "fileDiffEntry" false (.write counts
    (.discard (.counted FileDiff.schema e.numDiffs fun r => .only (FileDiff.ofRecord r).markup)))
  | 2 => .element "dirDiffEntry" false (.write counts
    (.discard (.counted DirectoryDiff.schema e.numDiffs fun r => (DirectoryDiff.ofRecord r).plan)))
  | kind => .fail (.unknownDiffType kind)

end DiffEntry

def DelegationHeader.planFor (header : DelegationHeader) : Plan Markup Nat :=
  (Plan.element "SecretManagerSection" false
    (.write header.markup
      ((Plan.counted DelegationKey.schema (header.numKeys.getD 0) fun r =>
        .only (DelegationKey.ofRecord r).markup).discard.bind fun _ =>
          .discard (.counted DelegationToken.schema (header.numTokens.getD 0) fun r =>
            .only (DelegationToken.ofRecord r).markup)))).bind fun _ =>
    .done ((header.numKeys.getD 0).toNat + (header.numTokens.getD 0).toNat)

def DelegationHeader.plan : Plan Markup Nat :=
  (Plan.header schema).bind fun header => planFor (ofRecord header)

def CacheHeader.planFor (header : CacheHeader) : Plan Markup Nat :=
  (Plan.element "CacheManagerSection" true
    (.write
      (Markup.number "nextDirectiveId" header.nextDirectiveId ++
        Markup.number "numDirectives" header.numDirectives ++
        Markup.number "numPools" header.numPools)
      ((Plan.counted CachePool.schema header.numPools fun r =>
        .only (CachePool.ofRecord r).markup).discard.bind fun _ =>
          .discard (.counted CacheDirective.schema header.numDirectives fun r =>
            .only (CacheDirective.ofRecord r).markup)))).bind fun _ =>
    .done (header.numPools.toNat + header.numDirectives.toNat)

def CacheHeader.plan : Plan Markup Nat :=
  (Plan.header schema).bind fun header => planFor (ofRecord header)

/-- The plan of a section that goes on to its end. -/
def Plan.openSection (tag : String) (newline : Bool) (schema : Schema)
    (refuse : Record → Option Problem) (body : Record → Plan Markup Unit) (limit : Nat) :
    Plan Markup Nat :=
  .element tag newline (.untilEndInto schema refuse body limit 0)

namespace SectionKind

/-- The plan of a section of a kind, for at most `limit` records where it goes on to its end. -/
def plan (kind : SectionKind) (strings : Option StringTable) (limit : Nat) :
    Plan Markup (Nat × Option StringTable) :=
  let keep (plan : Plan Markup Nat) : Plan Markup (Nat × Option StringTable) :=
    plan.bind fun count => .done (count, strings)
  let each (tag : String) (newline : Bool) (schema : Schema) (markup : Record → List Markup) :=
    keep (.openSection tag newline schema (fun _ => none) (fun r => .only (markup r)) limit)
  match kind with
  | nsInfo => keep NameSystem.plan
  | stringTable => StringTable.plan.bind fun (size, table) => .done (size, some table)
  | inode => keep (Inode.plan strings)
  | inodeReference =>
    each "INodeReferenceSection" false InodeReference.schema fun r =>
      (InodeReference.ofRecord r).markup
  | inodeDir =>
    each "INodeDirectorySection" true DirectoryLinks.schema fun r =>
      (DirectoryLinks.ofRecord r).markup
  | filesUnderConstruction =>
    each "FileUnderConstructionSection" true OpenFile.schema fun r => (OpenFile.ofRecord r).markup
  | snapshot => keep (Snapshot.plan strings)
  | snapshotDiff =>
    keep (.openSection "SnapshotDiffSection" true DiffEntry.schema DiffEntry.refuse
      (fun r => (DiffEntry.ofRecord r).plan) limit)
  | secretManager => keep DelegationHeader.plan
  | cacheManager => keep CacheHeader.plan

end SectionKind

/-! ## The plans describe the scribes -/

theorem NameSystem.describes_plan : plan.Describes scribe :=
  .bind (.header schema) fun _ => .write_bind _ (.done 1)

theorem StringTable.describes_entryPlan (bound : Nat) (r : Record) :
    (entryPlan bound r).Describes (do
      Transcriber.write [← entry bound r] : Transcriber (Nat × String) Unit) := by
  rw [entryPlan]
  cases entry bound r with
  | ok listed => exact .bind (.done listed) fun _ => .only _
  | error problem => exact fun s => rfl

theorem StringTable.describes_plan : plan.Describes scribe := by
  have he : scribe = Transcriber.gather counted lister := funext run_scribe
  rw [he]
  exact .gather (.bind (.header schema) fun header =>
    .bind (.discard (.counted fun r => describes_entryPlan _ r)) fun _ => .done _) _

section Inodes

variable (strings : Option StringTable)

theorem Inode.describes_plan : (plan strings).Describes (scribeAll strings) := by
  refine .bind (.header headerSchema) fun header => .element (.write_bind _ (.counted fun r => ?_))
  obtain ⟨p, hi⟩ := (ofRecord r).exists_silent strings
  exact .quiet (hi.element "inode" true)

theorem Snapshot.describes_plan : (plan strings).Describes (scribeAll strings) := by
  refine .bind (.header SnapshotHeader.schema) fun header => .element (.write_bind _
    (.counted fun r => ?_))
  obtain ⟨p, hi⟩ := (ofRecord r).root.exists_silent strings
  exact .quiet ((Transcriber.Silent.bind (.write _) (hi.element "root" false)).element "snapshot"
    false)

end Inodes

theorem DirectoryDiff.describes_plan (d : DirectoryDiff) : d.plan.Describes d.scribe :=
  .element (.write_bind _ (.discard (.counted fun _ => .only _)))

namespace DiffEntry

theorem plan_of_unknown {e : DiffEntry} (hf : e.kind ≠ 1) (hd : e.kind ≠ 2) :
    e.plan = .fail (.unknownDiffType e.kind) := by
  rw [plan]
  split
  · contradiction
  · contradiction
  · rfl

theorem describes_plan (e : DiffEntry) : e.plan.Describes e.scribe := by
  by_cases hf : e.kind = 1
  · simp only [plan, scribe, hf]
    exact .element (.write_bind _ (.discard (.counted fun _ => .only _)))
  · by_cases hd : e.kind = 2
    · simp only [plan, scribe, hd]
      exact .element (.write_bind _ (.discard (.counted fun _ => DirectoryDiff.describes_plan _)))
    · rw [plan_of_unknown hf hd, scribe_of_unknown hf hd]
      exact fun s => rfl

theorem scribe_of_refuse {r : Record} {problem : Problem} (h : refuse r = some problem) :
    (ofRecord r).scribe = Transcriber.fail problem := by
  rw [refuse] at h
  split at h
  · cases h
  · cases h
  · rename_i hf hd
    obtain rfl := Option.some.inj h
    exact scribe_of_unknown hf hd

end DiffEntry

theorem DelegationHeader.describes_plan : plan.Describes scribe :=
  .bind (.header schema) fun _ => .bind (.element (.write_bind _
    (.bind (.discard (.counted fun _ => .only _)) fun _ => .discard (.counted fun _ => .only _))))
      fun _ => .done _

theorem CacheHeader.describes_plan : plan.Describes scribe :=
  .bind (.header schema) fun _ => .bind (.element (.write_bind _
    (.bind (.discard (.counted fun _ => .only _)) fun _ => .discard (.counted fun _ => .only _))))
      fun _ => .done _

/-! ## The plans are sound -/

theorem NameSystem.plan_sound : plan.Sound fun _ => False :=
  .need_bind (fun r r' h => by rw [ofRecord_agree h]) fun _ => trivial

theorem StringTable.plan_sound : plan.Sound fun _ => False := by
  refine .gather (.need_bind (fun r r' h => by rw [h.int 1 rfl]) fun header =>
    .bind (.discard (.counted (fun r r' h => ?_) fun r => ?_)) (fun _ => .done _)
      fun _ => False.elim) _
  · rw [entryPlan, entryPlan, entry_agree h]
  · rw [entryPlan]
    split <;> exact trivial

section Inodes

variable (strings : Option StringTable)

theorem Inode.plan_sound : (plan strings).Sound fun _ => False :=
  .need_bind (fun r r' h => by rw [h.int 1 rfl, h.int 2 rfl]) fun _ =>
    .element (.counted (fun r r' h => by rw [ofRecord_agree h]) fun _ => .quiet _ _)
      fun _ => False.elim

theorem Snapshot.plan_sound : (plan strings).Sound fun _ => False :=
  .need_bind (fun r r' h => by rw [SnapshotHeader.ofRecord_agree h]) fun _ =>
    .element (.counted (fun r r' h => by rw [ofRecord_agree h]) fun _ => .quiet _ _)
      fun _ => False.elim

end Inodes

theorem DirectoryDiff.plan_sound (d : DirectoryDiff) : d.plan.Sound fun _ => False :=
  .element (.discard (.counted (fun r r' h => by rw [CreatedEntry.ofRecord_agree h])
    fun _ => .only)) fun _ => False.elim

theorem DiffEntry.plan_sound (e : DiffEntry) : e.plan.Sound fun _ => False := by
  rw [plan]
  split
  · exact .element (.discard (.counted (fun r r' h => by rw [FileDiff.ofRecord_agree h])
      fun _ => .only)) fun _ => False.elim
  · exact .element (.discard (.counted (fun r r' h => by rw [DirectoryDiff.ofRecord_agree h])
      fun _ => DirectoryDiff.plan_sound _)) fun _ => False.elim
  · exact trivial

theorem DelegationHeader.plan_sound : plan.Sound fun _ => False :=
  .need_bind (fun r r' h => by rw [ofRecord_agree h]) fun _ =>
    .bind (.element (.bind
      (.discard (.counted (fun r r' h => by rw [DelegationKey.ofRecord_agree h]) fun _ => .only))
      (fun _ => .discard (.counted (fun r r' h => by rw [DelegationToken.ofRecord_agree h])
        fun _ => .only)) fun _ => False.elim) fun _ => False.elim) (fun _ => .done _)
          fun _ => False.elim

theorem CacheHeader.plan_sound : plan.Sound fun _ => False :=
  .need_bind (fun r r' h => by rw [ofRecord_agree h]) fun _ =>
    .bind (.element (.bind
      (.discard (.counted (fun r r' h => by rw [CachePool.ofRecord_agree h]) fun _ => .only))
      (fun _ => .discard (.counted (fun r r' h => by rw [CacheDirective.ofRecord_agree h])
        fun _ => .only)) fun _ => False.elim) fun _ => False.elim) (fun _ => .done _)
          fun _ => False.elim

/-! ## Sections of every kind -/

section Open

variable {tag : String} {newline : Bool} {schema : Schema} {refuse : Record → Option Problem}
  {body : Record → Plan Markup Unit}

/-- The plan of a section that goes on to its end describes its scribe on streams of fewer bytes
than the limit. -/
theorem Plan.follow_openSection {body' : Record → Scribe Unit}
    (hr : ∀ record problem, refuse record = some problem → body' record = Transcriber.fail problem)
    (hb : ∀ record, (body record).Describes (body' record)) (s : ByteStream) :
    ((openSection tag newline schema refuse body (s.unread.length + 1)).follow s).toTranscript =
      (Scribe.element tag newline (Transcriber.untilEnd schema body')).run s :=
  Describes.element (.untilEndInto hr (fun record _ => hb record) (s.unread.length + 1) 0) s

theorem Plan.follow_openSection_limit {limit limit' : Nat} {s : ByteStream}
    (h : s.unread.length < limit) (h' : s.unread.length < limit') :
    (openSection tag newline schema refuse body limit).follow s =
      (openSection tag newline schema refuse body limit').follow s := by
  have hloop : (untilEndInto schema refuse body limit 0).follow s =
      (untilEndInto schema refuse body limit' 0).follow s := follow_untilEndInto_limit 0 h h'
  simp only [openSection, element, follow, follow_bind, hloop]

theorem Plan.openSection_sound
    (ha : ∀ r r', schema.Agree r r' → body r = body r')
    (hb : ∀ r, (body r).Sound fun _ => False) (limit : Nat) :
    (openSection tag newline schema refuse body limit).Sound Idle :=
  .element (.untilEndInto ha hb limit 0) fun _ h => h.bind fun _ => trivial

end Open

namespace SectionKind

variable (kind : SectionKind) (strings : Option StringTable)

theorem toTranscript_follow_plan (s : ByteStream) :
    ((kind.plan strings (s.unread.length + 1)).follow s).toTranscript =
      (kind.scribe strings).run s := by
  have keep : ∀ {plan : Plan Markup Nat} {scribe : Scribe Nat},
      (plan.follow s).toTranscript = scribe.run s →
        ((plan.bind fun count => .done (count, strings)).follow s).toTranscript =
          (scribe >>= fun count => (pure (count, strings) : Scribe _)).run s :=
    fun h => Plan.Describes.bind_at h fun _ => .done _
  cases kind with
  | nsInfo => exact keep (NameSystem.describes_plan s)
  | stringTable => exact Plan.Describes.bind StringTable.describes_plan (fun _ => .done _) s
  | inode => exact keep (Inode.describes_plan strings s)
  | inodeReference | inodeDir | filesUnderConstruction =>
    refine keep (Plan.follow_openSection ?_ (fun _ => .only _) s)
    exact nofun
  | snapshot => exact keep (Snapshot.describes_plan strings s)
  | snapshotDiff =>
    exact keep (Plan.follow_openSection (fun _ _ => DiffEntry.scribe_of_refuse)
      (fun _ => DiffEntry.describes_plan _) s)
  | secretManager => exact keep (DelegationHeader.describes_plan s)
  | cacheManager => exact keep (CacheHeader.describes_plan s)

theorem follow_plan_limit {limit limit' : Nat} {s : ByteStream} (h : s.unread.length < limit)
    (h' : s.unread.length < limit') :
    (kind.plan strings limit).follow s = (kind.plan strings limit').follow s := by
  cases kind with
  | inodeReference | inodeDir | filesUnderConstruction | snapshotDiff =>
    simp only [plan, Plan.follow_bind, Plan.follow_openSection_limit h h']
  | nsInfo | stringTable | inode | snapshot | secretManager | cacheManager => rfl

theorem plan_sound (limit : Nat) : (kind.plan strings limit).Sound Plan.Idle := by
  have keep : ∀ {plan : Plan Markup Nat}, (plan.Sound fun _ => False) →
      (plan.bind fun count => .done (count, strings)).Sound Plan.Idle :=
    fun h => h.bind (fun _ => .done _) fun _ => False.elim
  have keepOpen : ∀ {plan : Plan Markup Nat}, plan.Sound Plan.Idle →
      (plan.bind fun count => .done (count, strings)).Sound Plan.Idle :=
    fun h => h.bind (fun _ => .done _) fun _ h => h.bind fun _ => trivial
  cases kind with
  | nsInfo => exact keep NameSystem.plan_sound
  | stringTable => exact StringTable.plan_sound.bind (fun _ => .done _) fun _ => False.elim
  | inode => exact keep (Inode.plan_sound strings)
  | inodeReference =>
    exact keepOpen (Plan.openSection_sound
      (fun r r' h => congrArg (fun x => Plan.only x.markup) (InodeReference.ofRecord_agree h))
      (fun _ => .only) limit)
  | inodeDir =>
    exact keepOpen (Plan.openSection_sound
      (fun r r' h => congrArg (fun x => Plan.only x.markup) (DirectoryLinks.ofRecord_agree h))
      (fun _ => .only) limit)
  | filesUnderConstruction =>
    exact keepOpen (Plan.openSection_sound
      (fun r r' h => congrArg (fun x => Plan.only x.markup) (OpenFile.ofRecord_agree h))
      (fun _ => .only) limit)
  | snapshot => exact keep (Snapshot.plan_sound strings)
  | snapshotDiff =>
    exact keepOpen (Plan.openSection_sound
      (fun r r' h => by rw [DiffEntry.ofRecord_agree h]) (fun _ => DiffEntry.plan_sound _) limit)
  | secretManager => exact keep DelegationHeader.plan_sound
  | cacheManager => exact keep CacheHeader.plan_sound

end SectionKind

end Checkpoint
