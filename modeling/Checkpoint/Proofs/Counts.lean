import Mathlib.Data.List.Dedup
import Checkpoint.Proofs.Children
import Checkpoint.Proofs.Diffs
import Checkpoint.Proofs.Failures
import Checkpoint.Proofs.WellFormed

/-! # Counts

How many records a section has is said three times: by the header that declares them, by the
elements that are written for them, and by the count that is kept under the name of the section.
Some sections count as they go and others take the count from the header; if a conversion succeeds,
all agree. -/
namespace Checkpoint

open Markup (Nested Single Lacks childrenFrom children)

/-! ## Sections that declare how many records they have -/

/-- The section starts with a header, and has under each tag as many elements as the field of that
number in the header declares; these elements are what is counted. -/
def Declares (schema : Schema) (members : List (String × Nat)) (s : ByteStream)
    (written : List Markup) (count : Nat) : Prop :=
  ∃ header rest, ByteStream.readHeader schema s = .ok header rest ∧
    (∀ member ∈ members, (children written).count member.1 = (header.int member.2).toNat) ∧
    count = Tally.total (members.map fun member => (member.1, (children written).count member.1))

section Headed

variable {schema : Schema} {tag : String} {newline : Bool} {items : Record → List Markup}
  {s u : ByteStream} {written : List Markup} {count : Nat}

theorem Scribe.run_header_eq_ok {α : Type} {next : Record → Scribe α} {a : α}
    (h : (Scribe.header schema >>= next).run s = ⟨written, .ok a, u⟩) :
    ∃ header rest, ByteStream.readHeader schema s = .ok header rest ∧
      (next header).run rest = ⟨written, .ok a, u⟩ := by
  obtain ⟨before, header, mid, after, hf, hn, rfl⟩ := Transcriber.run_bind_eq_ok h
  rw [Scribe.header, Transcriber.run_ofReader] at hf
  split at hf
  · rename_i hread
    cases hf
    exact ⟨header, mid, hread, hn⟩
  · cases hf

/-- The children of an element are what it starts with, and what is written after that. -/
theorem children_of_element {α : Type} {front : List Markup} {body : Scribe α} {tags : List String}
    {a : α} (hi : Nested front) (hb : body.Adds tags)
    (h : (Scribe.element tag newline do
      Transcriber.write front
      body).run s = ⟨written, .ok a, u⟩) :
    children written = childrenFrom 1 front ++ tags ∧
      ∃ after, body.run s = ⟨after, .ok a, u⟩ := by
  obtain ⟨inside, hr, rfl⟩ := Scribe.inside_of_element h
  obtain ⟨hnested, hc⟩ := Scribe.Adds.bind (.write hi) (fun _ => hb) _ _ _ _ hr
  obtain ⟨_, _, _, after, hw, hbody, -⟩ := Transcriber.run_bind_eq_ok hr
  cases hw
  exact ⟨hnested.children_element.trans hc, after, hbody⟩

variable {first second : Schema} {x y : String} {i j : Nat}

/-- A section that has one row of records, as long as its header declares. -/
theorem declares_of_counted {round : Record → Scribe Unit} {declared : Record → Int}
    (hi : ∀ header, Nested (items header)) (hx : ∀ header, Lacks x (items header))
    (hr : ∀ r, (round r).Adds [x]) (hd : ∀ header, declared header = header.int i)
    (h : (do
      let header ← Scribe.header schema
      Scribe.element tag newline do
        Transcriber.write (items header)
        Transcriber.counted first (declared header) round).run s = ⟨written, .ok count, u⟩) :
    Declares schema [(x, i)] s written count := by
  obtain ⟨header, rest, hread, he⟩ := Scribe.run_header_eq_ok h
  obtain ⟨hc, after, hloop⟩ := children_of_element (hi header) (.counted hr) he
  obtain rfl := Transcriber.run_counted_eq_ok hloop
  have hn : (children written).count x = (header.int i).toNat := by
    rw [hc, List.count_append, (hx header).count_childrenFrom, List.count_replicate_self,
      Nat.zero_add, hd]
  exact ⟨header, rest, hread, by simpa using hn, by simp [hn, hd, Tally.total]⟩

/-- A section that has two rows of records, each as long as its header declares. -/
theorem declares_of_pair {front back : Record → List Markup} {left right : Record → Int}
    (hi : ∀ header, Nested (items header)) (hx : ∀ header, Lacks x (items header))
    (hy : ∀ header, Lacks y (items header)) (hxy : x ≠ y)
    (hf : ∀ r, Single x (front r)) (hb : ∀ r, Single y (back r))
    (hl : ∀ header, left header = header.int i) (hr : ∀ header, right header = header.int j)
    (h : (do
      let header ← Scribe.header schema
      Scribe.element tag newline do
        Transcriber.write (items header)
        discard <| Transcriber.counted first (left header) fun r => Transcriber.write (front r)
        discard <| Transcriber.counted second (right header) fun r => Transcriber.write (back r)
      return (left header).toNat + (right header).toNat : Scribe Nat).run s =
        ⟨written, .ok count, u⟩) :
    Declares schema [(x, i), (y, j)] s written count := by
  obtain ⟨header, rest, hread, hn⟩ := Scribe.run_header_eq_ok h
  obtain ⟨during, _, mid, behind, he, hp, hw⟩ := Transcriber.run_bind_eq_ok hn
  cases hp
  obtain rfl : written = during := hw.trans (List.append_nil during)
  have hrows : Scribe.Adds (do
      discard <| Transcriber.counted first (left header) fun r => Transcriber.write (front r)
      discard <| Transcriber.counted second (right header) fun r => Transcriber.write (back r))
      (List.replicate (left header).toNat x ++ List.replicate (right header).toNat y) :=
    .bind (.discard (.counted fun r => .write_single (hf r))) fun _ =>
      .discard (.counted fun r => .write_single (hb r))
  obtain ⟨hc, -⟩ := children_of_element (hi header) hrows he
  have hn : (children written).count x = (header.int i).toNat := by
    rw [hc, List.count_append, (hx header).count_childrenFrom, List.count_append,
      List.count_replicate_self, List.count_replicate, if_neg (by simpa using hxy.symm),
      Nat.zero_add, Nat.add_zero, hl]
  have hm : (children written).count y = (header.int j).toNat := by
    rw [hc, List.count_append, (hy header).count_childrenFrom, List.count_append,
      List.count_replicate_self, List.count_replicate, if_neg (by simpa using hxy),
      Nat.zero_add, Nat.zero_add, hr]
  refine ⟨header, rest, hread, ?_, by simp [hn, hm, hl, hr, Tally.total]⟩
  simp [hn, hm]

end Headed

section Kinds

variable {strings : Option StringTable} {s u : ByteStream} {written : List Markup} {count : Nat}
  {tag : String}

theorem Inode.declares (h : (Inode.scribeAll strings).run s = ⟨written, .ok count, u⟩) :
    Declares Inode.headerSchema [("inode", 2)] s written count :=
  declares_of_counted (fun _ => .append (.number .lastInodeId) (.number .numInodes))
    (fun _ => by simp) (fun _ => .element .inode (Inode.emits _)) (fun _ => rfl) h

theorem Snapshot.lacks_directoryMarkup (hd : "dir" ≠ tag) (hs : "snapshottableDir" ≠ tag)
    (dirs : List Int) : Lacks tag (directoryMarkup dirs) := by
  rw [directoryMarkup]
  split <;> simp [Markup.element, Markup.tag?, hd, hs]

theorem Snapshot.declares (h : (Snapshot.scribeAll strings).run s = ⟨written, .ok count, u⟩) :
    Declares SnapshotHeader.schema [("snapshot", 3)] s written count := by
  refine declares_of_counted (fun _ => .append
      (.append (.number .snapshotCounter) (.number .numSnapshots)) (nested_directoryMarkup _))
    (fun _ => ?_) (fun _ => .element .snapshot ?_) (fun _ => rfl) h
  · simp [lacks_directoryMarkup]
  · exact .bind (.write (.number .id)) fun _ => .element .root (Inode.emits _)

theorem DelegationHeader.declares (h : DelegationHeader.scribe.run s = ⟨written, .ok count, u⟩) :
    Declares schema [("delegationKey", 3), ("token", 4)] s written count :=
  declares_of_pair (fun _ => nested _) (fun _ => by simp [markup, Markup.lacks_optional])
    (fun _ => by simp [markup, Markup.lacks_optional]) (by simp) (fun _ => DelegationKey.single _)
    (fun _ => DelegationToken.single _) (fun _ => rfl) (fun _ => rfl) h

theorem CacheHeader.declares (h : CacheHeader.scribe.run s = ⟨written, .ok count, u⟩) :
    Declares schema [("pool", 2), ("directive", 3)] s written count :=
  declares_of_pair (fun _ => .append
      (.append (.number .nextDirectiveId) (.number .numDirectives)) (.number .numPools))
    (fun _ => by simp) (fun _ => by simp) (by simp) (fun _ => CachePool.single _)
    (fun _ => CacheDirective.single _) (fun _ => rfl) (fun _ => rfl) h

end Kinds

/-! ## The string table -/

/-- A table has as many texts as different identifiers have been put into it. -/
theorem StringTable.size_ofList (bound : Int) (entries : List (Nat × String)) :
    (ofList bound entries).size = (entries.map Prod.fst).dedup.length := by
  have hmem : ∀ id, id ∈ (ofList bound entries).texts.keys ↔ id ∈ (entries.map Prod.fst).dedup := by
    intro id
    rw [Std.TreeMap.mem_keys, List.mem_dedup, ofList, mem_insert_all]
    simp [empty]
  have hperm := (List.perm_ext_iff_of_nodup Std.TreeMap.nodup_keys (List.nodup_dedup _)).mpr hmem
  rw [size, ← Std.TreeMap.length_keys, hperm.length_eq]

/-- A table of entries has as many texts as there are different identifiers among them. -/
theorem StringTable.size_ofList_rows {bound : Nat} {rows : List Record}
    (h : ∀ row ∈ rows, Fits bound row) :
    (ofList bound (rows.map fun row => ((row.int 1).toNat, row.text 2))).size =
      (rows.map fun row => row.int 1).dedup.length := by
  -- identifiers are not negative, so they stay different as natural numbers
  have hcast : (rows.map fun row => row.int 1) =
      (rows.map fun row => (row.int 1).toNat).map Int.ofNat := by
    rw [List.map_map]
    exact List.map_congr_left fun row hr => (Int.toNat_of_nonneg (h row hr).1).symm
  rw [size_ofList, List.map_map, hcast, List.dedup_map_of_injective fun _ _ => Int.ofNat.inj,
    List.length_map]
  rfl

/-- The stream starts with a string table, and what is counted are the different identifiers of its
entries. -/
def StringTable.CountsIds (bytes : Bytes) (count : Nat) : Prop :=
  ∃ header rows taken rest, bytes = taken ++ rest ∧
    (SectionContent.stringTable header rows).Spells taken ∧
    count = (rows.map fun row => row.int 1).dedup.length

theorem StringTable.countsIds {bytes : Bytes} {u : ByteStream} {written : List Markup}
    {count : Nat} {table : StringTable}
    (h : scribe.run ⟨bytes, none⟩ = ⟨written, .ok (count, table), u⟩) : CountsIds bytes count := by
  obtain ⟨listed, bound, hl, rfl, hc⟩ := lister_of_run h
  obtain ⟨rfl, -⟩ := Prod.mk.inj hc
  obtain ⟨taken, rest, rfl, -, ht⟩ := lister_delimited.takes hl
  obtain ⟨header, rows, hrows, rfl, rfl⟩ := takes_lister.mp ht
  have ⟨_, _, _, _, _, hp, _⟩ := hrows
  exact ⟨header, rows, taken, rest, rfl, hrows, size_ofList_rows hp⟩

/-! ## Sections that are made of groups -/

theorem Spelled.exists_spells {γ : Type} {spells : γ → Bytes → Prop} {xs : List γ} {bytes : Bytes}
    (h : Spelled spells xs bytes) {x : γ} (hx : x ∈ xs) : ∃ part, spells x part := by
  obtain ⟨parts, hs, -⟩ := h
  obtain ⟨part, -, hp⟩ := exists_of_forall₂ hs hx
  exact ⟨part, hp⟩

namespace Group

/-- The tag of the element that a group is written as. -/
def tag : Group → String
  | reference _ => "ref"
  | links _ => "directory"
  | openFile _ => "inode"
  | fileDiffs _ _ => "fileDiffEntry"
  | directoryDiffs _ _ => "dirDiffEntry"

theorem fileDiffElement_single (diff : Record) : Single "fileDiff" (fileDiffElement diff) :=
  (FileDiff.ofRecord diff).single

theorem createdElement_single (created : Record) : Single "created" (createdElement created) :=
  (CreatedEntry.ofRecord created).single

theorem directoryDiffElement_single (diff : Record × List Record) :
    Single "dirDiff" (directoryDiffElement diff) :=
  .element .dirDiff (.append (DirectoryDiff.ofRecord diff.1).nested
    (.flatMap fun created => (createdElement_single created).nested))

theorem nested_countMarkup (entry : Record) : Nested (countMarkup entry) :=
  .append (.number .inodeId) (.number .count)

/-- A group is written as one element. -/
theorem single (group : Group) : Single group.tag group.markup := by
  cases group with
  | reference record => exact (InodeReference.ofRecord record).single
  | links record => exact (DirectoryLinks.ofRecord record).single
  | openFile record => exact (OpenFile.ofRecord record).single
  | fileDiffs entry diffs =>
    exact .element .fileDiffEntry (.append (nested_countMarkup entry)
      (.flatMap fun diff => (fileDiffElement_single diff).nested))
  | directoryDiffs entry diffs =>
    exact .element .dirDiffEntry (.append (nested_countMarkup entry)
      (.flatMap fun diff => (directoryDiffElement_single diff).nested))

/-- The diffs in the element of a group are as many as its entry declares, and the created children
of a diff are as many as it declares itself. -/
def DeclaresDiffs : Group → Prop
  | fileDiffs entry diffs =>
    (children (fileDiffs entry diffs).diffElement).count "fileDiff" = (entry.int 3).toNat
  | directoryDiffs entry diffs =>
    (children (directoryDiffs entry diffs).diffElement).count "dirDiff" = (entry.int 3).toNat ∧
      ∀ diff ∈ diffs, (children (directoryDiffElement diff)).count "created" = (diff.1.int 6).toNat
  | reference _ | links _ | openFile _ => True

theorem declaresDiffs {group : Group} {bytes : Bytes} (h : group.Spells bytes) :
    group.DeclaresDiffs := by
  cases group with
  | reference record | links record | openFile record => trivial
  | fileDiffs entry diffs =>
    obtain ⟨_, _, _, _, _, hl, _⟩ := h
    exact (Markup.count_children (nested_countMarkup entry) (by simp [countMarkup])
      fileDiffElement_single).trans hl
  | directoryDiffs entry diffs =>
    obtain ⟨_, _, _, _, _, hl, hs⟩ := h
    refine ⟨(Markup.count_children (nested_countMarkup entry) (by simp [countMarkup])
      directoryDiffElement_single).trans hl, fun diff hd => ?_⟩
    obtain ⟨part, _, _, _, _, hcreated, _⟩ := hs.exists_spells hd
    exact (Markup.count_children (DirectoryDiff.ofRecord diff.1).nested
      (by simp [DirectoryDiff.markup, Markup.lacks_flag]) createdElement_single).trans hcreated

end Group

/-- Groups of diffs are of two sorts, and each is counted under its tag. -/
theorem Group.length_eq_count_add_count {groups : List Group}
    (hk : ∀ group ∈ groups, group.kind = .snapshotDiff) :
    groups.length =
      (groups.map tag).count "fileDiffEntry" + (groups.map tag).count "dirDiffEntry" := by
  have hne : "fileDiffEntry" ≠ "dirDiffEntry" := by simp
  induction groups with
  | nil => rfl
  | cons group groups ih =>
    obtain ⟨hg, hrest⟩ := List.forall_mem_cons.mp hk
    cases group with
    | fileDiffs entry diffs =>
      rw [List.map_cons, tag, List.count_cons_self, List.count_cons_of_ne hne, List.length_cons,
        ih hrest, Nat.add_right_comm]
    | directoryDiffs entry diffs =>
      rw [List.map_cons, tag, List.count_cons_self, List.count_cons_of_ne hne.symm,
        List.length_cons, ih hrest, Nat.add_assoc]
    | reference record | links record | openFile record => cases hg

section Groups

variable {kind : SectionKind} {strings after : Option StringTable} {schema : Schema}
  {body : Record → Scribe Unit} {tag : String} {newline : Bool} {s u : ByteStream}
  {written : List Markup} {count : Nat}

/-- A section that goes on to its end is made of groups, and they are what is counted. -/
theorem SectionKind.groups_of_run
    (hr : Transcriber.Rounds schema body (Group.SpellsIn kind) Group.markup)
    (hs : kind.scribe strings = do
      return (← Scribe.element tag newline (Transcriber.untilEnd schema body), strings))
    (h : (kind.scribe strings).run s = ⟨written, .ok (count, after), u⟩) :
    ∃ groups, (∀ group ∈ groups, group.kind = kind) ∧ Spelled Group.Spells groups s.unread ∧
      written = Markup.element tag newline (groups.flatMap Group.markup) ∧
      count = groups.length ∧ children written = groups.map Group.tag := by
  obtain ⟨-, hrun⟩ := (composed strings kind).regular.ok h
  rw [hs] at hrun
  obtain ⟨he, -⟩ := run_of_keep hrun
  obtain ⟨inside, hu, rfl⟩ := Scribe.inside_of_element he
  obtain ⟨groups, hg, rfl, rfl, -⟩ := hr.spelled_of_untilEnd hu
  obtain ⟨hk, hg⟩ := Group.spelled_spellsIn.mp hg
  refine ⟨groups, hk, hg, rfl, rfl, ?_⟩
  have hn : Nested (groups.flatMap Group.markup) := .flatMap fun group => group.single.nested
  rw [hn.children_element, Markup.childrenFrom_one_flatMap Group.single]

/-- Groups of one sort are counted under the tag of that sort. -/
theorem SectionKind.count_of_run
    (hr : Transcriber.Rounds schema body (Group.SpellsIn kind) Group.markup)
    (hs : kind.scribe strings = do
      return (← Scribe.element tag newline (Transcriber.untilEnd schema body), strings))
    {item : String} (ht : ∀ group : Group, group.kind = kind → group.tag = item)
    (h : (kind.scribe strings).run s = ⟨written, .ok (count, after), u⟩) :
    count = (children written).count item := by
  obtain ⟨groups, hk, -, -, rfl, hc⟩ := groups_of_run hr hs h
  have hall : ∀ other ∈ groups.map Group.tag, item = other := by
    rintro other hm
    obtain ⟨group, hg, rfl⟩ := List.mem_map.mp hm
    exact (ht group (hk group hg)).symm
  rw [hc, List.count_eq_length.mpr hall, List.length_map]

/-- The section is made of groups of diffs. Each has in its element as many diffs, and each of these
as many created children, as is declared for it, and the groups are what is counted. -/
def DiffEntry.CountsGroups (s : ByteStream) (written : List Markup) (count : Nat) : Prop :=
  ∃ groups, (∀ group ∈ groups, group.kind = .snapshotDiff) ∧
    Spelled Group.Spells groups s.unread ∧
    written = Markup.element "SnapshotDiffSection" true (groups.flatMap Group.diffElement) ∧
    (∀ group ∈ groups, group.DeclaresDiffs) ∧
    count =
      (children written).count "fileDiffEntry" + (children written).count "dirDiffEntry"

theorem DiffEntry.countsGroups
    (h : (SectionKind.snapshotDiff.scribe strings).run s = ⟨written, .ok (count, after), u⟩) :
    CountsGroups s written count := by
  obtain ⟨groups, hk, hs, hw, rfl, hc⟩ := SectionKind.groups_of_run rounds rfl h
  refine ⟨groups, hk, hs, by rw [hw, flatMap_markup hk], fun group hg => ?_, ?_⟩
  · obtain ⟨part, hp⟩ := hs.exists_spells hg
    exact Group.declaresDiffs hp
  · rw [hc, Group.length_eq_count_add_count hk]

end Groups

/-! ## All sections -/

/-- What a section declares, what is written of it and what is counted agree. -/
def SectionKind.Counts (kind : SectionKind) (s : ByteStream) (written : List Markup)
    (count : Nat) : Prop :=
  match kind with
  | nsInfo => count = 1
  | stringTable => StringTable.CountsIds s.unread count
  | inode => Declares Inode.headerSchema [("inode", 2)] s written count
  | inodeReference => count = (children written).count "ref"
  | inodeDir => count = (children written).count "directory"
  | filesUnderConstruction => count = (children written).count "inode"
  | snapshot => Declares SnapshotHeader.schema [("snapshot", 3)] s written count
  | snapshotDiff => DiffEntry.CountsGroups s written count
  | secretManager =>
    Declares DelegationHeader.schema [("delegationKey", 3), ("token", 4)] s written count
  | cacheManager => Declares CacheHeader.schema [("pool", 2), ("directive", 3)] s written count

theorem NameSystem.count_of_run {s u : ByteStream} {written : List Markup} {count : Nat}
    (h : scribe.run s = ⟨written, .ok count, u⟩) : count = 1 := by
  obtain ⟨_, _, _, _, -, hn, -⟩ := Transcriber.run_bind_eq_ok h
  obtain ⟨_, _, _, _, -, hp, -⟩ := Transcriber.run_bind_eq_ok hn
  cases hp
  rfl

theorem SectionKind.counts {kind : SectionKind} {strings after : Option StringTable}
    {s u : ByteStream} {written : List Markup} {count : Nat}
    (h : (kind.scribe strings).run s = ⟨written, .ok (count, after), u⟩) :
    kind.Counts s written count := by
  cases kind with
  | nsInfo => exact NameSystem.count_of_run (run_of_keep h).1
  | stringTable =>
    obtain ⟨-, hrun⟩ := (composed strings stringTable).regular.ok h
    obtain ⟨before, ⟨size, table⟩, mid, last, ht, hp, -⟩ := Transcriber.run_bind_eq_ok hrun
    cases hp
    exact StringTable.countsIds ht
  | inode => exact Inode.declares (run_of_keep h).1
  | inodeReference =>
    exact count_of_run Group.reference_rounds rfl (by rintro ⟨⟩ ⟨⟩; rfl) h
  | inodeDir =>
    exact count_of_run Group.links_rounds rfl (by rintro ⟨⟩ ⟨⟩; rfl) h
  | filesUnderConstruction =>
    exact count_of_run Group.openFile_rounds rfl (by rintro ⟨⟩ ⟨⟩; rfl) h
  | snapshot => exact Snapshot.declares (run_of_keep h).1
  | snapshotDiff => exact DiffEntry.countsGroups h
  | secretManager => exact DelegationHeader.declares (run_of_keep h).1
  | cacheManager => exact CacheHeader.declares (run_of_keep h).1

/-! ## All sections of an image -/

/-- A section of a known kind that has been converted: what was written of it, and how many records
were counted. -/
structure Passage where
  entry : SectionEntry
  kind : SectionKind
  written : List Markup
  count : Nat

namespace Passage

/-- What the passage adds to the counts by name. -/
def tallied (p : Passage) : String × Nat := (p.entry.name, p.count)

/-- The passage is of the kind that its entry names, and its counts agree. -/
def Agrees (streamOf : SectionEntry → ByteStream) (p : Passage) : Prop :=
  p.entry.kind = some p.kind ∧ p.kind.Counts (streamOf p.entry) p.written p.count

end Passage

/-- The visit has gone through the sections of known kinds, one passage after the other. -/
structure Visit.MadeOf (visit : Visit) (streamOf : SectionEntry → ByteStream)
    (entries : List SectionEntry) (earlier : List (String × Nat)) (passages : List Passage) :
    Prop where
  entries : passages.map Passage.entry = entries.filter (·.kind.isSome)
  agrees : ∀ p ∈ passages, p.Agrees streamOf
  written : visit.written = passages.flatMap Passage.written
  records : visit.session.records.Holds (earlier ++ passages.map Passage.tallied)

namespace Session

variable {settings : Settings} {streamOf : SectionEntry → ByteStream} {entry : SectionEntry}
  {entries : List SectionEntry} {kind : SectionKind} {session : Session}
  {earlier : List (String × Nat)}

/-- A section that is visited without a failure is written and counted as its scribe says. -/
theorem exists_passage (hk : entry.kind = some kind)
    (h : (session.visitKnown settings streamOf entry kind).failure = none) :
    ∃ p : Passage, p.entry = entry ∧ p.Agrees streamOf ∧
      (session.visitKnown settings streamOf entry kind).written = p.written ∧
      (session.visitKnown settings streamOf entry kind).session.records =
        session.records.add entry.name p.count := by
  rcases hr : (kind.scribe session.strings).run (streamOf entry) with ⟨written, outcome, rest⟩
  cases outcome with
  | error problem =>
    rw [visitKnown_of_error hr, Visit.andThen_of_none rfl] at h
    cases h
  | ok read =>
    obtain ⟨count, after⟩ := read
    rw [visitKnown_of_ok hr, Visit.andThen_of_none rfl] at h ⊢
    have hclose := @close_cases settings entry { session with strings := after } count rest
    rcases hclose with ⟨-, -, -, hs⟩ | ⟨-, problem, -, hc⟩
    · refine ⟨⟨entry, kind, written, count⟩, rfl, ⟨hk, SectionKind.counts hr⟩, ?_, ?_⟩
      · simp [written_close, begun]
      · exact congrArg Session.records hs
    · dsimp only [begun] at h
      rw [hc] at h
      cases h

/-- Sections that are visited without a failure are passed one after the other. -/
theorem exists_passages (hr : session.records.Holds earlier)
    (h : (session.visitEntries settings streamOf entries).failure = none) :
    ∃ passages, (session.visitEntries settings streamOf entries).MadeOf streamOf entries earlier
      passages := by
  -- the counts of the sections before are carried along in `earlier`
  induction entries generalizing session earlier with
  | nil => exact ⟨[], rfl, nofun, rfl, (List.append_nil earlier).symm ▸ hr⟩
  | cons entry entries ih =>
    obtain ⟨hd, hn⟩ := Visit.done_of_andThen h
    rw [visitEntries, Visit.andThen_of_none hd.failure]
    cases hk : entry.kind with
    | none =>
      have he : session.visitEntry settings streamOf entry =
          { session, events := [.skipped entry.name] } := by
        rw [visitEntry, hk]
      rw [he] at hn ⊢
      obtain ⟨passages, hp⟩ := ih hr hn
      refine ⟨passages, ?_, hp.agrees, hp.written, hp.records⟩
      rw [List.filter_cons, hk]
      exact hp.entries
    | some kind =>
      have he : session.visitEntry settings streamOf entry =
          session.visitKnown settings streamOf entry kind := by
        rw [visitEntry, hk]
      have hf := hd.failure
      rw [he] at hn hf ⊢
      obtain ⟨p, rfl, ha, hw, hs⟩ := exists_passage hk hf
      obtain ⟨passages, hp⟩ := ih (hs ▸ hr.add p.entry.name p.count) hn
      refine ⟨p :: passages, ?_, List.forall_mem_cons.mpr ⟨ha, hp.agrees⟩, ?_, ?_⟩
      · rw [List.map_cons, List.filter_cons, hk, hp.entries]
        rfl
      · rw [List.flatMap_cons, ← hp.written, hw]
      · simpa [Passage.tallied] using hp.records

end Session

/-- What is declared, written and counted agrees. A conversion that succeeds has passed through
every section of a known kind, also where there are several of one; of each it has written as many
elements as the section declares, or as there are records in it; and it has counted, under the names
of the sections and no others, what was written for all sections of a name. -/
theorem counts_agree (settings : Settings) (image : Bytes)
    (h : (convert settings image).failure = none) :
    ∃ (summary : Summary) (codec : CodecChoice) (passages : List Passage),
      Summary.read image = .ok summary ∧
      settings.codecs.choose summary.codec = .ok codec ∧
      passages.map Passage.entry =
        (SectionEntry.visitOrder summary.sections).filter (·.kind.isSome) ∧
      (∀ p ∈ passages, p.Agrees (codec.stream image)) ∧
      (convert settings image).written = summary.markup settings.revision ++
        passages.flatMap Passage.written ++ [.closing "fsimage" true] ∧
      (convert settings image).session.records.Holds (passages.map Passage.tallied) := by
  cases hr : Summary.read image with
  | error cause => simp only [convert, Session.visit, hr, reduceCtorEq] at h
  | ok summary =>
    cases hc : settings.codecs.choose summary.codec with
    | error cause => simp only [convert, Session.visit, hr, hc, reduceCtorEq] at h
    | ok codec =>
      rw [convert, Session.visit_of_read {} settings hr hc] at h ⊢
      obtain ⟨hall, -⟩ := Visit.done_of_andThen h
      obtain ⟨hstart, hn⟩ := Visit.done_of_andThen hall.failure
      obtain ⟨passages, hp⟩ := Session.exists_passages .nil hn
      refine ⟨summary, codec, passages, rfl, hc, hp.entries, hp.agrees, ?_, ?_⟩
      · rw [Visit.andThen_of_none hall.failure, Visit.andThen_of_none hstart.failure]
        simp [hp.written]
      · rw [Visit.andThen_of_none hall.failure, Visit.andThen_of_none hstart.failure]
        exact hp.records

/-- A string table, an inode and two rows of children are passed through and counted. -/
theorem counts_agree_smallImage : (convert {} smallImage).failure = none ∧
    ∃ passages : List Passage,
      (passages.map fun p => p.entry.name) = ["STRING_TABLE", "INODE", "INODE_DIR"] ∧
      (∀ p ∈ passages, p.Agrees (CodecChoice.stored.stream smallImage)) ∧
      (convert {} smallImage).session.records.Holds (passages.map Passage.tallied) := by
  have hf : (convert {} smallImage).failure = none := by decide +kernel
  obtain ⟨summary, codec, passages, hr, hc, he, ha, -, hh⟩ := counts_agree {} smallImage hf
  obtain rfl : smallSummary = summary := Except.ok.inj (read_smallImage.symm.trans hr)
  cases hc
  refine ⟨hf, passages, ?_, ha, hh⟩
  have hn := congrArg (List.map SectionEntry.name) he
  rw [List.map_map] at hn
  exact hn.trans (by decide +kernel)

end Checkpoint
