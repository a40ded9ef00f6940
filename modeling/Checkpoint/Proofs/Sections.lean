import Checkpoint.Proofs.Groups
import Checkpoint.Proofs.Lister

/-! # Sections

Every kind of section is read to its end exactly if its bytes are spelled as the grammar says, and
the names of the inodes in it resolve. Sections that declare how many records they have are read by
delimited scribes; the others are made of rounds, one for each group. -/
namespace Checkpoint

open Transcriber

/-! ## Sections that declare how many records they have -/

variable {names : Option NameTable} {strings : Option StringTable} {bytes : Bytes}

theorem accepts_pure {α : Type} {a : α} : (pure a : Scribe α).Accepts bytes ↔ bytes = [] := by
  constructor
  · rintro ⟨written, b, h⟩
    exact (takes_pure.mp h).1
  · rintro rfl
    exact ⟨[], a, fun rest => rfl⟩

theorem NameSystem.scribe_delimited : NameSystem.scribe.Delimited :=
  .bind (.readHeader _) fun _ => .bind (.write _) fun _ => .pure _

theorem NameSystem.accepts_scribe :
    NameSystem.scribe.Accepts bytes ↔ ∃ header, (SectionContent.nsInfo header).Spells bytes := by
  rw [scribe, accepts_header fun _ => .bind (.write _) fun _ => .pure _]
  simp only [Led, accepts_write_bind (.pure _), accepts_pure, SectionContent.Spells]
  constructor
  · rintro ⟨header, first, rest, rfl, hf, rfl⟩
    exact ⟨header, by simpa using hf⟩
  · rintro ⟨header, hf⟩
    exact ⟨header, bytes, [], by simp, hf, rfl⟩

section Headed

variable {schema : Schema} {tag : String} {newline : Bool} {items : Record → List Markup}
  {count : Record → Nat} {first second : Schema} {declared left right : Record → Int}
  {front back : Record → List Markup}

/-- A section that stands in an element and has as many records as its header declares. -/
theorem delimited_headed {round : Record → Scribe Unit}
    (hr : ∀ record, (round record).Delimited) :
    (do
      let header ← Scribe.header schema
      Scribe.element tag newline do
        Transcriber.write (items header)
        Transcriber.counted first (declared header) round).Delimited :=
  .bind (.readHeader schema) fun _ => .element (.bind (.write _) fun _ => .counted hr)

theorem accepts_headed {round : Record → Scribe Unit} {markup : Record → List Markup}
    {p : Record → Prop}
    (hr : Rounds first round (fun r bytes => Framed first r bytes ∧ p r) markup) :
    (do
      let header ← Scribe.header schema
      Scribe.element tag newline do
        Transcriber.write (items header)
        Transcriber.counted first (declared header) round).Accepts bytes ↔
        ∃ header records, Led schema header (fun rest =>
          records.length = (declared header).toNat ∧ Spelled (Framed first) records rest) bytes ∧
            ∀ r ∈ records, p r := by
  have hc (header : Record) : (Transcriber.counted first (declared header) round).Delimited :=
    .counted hr.delimited
  rw [accepts_header fun header => .element (.bind (.write _) fun _ => hc header)]
  simp only [Led, accepts_element (.bind (.write _) fun _ => hc _), accepts_write_bind (hc _),
    hr.accepts_counted, spelled_and]
  constructor
  · rintro ⟨header, frame, rest, he, hf, records, hl, hs, hp⟩
    exact ⟨header, records, ⟨frame, rest, he, hf, hl, hs⟩, hp⟩
  · rintro ⟨header, records, ⟨frame, rest, he, hf, hl, hs⟩, hp⟩
    exact ⟨header, frame, rest, he, hf, records, hl, hs, hp⟩

/-- A section that has two rows of records, each as long as its header declares. -/
theorem delimited_headed_pair : (do
      let header ← Scribe.header schema
      Scribe.element tag newline do
        Transcriber.write (items header)
        discard <| Transcriber.counted first (left header) fun r => Transcriber.write (front r)
        discard <| Transcriber.counted second (right header) fun r => Transcriber.write (back r)
      return count header : Scribe Nat).Delimited :=
  .bind (.readHeader schema) fun _ => .bind (.element (.bind (.write _) fun _ =>
    .bind (.discard (.counted fun _ => .write _)) fun _ => .discard (.counted fun _ => .write _)))
      fun _ => .pure _

theorem accepts_headed_pair : (do
      let header ← Scribe.header schema
      Scribe.element tag newline do
        Transcriber.write (items header)
        discard <| Transcriber.counted first (left header) fun r => Transcriber.write (front r)
        discard <| Transcriber.counted second (right header) fun r => Transcriber.write (back r)
      return count header : Scribe Nat).Accepts bytes ↔
        ∃ header xs ys, Led schema header (fun rest =>
          xs.length = (left header).toNat ∧ ys.length = (right header).toNat ∧
            ∃ xpart ypart, rest = xpart ++ ypart ∧ Spelled (Framed first) xs xpart ∧
              Spelled (Framed second) ys ypart) bytes := by
  have hleft (header : Record) : (Transcriber.counted first (left header) fun r =>
      Transcriber.write (front r)).Delimited := .counted fun _ => .write _
  have hright (header : Record) : (Transcriber.counted second (right header) fun r =>
      Transcriber.write (back r)).Delimited := .counted fun _ => .write _
  have hrows (header : Record) := Delimited.bind (hleft header).discard fun _ =>
    (hright header).discard
  have hbody (header : Record) := Delimited.bind (.write (items header)) fun _ => hrows header
  rw [accepts_header fun header => .bind (.element (hbody header)) fun _ => .pure _]
  simp only [Led, accepts_bind_pure (.element (hbody _)), accepts_element (hbody _),
    accepts_write_bind (hrows _), accepts_seq (hleft _).discard (hright _).discard,
    accepts_discard (hleft _), accepts_discard (hright _), (Rounds.write _).accepts_counted]
  constructor
  · rintro ⟨header, frame, rest, he, hf, xpart, ypart, hr, ⟨xs, hx, hs⟩, ys, hy, hs'⟩
    exact ⟨header, xs, ys, frame, rest, he, hf, hx, hy, xpart, ypart, hr, hs, hs'⟩
  · rintro ⟨header, xs, ys, frame, rest, he, hf, hx, hy, xpart, ypart, hr, hs, hs'⟩
    exact ⟨header, frame, rest, he, hf, xpart, ypart, hr, ⟨xs, hx, hs⟩, ys, hy, hs'⟩

end Headed

section Inodes

variable (h : NameTable.DescribesAny names strings)
include h

theorem Inode.rounds : Rounds Inode.schema
    (fun r => Scribe.element "inode" true ((Inode.ofRecord r).scribe strings))
    (fun r bytes => Framed Inode.schema r bytes ∧ (Inode.ofRecord r).Resolves names)
    (fun r => (Scribe.element "inode" true ((Inode.ofRecord r).scribe strings)).output) :=
  .silent fun r => ((Inode.ofRecord r).scribe_silent h).element "inode" true

theorem Inode.scribeAll_delimited : (Inode.scribeAll strings).Delimited :=
  delimited_headed (Inode.rounds h).delimited

theorem Inode.accepts_scribeAll : (Inode.scribeAll strings).Accepts bytes ↔
    ∃ header inodes, (SectionContent.inode header inodes).Spells bytes ∧
      ∀ i ∈ inodes.map Inode.ofRecord, i.Resolves names := by
  refine (accepts_headed (Inode.rounds h)).trans ?_
  simp only [SectionContent.Spells, List.forall_mem_map]

theorem Snapshot.rounds : Rounds Snapshot.schema
    (fun r => (Snapshot.ofRecord r).scribe strings)
    (fun r bytes => Framed Snapshot.schema r bytes ∧ (Snapshot.ofRecord r).root.Resolves names)
    (fun r => ((Snapshot.ofRecord r).scribe strings).output) :=
  .silent fun r => (((Silent.write _).bind
    (((Snapshot.ofRecord r).root.scribe_silent h).element "root" false)).element
      "snapshot" false).congr (by simp)

theorem Snapshot.scribeAll_delimited : (Snapshot.scribeAll strings).Delimited :=
  delimited_headed (Snapshot.rounds h).delimited

theorem Snapshot.accepts_scribeAll : (Snapshot.scribeAll strings).Accepts bytes ↔
    ∃ header snapshots, (SectionContent.snapshot header snapshots).Spells bytes ∧
      ∀ i ∈ snapshots.map fun r => (Snapshot.ofRecord r).root, i.Resolves names := by
  refine (accepts_headed (Snapshot.rounds h)).trans ?_
  simp only [SectionContent.Spells, List.forall_mem_map]

end Inodes

theorem DelegationHeader.scribe_delimited : DelegationHeader.scribe.Delimited :=
  delimited_headed_pair

theorem DelegationHeader.accepts_scribe : DelegationHeader.scribe.Accepts bytes ↔
    ∃ header keys tokens, (SectionContent.secretManager header keys tokens).Spells bytes :=
  accepts_headed_pair

theorem CacheHeader.scribe_delimited : CacheHeader.scribe.Delimited :=
  delimited_headed_pair

theorem CacheHeader.accepts_scribe : CacheHeader.scribe.Accepts bytes ↔
    ∃ header pools directives,
      (SectionContent.cacheManager header pools directives).Spells bytes :=
  accepts_headed_pair

/-! ## All sections -/

/-- The string table that is known after a section. -/
def SectionContent.namesAfter (names : Option NameTable) : SectionContent → Option NameTable
  | stringTable header entries => some (.ofRecords header entries)
  | _ => names

namespace SectionKind

/-- The bytes are spelled as sections of the kind are, with names that resolve in `names`, and
`after` is known after them. -/
def Admits (kind : SectionKind) (names after : Option NameTable) (bytes : Bytes) : Prop :=
  ∃ content : SectionContent, content.kind = kind ∧ content.Spells bytes ∧
    (∀ i ∈ content.inodes, i.Resolves names) ∧ after = content.namesAfter names

/-- The section is read to its end, and `strings` is kept for the sections after it. -/
def ReadsTo (kind : SectionKind) (strings after : Option StringTable) (bytes : Bytes) : Prop :=
  ∃ written count, (kind.scribe strings).run ⟨bytes, none⟩ =
    ⟨written, .ok (count, after), ⟨[], none⟩⟩

end SectionKind

section Keep

variable {t : Scribe Nat} {s u : ByteStream} {written : List Markup} {count : Nat}

theorem run_keep (h : t.run s = ⟨written, .ok count, u⟩) :
    (do return (← t, strings) : Scribe (Nat × Option StringTable)).run s =
      ⟨written, .ok (count, strings), u⟩ := by
  refine (run_bind_ok h).trans ?_
  simp [Transcript.after]

theorem run_of_keep {after : Option StringTable}
    (h : (do return (← t, strings) : Scribe (Nat × Option StringTable)).run s =
      ⟨written, .ok (count, after), u⟩) : t.run s = ⟨written, .ok count, u⟩ ∧ after = strings := by
  obtain ⟨before, n, mid, last, ht, hp, rfl⟩ := run_bind_eq_ok h
  cases hp
  exact ⟨by simpa using ht, rfl⟩

theorem run_keep_error {problem : Problem} (h : t.run s = ⟨written, .error problem, u⟩) :
    (do return (← t, strings) : Scribe (Nat × Option StringTable)).run s =
      ⟨written, .error problem, u⟩ :=
  run_bind_error h

end Keep

/-- The scribe of a section that declares no count is a loop in an element, with one round for each
group. -/
theorem SectionKind.scribe_open {kind : SectionKind} (hk : kind.isOpen = true) :
    ∃ tag newline schema body, Rounds schema body (Group.SpellsIn kind) Group.markup ∧
      ∀ strings, kind.scribe strings = (do
        return (← Scribe.element tag newline (Transcriber.untilEnd schema body), strings)) := by
  cases kind with
  | inodeReference => exact ⟨_, _, _, _, Group.reference_rounds, fun _ => rfl⟩
  | inodeDir => exact ⟨_, _, _, _, Group.links_rounds, fun _ => rfl⟩
  | filesUnderConstruction => exact ⟨_, _, _, _, Group.openFile_rounds, fun _ => rfl⟩
  | snapshotDiff => exact ⟨_, _, _, _, DiffEntry.rounds, fun _ => rfl⟩
  | nsInfo | stringTable | inode | snapshot | secretManager | cacheManager => cases hk

/-- A section that declares how many records it has knows by itself where to stop. -/
theorem SectionKind.scribe_delimited (h : NameTable.DescribesAny names strings)
    {kind : SectionKind} (hk : kind.isOpen = false) : (kind.scribe strings).Delimited := by
  cases kind with
  | nsInfo => exact .bind NameSystem.scribe_delimited fun _ => .pure _
  | stringTable => exact .bind StringTable.scribe_delimited fun _ => .pure _
  | inode => exact .bind (Inode.scribeAll_delimited h) fun _ => .pure _
  | snapshot => exact .bind (Snapshot.scribeAll_delimited h) fun _ => .pure _
  | secretManager => exact .bind DelegationHeader.scribe_delimited fun _ => .pure _
  | cacheManager => exact .bind CacheHeader.scribe_delimited fun _ => .pure _
  | inodeReference | inodeDir | filesUnderConstruction | snapshotDiff => cases hk

/-- A group in a section of its kind. -/
theorem Group.spelled_spellsIn {kind : SectionKind} {groups : List Group} :
    Spelled (SpellsIn kind) groups bytes ↔
      (∀ group ∈ groups, group.kind = kind) ∧ Spelled Spells groups bytes := by
  have hs : SpellsIn kind = fun group bytes => group.Spells bytes ∧ group.kind = kind :=
    funext fun group => funext fun bytes => propext and_comm
  rw [hs, spelled_and, and_comm]

namespace SectionKind

variable {kind : SectionKind} {after : Option StringTable}

theorem readsTo_open (hk : kind.isOpen = true) : kind.ReadsTo strings after bytes ↔
    after = strings ∧ ∃ groups, Spelled (Group.SpellsIn kind) groups bytes := by
  obtain ⟨tag, newline, schema, body, hr, hs⟩ := scribe_open hk
  rw [ReadsTo, hs]
  constructor
  · rintro ⟨written, count, h⟩
    obtain ⟨he, rfl⟩ := run_of_keep h
    rcases hu : (Transcriber.untilEnd schema body).run ⟨bytes, none⟩ with ⟨inside, outcome, s⟩
    cases outcome with
    | error problem => rw [run_element_error hu] at he; cases he
    | ok n =>
      obtain ⟨groups, hg, -⟩ := hr.spelled_of_untilEnd hu
      exact ⟨rfl, groups, hg⟩
  · rintro ⟨rfl, groups, hg⟩
    exact ⟨_, _, run_keep (run_element_ok (hr.run_untilEnd hg))⟩

theorem readsTo_keep {t : Scribe Nat} (ht : t.Delimited)
    (hs : kind.scribe strings = do return (← t, strings)) :
    kind.ReadsTo strings after bytes ↔ after = strings ∧ t.Accepts bytes := by
  rw [ReadsTo, hs]
  constructor
  · rintro ⟨written, count, h⟩
    obtain ⟨hr, rfl⟩ := run_of_keep h
    exact ⟨rfl, ht.accepts_of_run hr⟩
  · rintro ⟨rfl, h⟩
    obtain ⟨written, count, hr⟩ := h.exists_run
    exact ⟨written, count, run_keep hr⟩

theorem readsTo_stringTable : stringTable.ReadsTo strings after bytes ↔
    ∃ size table, after = some table ∧ StringTable.scribe.Takes bytes [] (size, table) := by
  constructor
  · rintro ⟨written, count, h⟩
    obtain ⟨before, ⟨size, table⟩, mid, last, ht, hp, rfl⟩ := run_bind_eq_ok h
    cases hp
    have hk := StringTable.scribe_delimited.takes_iff_run.mpr ht
    obtain ⟨rfl, -⟩ := StringTable.takes_scribe hk
    exact ⟨count, table, rfl, hk⟩
  · rintro ⟨size, table, rfl, ht⟩
    exact ⟨[], size, run_bind_ok ht.run⟩

/-- What a section other than the string table holds, by its kind. -/
theorem admits_iff (hk : kind ≠ stringTable) : kind.Admits names names bytes ↔
    (kind = nsInfo ∧ ∃ header, (SectionContent.nsInfo header).Spells bytes) ∨
    (kind = inode ∧ ∃ header inodes, (SectionContent.inode header inodes).Spells bytes ∧
      ∀ i ∈ inodes.map Inode.ofRecord, i.Resolves names) ∨
    (kind = snapshot ∧ ∃ header snapshots,
      (SectionContent.snapshot header snapshots).Spells bytes ∧
        ∀ i ∈ snapshots.map fun r => (Snapshot.ofRecord r).root, i.Resolves names) ∨
    (kind = secretManager ∧ ∃ header keys tokens,
      (SectionContent.secretManager header keys tokens).Spells bytes) ∨
    (kind = cacheManager ∧ ∃ header pools directives,
      (SectionContent.cacheManager header pools directives).Spells bytes) ∨
    ∃ members, (SectionContent.groups kind members).Spells bytes := by
  constructor
  · rintro ⟨content, rfl, hs, hn, -⟩
    cases content with
    | nsInfo header => exact .inl ⟨rfl, header, hs⟩
    | stringTable header rows => exact absurd rfl hk
    | inode header inodes => exact .inr (.inl ⟨rfl, header, inodes, hs, hn⟩)
    | snapshot header snapshots => exact .inr (.inr (.inl ⟨rfl, header, snapshots, hs, hn⟩))
    | secretManager header keys tokens =>
      exact .inr (.inr (.inr (.inl ⟨rfl, header, keys, tokens, hs⟩)))
    | cacheManager header pools directives =>
      exact .inr (.inr (.inr (.inr (.inl ⟨rfl, header, pools, directives, hs⟩))))
    | groups kind members => exact .inr (.inr (.inr (.inr (.inr ⟨members, hs⟩))))
  · have none : ∀ i ∈ ([] : List Inode), i.Resolves names := fun _ hi => nomatch hi
    rintro (⟨rfl, header, hs⟩ | ⟨rfl, header, inodes, hs, hn⟩ | ⟨rfl, header, snapshots, hs, hn⟩ |
      ⟨rfl, header, keys, tokens, hs⟩ | ⟨rfl, header, pools, directives, hs⟩ | ⟨members, hs⟩)
    · exact ⟨.nsInfo header, rfl, hs, none, rfl⟩
    · exact ⟨.inode header inodes, rfl, hs, hn, rfl⟩
    · exact ⟨.snapshot header snapshots, rfl, hs, hn, rfl⟩
    · exact ⟨.secretManager header keys tokens, rfl, hs, none, rfl⟩
    · exact ⟨.cacheManager header pools directives, rfl, hs, none, rfl⟩
    · exact ⟨.groups kind members, rfl, hs, none, rfl⟩

/-- A section other than the string table is read to its end exactly if it is spelled as the grammar
says and its names resolve, and the string table stays as it was. -/
theorem readsTo_iff (h : NameTable.DescribesAny names strings) (hk : kind ≠ stringTable) :
    kind.ReadsTo strings after bytes ↔ after = strings ∧ kind.Admits names names bytes := by
  rw [admits_iff hk]
  have hg : ∀ closed : SectionKind, closed.isOpen = false →
      ¬∃ members, (SectionContent.groups closed members).Spells bytes := by
    rintro closed hf ⟨members, ho, -⟩
    rw [hf] at ho
    cases ho
  cases kind with
  | nsInfo =>
    rw [readsTo_keep NameSystem.scribe_delimited rfl, NameSystem.accepts_scribe]
    simp [hg nsInfo rfl]
  | stringTable => exact absurd rfl hk
  | inode =>
    rw [readsTo_keep (Inode.scribeAll_delimited h) rfl, Inode.accepts_scribeAll h]
    simp [hg inode rfl]
  | snapshot =>
    rw [readsTo_keep (Snapshot.scribeAll_delimited h) rfl, Snapshot.accepts_scribeAll h]
    simp [hg snapshot rfl]
  | secretManager =>
    rw [readsTo_keep DelegationHeader.scribe_delimited rfl, DelegationHeader.accepts_scribe]
    simp [hg secretManager rfl]
  | cacheManager =>
    rw [readsTo_keep CacheHeader.scribe_delimited rfl, CacheHeader.accepts_scribe]
    simp [hg cacheManager rfl]
  | inodeReference | inodeDir | filesUnderConstruction | snapshotDiff =>
    rw [readsTo_open rfl]
    simp [Group.spelled_spellsIn, SectionContent.Spells, isOpen]

/-- What is read to its end is spelled as the grammar says. -/
theorem admits_of_readsTo (h : NameTable.DescribesAny names strings)
    (hr : kind.ReadsTo strings after bytes) :
    ∃ known, kind.Admits names known bytes ∧ NameTable.DescribesAny known after := by
  by_cases hk : kind = stringTable
  · subst hk
    obtain ⟨size, table, rfl, ht⟩ := readsTo_stringTable.mp hr
    obtain ⟨-, header, rows, hs, hd⟩ := StringTable.takes_scribe ht
    exact ⟨_, ⟨.stringTable header rows, rfl, hs, by simp [SectionContent.inodes], rfl⟩, .some hd⟩
  · obtain ⟨rfl, ha⟩ := (readsTo_iff h hk).mp hr
    exact ⟨names, ha, h⟩

/-! ## Sections that are cut short -/

variable {written : List Markup} {count : Nat} {part : Bytes}

/-- A section that declares how many records it has cannot be cut short. -/
theorem fallsShort_of_cut (h : NameTable.DescribesAny names strings) (hk : kind.isOpen = false)
    (hr : (kind.scribe strings).run ⟨bytes, none⟩ = ⟨written, .ok (count, after), ⟨[], none⟩⟩)
    (hp : part <+: bytes) (hne : part ≠ bytes) : (kind.scribe strings).FallsShort part written :=
  (scribe_delimited h hk).short ((scribe_delimited h hk).takes_iff_run.mpr hr) hp hne

/-- A section that goes on to its end is made of groups. Cut after some of them it is a section of
those; cut anywhere else it cannot be read. -/
theorem exists_groups_of_run (hk : kind.isOpen = true)
    (hr : (kind.scribe strings).run ⟨bytes, none⟩ = ⟨written, .ok (count, after), ⟨[], none⟩⟩) :
    ∃ tag newline groups parts, List.Forall₂ (Group.SpellsIn kind) groups parts ∧
      parts.flatten = bytes ∧ written = Markup.element tag newline (groups.flatMap Group.markup) ∧
      (∀ k, (kind.scribe strings).run ⟨(parts.take k).flatten, none⟩ =
        ⟨Markup.element tag newline ((groups.take k).flatMap Group.markup),
          .ok ((groups.take k).length, after), ⟨[], none⟩⟩) ∧
      ∀ part, part <+: bytes → (∃ k ≤ groups.length, part = (parts.take k).flatten) ∨
        (kind.scribe strings).FallsShort part written := by
  obtain ⟨tag, newline, schema, body, hrounds, hs⟩ := scribe_open hk
  obtain ⟨rfl, groups, parts, hg, rfl⟩ := (readsTo_open hk).mp ⟨written, count, hr⟩
  rw [hs] at hr ⊢
  have hrun : ∀ gs ps, List.Forall₂ (Group.SpellsIn kind) gs ps → (do
      return (← Scribe.element tag newline (Transcriber.untilEnd schema body), after) :
        Scribe (Nat × Option StringTable)).run ⟨ps.flatten, none⟩ =
      ⟨Markup.element tag newline (gs.flatMap Group.markup), .ok (gs.length, after), ⟨[], none⟩⟩ :=
    fun gs ps hg => run_keep (run_element_ok (hrounds.run_untilEnd ⟨ps, hg, rfl⟩))
  obtain rfl : Markup.element tag newline (groups.flatMap Group.markup) = written := by
    rw [hrun groups parts hg] at hr
    cases hr
    rfl
  refine ⟨tag, newline, groups, parts, hg, rfl, rfl,
    fun k => hrun _ _ (List.forall₂_take k hg), fun part hp => ?_⟩
  rcases hrounds.untilEnd_cut hg hp with hk | ⟨before, problem, s, he, hw, hm⟩
  · exact .inl hk
  · exact .inr ⟨.opening tag :: before, problem, s, run_keep_error (run_element_error he),
      List.cons_prefix_cons.mpr ⟨rfl, hw.trans (List.prefix_append ..)⟩, hm⟩

end SectionKind

end Checkpoint
