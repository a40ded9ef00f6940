import Mathlib.Data.List.Induction
import Checkpoint.Proofs.Visits

/-! # Strict conversion

A strict conversion succeeds exactly on the images that the grammar of sections describes. Sections
are visited with the string tables before all others that refer to names, so the names in them are
those of the last string table, wherever that stands in the section table. -/
namespace Checkpoint

variable {image : Bytes} {entry : SectionEntry} {entries table : List SectionEntry}
  {strings after : Option StringTable} {names : Option NameTable} {written : List Markup}

/-- Sections other than the string table are read to their ends only if they are spelled as the
grammar says, and leave the string table as it was. -/
theorem Copied.admits (hc : CopiedFrom image entries strings written after)
    (hk : ∀ entry ∈ entries, entry.kind ≠ some .stringTable)
    (hd : NameTable.DescribesAny names strings) : after = strings ∧ ∀ entry ∈ entries,
      ∀ kind, entry.kind = some kind → kind.Admits names names (entry.stored image) := by
  induction hc with
  | nil => exact ⟨rfl, by simp⟩
  | skipped hn _ ih =>
    obtain ⟨rfl, ha⟩ := ih (fun entry he => hk entry (by simp [he])) hd
    refine ⟨rfl, List.forall_mem_cons.mpr ⟨fun kind h => ?_, ha⟩⟩
    rw [hn] at h
    cases h
  | @read entry rest kind strings between after written others count hkind hr _ ih =>
    have hne : kind ≠ .stringTable := fun he => hk entry (by simp) (he ▸ hkind)
    obtain ⟨rfl, hb⟩ := (SectionKind.readsTo_iff hd hne).mp ⟨written, count, hr⟩
    obtain ⟨rfl, ha⟩ := ih (fun entry he => hk entry (by simp [he])) hd
    refine ⟨rfl, List.forall_mem_cons.mpr ⟨fun other h => ?_, ha⟩⟩
    obtain rfl := Option.some.inj (hkind.symm.trans h)
    exact hb

/-- Sections other than the string table that are spelled as the grammar says are read to their
ends. -/
theorem Copied.of_admits (hk : ∀ entry ∈ entries, entry.kind ≠ some .stringTable)
    (hd : NameTable.DescribesAny names strings)
    (ha : ∀ entry ∈ entries, ∀ kind, entry.kind = some kind →
      kind.Admits names names (entry.stored image)) :
    ∃ written, CopiedFrom image entries strings written strings := by
  induction entries with
  | nil => exact ⟨[], .nil⟩
  | cons entry rest ih =>
    obtain ⟨hf, ha⟩ := List.forall_mem_cons.mp ha
    obtain ⟨others, hc⟩ := ih (fun entry he => hk entry (by simp [he])) ha
    cases hkind : entry.kind with
    | none => exact ⟨others, .skipped hkind hc⟩
    | some kind =>
      have hne : kind ≠ .stringTable := fun he => hk entry (by simp) (he ▸ hkind)
      obtain ⟨written, count, hr⟩ := (SectionKind.readsTo_iff hd hne).mpr ⟨rfl, hf kind hkind⟩
      exact ⟨written ++ others, .read hkind hr hc⟩

/-! ## String tables -/

theorem Copied.makesKnown (hk : entry.kind = some .stringTable)
    (hc : CopiedFrom image [entry] strings written after) :
    ∃ names, entry.MakesKnown image names ∧ NameTable.DescribesAny names after := by
  cases hc with
  | skipped hn _ => rw [hk] at hn; cases hn
  | @read _ _ kind _ between _ first others count hkind hr hn =>
    obtain rfl := Option.some.inj (hk.symm.trans hkind)
    cases hn
    obtain ⟨size, table, rfl, ht⟩ := SectionKind.readsTo_stringTable.mp ⟨first, count, hr⟩
    obtain ⟨-, header, rows, hs, hd⟩ := StringTable.takes_scribe ht
    exact ⟨_, ⟨header, rows, hs, rfl⟩, .some hd⟩

theorem Copied.of_makesKnown (hk : entry.kind = some .stringTable)
    (hm : entry.MakesKnown image names) (strings : Option StringTable) :
    ∃ written after, CopiedFrom image [entry] strings written after ∧
      NameTable.DescribesAny names after := by
  obtain ⟨header, rows, hs, rfl⟩ := hm
  obtain ⟨size, table, ht, hd⟩ := StringTable.exists_takes_scribe hs
  have hr : SectionKind.stringTable.ReadsTo strings (some table) (entry.stored image) :=
    SectionKind.readsTo_stringTable.mpr ⟨size, table, rfl, ht⟩
  obtain ⟨written, count, hr⟩ := hr
  exact ⟨_, _, .read hk hr .nil, .some hd⟩

/-- After string tables that are read to their ends, the table at hand is that of the last one. -/
theorem Copied.known (hc : CopiedFrom image table none written after)
    (hk : ∀ entry ∈ table, entry.kind = some .stringTable) :
    (∀ entry ∈ table, ∃ names, entry.MakesKnown image names) ∧
      ∃ names, SectionEntry.Known table image names ∧ NameTable.DescribesAny names after := by
  induction table using List.reverseRecOn generalizing written after with
  | nil => cases hc; exact ⟨by simp, none, rfl, .none⟩
  | append_singleton rest entry ih =>
    obtain ⟨before, mid, others, rfl, hb, ho⟩ := hc.of_append
    obtain ⟨ha, -⟩ := ih hb fun entry he => hk entry (by simp [he])
    obtain ⟨names, hm, hd⟩ := Copied.makesKnown (hk entry (by simp)) ho
    refine ⟨?_, names, by simpa [SectionEntry.Known] using hm, hd⟩
    simp only [List.mem_append, List.mem_singleton]
    rintro other (h | rfl)
    · exact ha other h
    · exact ⟨names, hm⟩

theorem Copied.of_known (hk : ∀ entry ∈ table, entry.kind = some .stringTable)
    (ha : ∀ entry ∈ table, ∃ names, entry.MakesKnown image names)
    (hn : SectionEntry.Known table image names) :
    ∃ written after, CopiedFrom image table none written after ∧
      NameTable.DescribesAny names after := by
  induction table using List.reverseRecOn generalizing names with
  | nil => cases hn; exact ⟨[], none, .nil, .none⟩
  | append_singleton rest entry ih =>
    have hm : entry.MakesKnown image names := by simpa [SectionEntry.Known] using hn
    have hrest : ∃ known, SectionEntry.Known rest image known := by
      cases hl : rest.getLast? with
      | none => exact ⟨none, by rw [SectionEntry.Known, hl]⟩
      | some last =>
        obtain ⟨known, h⟩ := ha last (by simp [List.mem_of_getLast? hl])
        exact ⟨known, by rw [SectionEntry.Known, hl]; exact h⟩
    obtain ⟨known, hrest⟩ := hrest
    obtain ⟨before, mid, hb, -⟩ := ih (fun entry he => hk entry (by simp [he]))
      (fun entry he => ha entry (by simp [he])) hrest
    obtain ⟨others, after, ho, hd⟩ := Copied.of_makesKnown (hk entry (by simp)) hm mid
    exact ⟨_, after, hb.append ho, hd⟩

/-! ## The order of the visit -/

namespace SectionEntry

theorem mem_visitOrder : entry ∈ visitOrder table ↔ entry ∈ table := by
  cases hk : entry.kind with
  | none => simp [visitOrder, hk]
  | some kind => simp [visitOrder, hk, SectionKind.mem_all]

/-- The string tables are visited before everything but the name system. -/
theorem visitOrder_eq (table : List SectionEntry) : ∃ rest, visitOrder table =
    table.filter (·.kind == some .nsInfo) ++ (table.filter (·.kind == some .stringTable) ++ rest) ∧
      ∀ entry ∈ rest, entry.kind ≠ some .stringTable := by
  refine ⟨(SectionKind.all.drop 2).flatMap (fun kind => table.filter (·.kind == some kind)) ++
    table.filter (·.kind == none), by simp [visitOrder, SectionKind.all], ?_⟩
  intro entry he hk
  simp [SectionKind.all, hk] at he

end SectionEntry

/-! ## The conversion -/

namespace SectionEntry

theorem admitted_of_admits (h : ∀ kind, entry.kind = some kind →
    kind.Admits names names (entry.stored image)) : entry.Admitted image names := by
  intro kind hk
  obtain ⟨content, hc, hs, hi, -⟩ := h kind hk
  exact ⟨content, hc, hs, hi⟩

theorem admits_of_admitted (h : entry.Admitted image names)
    (hne : entry.kind ≠ some .stringTable) (kind : SectionKind) (hk : entry.kind = some kind) :
    kind.Admits names names (entry.stored image) := by
  obtain ⟨content, hc, hs, hi⟩ := h kind hk
  refine ⟨content, hc, hs, hi, ?_⟩
  cases content with
  | stringTable header rows => obtain rfl : .stringTable = kind := hc; exact absurd hk hne
  | nsInfo _ | inode _ _ | snapshot _ _ | secretManager _ _ _ | cacheManager _ _ _
  | groups _ _ => rfl

/-- The name system refers to no names. -/
theorem Admitted.of_nsInfo {other : Option NameTable} (h : entry.Admitted image names)
    (hk : entry.kind = some .nsInfo) : entry.Admitted image other := by
  intro kind hk'
  obtain ⟨content, hc, hs, -⟩ := h kind hk'
  obtain rfl := Option.some.inj (hk.symm.trans hk')
  refine ⟨content, hc, hs, ?_⟩
  cases content with
  | nsInfo header => simp [SectionContent.inodes]
  | groups _ _ => simp [SectionContent.inodes]
  | stringTable _ _ | inode _ _ | snapshot _ _ | secretManager _ _ _ | cacheManager _ _ _ => cases hc

/-- Nor does a string table. -/
theorem admitted_of_makesKnown {other : Option NameTable} (hm : entry.MakesKnown image names)
    (hk : entry.kind = some .stringTable) : entry.Admitted image other := by
  intro kind hk'
  obtain ⟨header, rows, hs, -⟩ := hm
  obtain rfl := Option.some.inj (hk.symm.trans hk')
  exact ⟨.stringTable header rows, rfl, hs, by simp [SectionContent.inodes]⟩

theorem exists_makesKnown (h : entry.Admitted image names)
    (hk : entry.kind = some .stringTable) : ∃ known, entry.MakesKnown image known := by
  obtain ⟨content, hc, hs, -⟩ := h _ hk
  cases content with
  | stringTable header rows => exact ⟨_, header, rows, hs, rfl⟩
  | groups kind members => cases hc; exact absurd hs.1 (by decide)
  | nsInfo _ | inode _ _ | snapshot _ _ | secretManager _ _ _ | cacheManager _ _ _ => cases hc

end SectionEntry

/-- A strict conversion of an image that is not compressed succeeds exactly if the bytes of every
section of a known kind are spelled as the grammar says, and every name that an inode refers to
resolves in the string table. -/
theorem convert_strict_iff {summary : Summary} (revision : String)
    (hr : Summary.read image = .ok summary) (hc : summary.codec = "") :
    (convert { revision } image).failure = none ↔ ∃ names, summary.Names image names ∧
      ∀ entry ∈ summary.sections, entry.Admitted image names := by
  -- string tables come after the first sections and before all that need their names
  obtain ⟨rest, ho, hrest⟩ := SectionEntry.visitOrder_eq summary.sections
  have hfirst : ∀ entry ∈ summary.sections.filter (·.kind == some .nsInfo),
      entry.kind = some .nsInfo := fun entry he => by simpa using (List.mem_filter.mp he).2
  have htables : ∀ entry ∈ summary.sections.filter (·.kind == some .stringTable),
      entry.kind = some .stringTable := fun entry he => by simpa using (List.mem_filter.mp he).2
  have hnot : ∀ entry ∈ summary.sections.filter (·.kind == some .nsInfo),
      entry.kind ≠ some .stringTable := fun entry he hk => by
    rw [hfirst entry he] at hk
    cases hk
  constructor
  · intro h
    obtain ⟨written, after, h⟩ := copied_of_convert hr hc h
    rw [ho] at h
    obtain ⟨before, mid, others, rfl, hcf, hco⟩ := h.of_append
    obtain ⟨during, last, others, rfl, hct, hcl⟩ := hco.of_append
    obtain ⟨rfl, hf⟩ := hcf.admits hnot .none
    obtain ⟨ht, names, hn, hd⟩ := hct.known htables
    obtain ⟨-, hl⟩ := hcl.admits hrest hd
    refine ⟨names, hn, fun entry he => ?_⟩
    have hm := SectionEntry.mem_visitOrder.mpr he
    rw [ho, List.mem_append, List.mem_append] at hm
    rcases hm with hm | hm | hm
    · exact (SectionEntry.admitted_of_admits (hf entry hm)).of_nsInfo (hfirst entry hm)
    · obtain ⟨known, hk⟩ := ht entry hm
      exact SectionEntry.admitted_of_makesKnown hk (htables entry hm)
    · exact SectionEntry.admitted_of_admits (hl entry hm)
  · rintro ⟨names, hn, ha⟩
    have ha : ∀ entry ∈ SectionEntry.visitOrder summary.sections, entry.Admitted image names :=
      fun entry he => ha entry (SectionEntry.mem_visitOrder.mp he)
    rw [ho] at ha
    obtain ⟨before, hf⟩ := Copied.of_admits hnot .none fun entry he =>
      SectionEntry.admits_of_admitted ((ha entry (by simp [he])).of_nsInfo (hfirst entry he))
        (hnot entry he)
    obtain ⟨during, mid, ht, hd⟩ := Copied.of_known htables (fun entry he =>
      SectionEntry.exists_makesKnown (ha entry (by simp [he])) (htables entry he)) hn
    obtain ⟨others, hl⟩ := Copied.of_admits hrest hd fun entry he =>
      SectionEntry.admits_of_admitted (ha entry (by simp [he])) (hrest entry he)
    have h := hf.append (ht.append hl)
    rw [← ho] at h
    exact (convert_done revision hr hc h).failure

/-- An image of one directory, with an owner from the string table and two rows of children. -/
def smallImage : Bytes :=
  [72, 68, 70, 83, 73, 77, 71, 49, 4, 8, 1, 16, 1, 15, 8, 2, 16, 1, 42, 9, 33, 237, 1, 1, 0, 0, 1,
   0, 0, 4, 8, 1, 16, 2, 4, 8, 2, 16, 3, 2, 8, 1, 5, 8, 1, 18, 1, 97, 63, 8, 1, 16, 196, 255, 255,
   255, 255, 255, 255, 255, 255, 1, 34, 11, 10, 5, 73, 78, 79, 68, 69, 16, 21, 24, 8, 34, 15, 10, 9,
   73, 78, 79, 68, 69, 95, 68, 73, 82, 16, 10, 24, 29, 34, 18, 10, 12, 83, 84, 82, 73, 78, 71, 95,
   84, 65, 66, 76, 69, 16, 9, 24, 39, 0, 0, 0, 64]

/-- Its summary; the string table stands last and is visited first. -/
def smallSummary : Summary where
  ondiskVersion := 1
  layoutVersion := -60
  codec := ""
  sections := [⟨"INODE", 8, 21⟩, ⟨"INODE_DIR", 29, 10⟩, ⟨"STRING_TABLE", 39, 9⟩]

theorem read_smallImage : Summary.read smallImage = .ok smallSummary := by decide +kernel

theorem convert_strict_iff_smallImage : smallSummary.codec = "" ∧
    ∃ names, smallSummary.Names smallImage names ∧
      ∀ entry ∈ smallSummary.sections, entry.Admitted smallImage names :=
  ⟨rfl, (convert_strict_iff programVersion read_smallImage rfl).mp (by decide +kernel)⟩

end Checkpoint
