import Checkpoint.Proofs.Lenient

/-! # Sessions that go on

What earlier images have left reaches a later one only by its string table and by the counts it is
added to. The sections that look names up are visited after the string tables, so the table of an
earlier image is not seen in an image that has one of its own. -/
namespace Checkpoint

namespace Tally

/-- The names that came up. -/
def names (tally : Tally) : List String := tally.map Prod.fst

theorem mem_names_add {name other : String} {n : Nat} {tally : Tally} :
    other ∈ (tally.add name n).names ↔ other ∈ tally.names ∨ other = name := by
  induction tally with
  | nil => simp [add, names]
  | cons entry rest ih =>
    obtain ⟨first, m⟩ := entry
    unfold names at ih
    unfold add
    by_cases h : first = name
    · subst h
      simp only [names, if_true, List.map_cons, List.mem_cons]
      tauto
    · simp only [names, if_neg h, List.map_cons, List.mem_cons, ih]
      tauto

/-- The counts of `tally` are those of two others taken together. -/
structure Sums (earlier fresh tally : Tally) : Prop where
  count (name : String) : tally.count name = earlier.count name + fresh.count name
  mem_names (name : String) : name ∈ tally.names ↔ name ∈ earlier.names ∨ name ∈ fresh.names

namespace Sums

variable {earlier fresh tally : Tally}

theorem of_nil (earlier : Tally) : Sums earlier [] earlier where
  count name := by simp [Tally.count]
  mem_names name := by simp [names]

theorem add (h : Sums earlier fresh tally) (name : String) (n : Nat) :
    Sums earlier (fresh.add name n) (tally.add name n) where
  count other := by
    rw [count_add, count_add, h.count]
    omega
  mem_names other := by
    rw [mem_names_add, mem_names_add, h.mem_names, or_assoc]

end Sums

end Tally

/-! ## Visits side by side -/

namespace Visit

/-- A visit that goes on from `earlier` does what a fresh one does; its counts are added to those
that it goes on from. -/
structure Repeats (earlier : Tally) (again fresh : Visit) : Prop where
  written : again.written = fresh.written
  events : again.events = fresh.events
  failure : again.failure = fresh.failure
  records : earlier.Sums fresh.session.records again.session.records

namespace Repeats

variable {earlier : Tally} {again fresh : Visit} {next next' : Session → Visit}

theorem document (h : Repeats earlier again fresh) : again.document = fresh.document :=
  congrArg Markup.renderAll h.written

/-- What is logged is the same, at every level. -/
theorem logTo (h : Repeats earlier again fresh) (log : Log) :
    again.logTo log = fresh.logTo log := by
  unfold Visit.logTo
  rw [h.events]

theorem andThen (hf : Repeats earlier again fresh)
    (hn : fresh.failure = none → earlier.Sums fresh.session.records again.session.records →
      Repeats earlier (next again.session) (next' fresh.session)) :
    Repeats earlier (again.andThen next) (fresh.andThen next') := by
  cases hz : fresh.failure with
  | some failure =>
    rw [andThen_of_failure (hf.failure.trans hz), andThen_of_failure hz]
    exact hf
  | none =>
    have hs := hn hz hf.records
    rw [andThen_of_none (hf.failure.trans hz), andThen_of_none hz]
    exact ⟨congrArg₂ (· ++ ·) hf.written hs.written, congrArg₂ (· ++ ·) hf.events hs.events,
      hs.failure, hs.records⟩

end Repeats

end Visit

/-- How three visits are grouped does not matter. -/
theorem Visit.andThen_assoc (first : Visit) (next last : Session → Visit) :
    (first.andThen next).andThen last =
      first.andThen fun session => (next session).andThen last := by
  cases hf : first.failure with
  | some failure => rw [andThen_of_failure hf, andThen_of_failure hf, andThen_of_failure hf]
  | none =>
    cases hn : (next first.session).failure with
    | some failure => simp only [andThen, hf, hn]
    | none => simp only [andThen, hf, hn, List.append_assoc]

/-- Two runs that differ at most in the string table they hand on. -/
structure SameCourse (run run' : Transcript Markup (Nat × Option StringTable)) : Prop where
  written : run.written = run'.written
  outcome : run.outcome.map Prod.fst = run'.outcome.map Prod.fst
  stream : run.stream = run'.stream

namespace SectionKind

variable {strings strings' after : Option StringTable} {s u : ByteStream} {written : List Markup}
  {count : Nat}

/-- The string table that is handed on after a section of the kind, also one that fails. -/
def tableAfter (kind : SectionKind) (strings : Option StringTable) (s : ByteStream) :
    Option StringTable :=
  match ((kind.scribe strings).run s).outcome with
  | .ok (_, after) => after
  | .error _ => strings

/-- Only a section of the kind `STRING_TABLE` hands on another table than it was given. -/
theorem after_of_run {kind : SectionKind} (hk : kind ≠ .stringTable)
    (h : (kind.scribe strings).run s = ⟨written, .ok (count, after), u⟩) : after = strings := by
  cases kind with
  | stringTable => exact absurd rfl hk
  | nsInfo | inode | inodeReference | inodeDir | filesUnderConstruction | snapshot | snapshotDiff
  | secretManager | cacheManager => exact (run_of_keep h).2

theorem tableAfter_of_ne {kind : SectionKind} (hk : kind ≠ .stringTable)
    (strings : Option StringTable) (s : ByteStream) : kind.tableAfter strings s = strings := by
  unfold tableAfter
  rcases hr : (kind.scribe strings).run s with ⟨written, outcome, u⟩
  cases outcome with
  | error problem => rfl
  | ok read => exact after_of_run hk hr

/-- A string table section is read by loading the table, whatever table there was. -/
theorem run_stringTable (strings : Option StringTable) (s : ByteStream) :
    (stringTable.scribe strings).run s =
      ⟨[], (StringTable.load s).1.map fun table => (table.size, some table),
        (StringTable.load s).2⟩ := by
  rcases hl : StringTable.load s with ⟨outcome, u⟩
  have hs : StringTable.scribe.run s =
      ⟨[], outcome.map fun table => (table.size, table), u⟩ := by
    show StringTable.scribe s = _
    simp only [StringTable.scribe, hl]
  cases outcome with
  | error problem => exact Transcriber.run_bind_error hs
  | ok table => exact Transcriber.run_bind_ok hs

/-- The table that is loaded takes the place of the one that was there, if there is one. -/
theorem tableAfter_stringTable (strings : Option StringTable) (s : ByteStream) :
    stringTable.tableAfter strings s = (StringTable.load s).1.toOption.or strings := by
  unfold tableAfter
  rw [run_stringTable]
  cases (StringTable.load s).1 <;> rfl

/-- There is a table behind a section that has one in front. -/
theorem isSome_tableAfter (kind : SectionKind) (hs : strings.isSome) (s : ByteStream) :
    (kind.tableAfter strings s).isSome := by
  by_cases hk : kind = .stringTable
  · rw [hk, tableAfter_stringTable, Option.isSome_or, hs, Bool.or_true]
  · rw [tableAfter_of_ne hk]
    exact hs

/-- The leading sections do not look at the string table they are given. -/
theorem sameCourse_of_early {kind : SectionKind} (hk : kind = .nsInfo ∨ kind = .stringTable)
    (strings strings' : Option StringTable) (s : ByteStream) :
    SameCourse ((kind.scribe strings).run s) ((kind.scribe strings').run s) := by
  rcases hk with rfl | rfl
  · rcases hr : NameSystem.scribe.run s with ⟨written, outcome, u⟩
    cases outcome with
    | error problem =>
      have hs : ∀ strings, (nsInfo.scribe strings).run s = ⟨written, .error problem, u⟩ :=
        fun strings => run_keep_error hr
      rw [hs, hs]
      exact ⟨rfl, rfl, rfl⟩
    | ok count =>
      have hs : ∀ strings, (nsInfo.scribe strings).run s = ⟨written, .ok (count, strings), u⟩ :=
        fun strings => run_keep hr
      rw [hs, hs]
      exact ⟨rfl, rfl, rfl⟩
  · exact ⟨rfl, rfl, rfl⟩

end SectionKind

namespace Session

variable {settings : Settings} {streamOf : SectionEntry → ByteStream} {entry : SectionEntry}
  {entries : List SectionEntry} {kind : SectionKind} {earlier : Tally} {again fresh : Session}

/-! ## The table that is handed on -/

theorem strings_close (session : Session) (count : Nat) (rest : ByteStream) :
    (session.close settings entry count rest).session.strings = session.strings := by
  unfold close
  split
  · rfl
  · split <;> rfl
  · rfl

/-- Whether or not anything is left over behind it, a section that has been read hands on its
table. -/
theorem strings_visitKnown (session : Session) :
    (session.visitKnown settings streamOf entry kind).session.strings =
      kind.tableAfter session.strings (streamOf entry) := by
  unfold SectionKind.tableAfter
  rcases hr : (kind.scribe session.strings).run (streamOf entry) with ⟨written, outcome, rest⟩
  cases outcome with
  | error problem =>
    rw [visitKnown_of_error hr, Visit.andThen_of_none rfl]
    rfl
  | ok read =>
    obtain ⟨count, after⟩ := read
    rw [visitKnown_of_ok hr, Visit.andThen_of_none rfl]
    exact strings_close _ count rest

/-- The tables that the string table sections among the entries hold, those that can be loaded. -/
def loadable (streamOf : SectionEntry → ByteStream) (entries : List SectionEntry) :
    List StringTable :=
  (entries.filter (·.kind == some .stringTable)).filterMap fun entry =>
    (StringTable.load (streamOf entry)).1.toOption

theorem loadable_cons_of_ne (hk : entry.kind ≠ some .stringTable) :
    loadable streamOf (entry :: entries) = loadable streamOf entries := by
  unfold loadable
  rw [List.filter_cons_of_neg (by simpa using hk)]

theorem loadable_cons (hk : entry.kind = some .stringTable) :
    loadable streamOf (entry :: entries) =
      (StringTable.load (streamOf entry)).1.toOption.toList ++ loadable streamOf entries := by
  unfold loadable
  rw [List.filter_cons_of_pos (by simp [hk]), List.filterMap_cons]
  cases (StringTable.load (streamOf entry)).1.toOption <;> rfl

/-- The table after one section, by what can be loaded from it. -/
theorem strings_visitEntry (session : Session) :
    (session.visitEntry settings streamOf entry).session.strings =
      (loadable streamOf [entry]).getLast?.or session.strings := by
  unfold visitEntry
  cases hk : entry.kind with
  | none =>
    rw [loadable_cons_of_ne (by rw [hk]; exact nofun)]
    rfl
  | some kind =>
    dsimp only
    rw [strings_visitKnown]
    by_cases hs : kind = .stringTable
    · subst hs
      rw [SectionKind.tableAfter_stringTable, loadable_cons hk]
      cases (StringTable.load (streamOf entry)).1.toOption <;> rfl
    · rw [SectionKind.tableAfter_of_ne hs, loadable_cons_of_ne (by rw [hk]; simpa using hs)]
      rfl

/-- After sections that are all completed, the table at hand is the last one that was loaded from
them, or else the one that was there before. -/
theorem strings_visitEntries (session : Session)
    (hf : (session.visitEntries settings streamOf entries).failure = none) :
    (session.visitEntries settings streamOf entries).session.strings =
      (loadable streamOf entries).getLast?.or session.strings := by
  induction entries generalizing session with
  | nil => rfl
  | cons entry rest ih =>
    obtain ⟨hd, hn⟩ := Visit.done_of_andThen hf
    have hl : loadable streamOf (entry :: rest) =
        loadable streamOf [entry] ++ loadable streamOf rest := by
      simp only [loadable, ← List.filterMap_append, ← List.filter_append, List.singleton_append]
    rw [visitEntries, Visit.andThen_of_none hd.failure]
    dsimp only
    rw [ih _ hn, strings_visitEntry, hl, List.getLast?_append, ← Option.or_assoc]

/-- Sections may be visited in two parts. -/
theorem visitEntries_append (session : Session) (more : List SectionEntry) :
    session.visitEntries settings streamOf (entries ++ more) =
      (session.visitEntries settings streamOf entries).andThen
        (visitEntries settings streamOf more) := by
  induction entries generalizing session with
  | nil => rw [visitEntries, Visit.andThen_of_none rfl]; rfl
  | cons entry rest ih =>
    rw [List.cons_append, visitEntries, visitEntries, Visit.andThen_assoc]
    exact congrArg _ (funext ih)

/-! ## Counts -/

theorem close_repeats (h : earlier.Sums fresh.records again.records) (count : Nat)
    (rest : ByteStream) : (again.close settings entry count rest).Repeats earlier
      (fresh.close settings entry count rest) := by
  have hf : ∀ problem, (again.failIn entry.name problem).Repeats earlier
      (fresh.failIn entry.name problem) := fun problem => ⟨rfl, rfl, rfl, h⟩
  unfold close
  split
  · exact ⟨rfl, rfl, rfl, h.add _ _⟩
  · split
    · exact hf _
    · exact .andThen ⟨rfl, rfl, rfl, h⟩ fun _ h => ⟨rfl, rfl, rfl, h.add _ _⟩
  · exact hf _

/-- Sections that are read alike are visited alike. -/
theorem visitKnown_repeats (h : earlier.Sums fresh.records again.records)
    (hc : SameCourse ((kind.scribe again.strings).run (streamOf entry))
      ((kind.scribe fresh.strings).run (streamOf entry))) :
    (again.visitKnown settings streamOf entry kind).Repeats earlier
      (fresh.visitKnown settings streamOf entry kind) := by
  rcases hr : (kind.scribe again.strings).run (streamOf entry) with ⟨written, outcome, rest⟩
  rcases hr' : (kind.scribe fresh.strings).run (streamOf entry) with ⟨written', outcome', rest'⟩
  rw [hr, hr'] at hc
  obtain ⟨rfl, ho, rfl⟩ : written = written' ∧ outcome.map Prod.fst = outcome'.map Prod.fst ∧
      rest = rest' := ⟨hc.written, hc.outcome, hc.stream⟩
  have hb : (again.begun entry written).Repeats earlier (fresh.begun entry written) :=
    ⟨rfl, rfl, rfl, h⟩
  cases outcome with
  | error problem =>
    cases outcome' with
    | error problem' =>
      obtain rfl : problem = problem' := Except.error.inj ho
      rw [visitKnown_of_error hr, visitKnown_of_error hr']
      exact hb.andThen fun _ h => ⟨rfl, rfl, rfl, h⟩
    | ok read' => cases ho
  | ok read =>
    cases outcome' with
    | error problem' => cases ho
    | ok read' =>
      obtain ⟨count, after⟩ := read
      obtain ⟨count', after'⟩ := read'
      obtain rfl : count = count' := Except.ok.inj ho
      rw [visitKnown_of_ok hr, visitKnown_of_ok hr']
      refine hb.andThen fun _ h => close_repeats ?_ count rest
      exact h

theorem visitEntry_repeats (h : earlier.Sums fresh.records again.records)
    (hs : again.strings = fresh.strings ∨ entry.kind = some .nsInfo ∨
      entry.kind = some .stringTable) :
    (again.visitEntry settings streamOf entry).Repeats earlier
      (fresh.visitEntry settings streamOf entry) := by
  unfold visitEntry
  cases hk : entry.kind with
  | none => exact ⟨rfl, rfl, rfl, h⟩
  | some kind =>
    refine visitKnown_repeats h ?_
    rw [hk] at hs
    rcases hs with hs | hs
    · rw [hs]
      exact ⟨rfl, rfl, rfl⟩
    · exact SectionKind.sameCourse_of_early (by simpa using hs) _ _ _

/-- With the same string table at hand, sections are visited alike. -/
theorem visitEntries_repeats_of_strings (hs : again.strings = fresh.strings)
    (h : earlier.Sums fresh.records again.records) :
    (again.visitEntries settings streamOf entries).Repeats earlier
      (fresh.visitEntries settings streamOf entries) := by
  induction entries generalizing again fresh with
  | nil => exact ⟨rfl, rfl, rfl, h⟩
  | cons entry rest ih =>
    refine (visitEntry_repeats h (.inl hs)).andThen fun _ h => ih ?_ h
    rw [strings_visitEntry, strings_visitEntry, hs]

/-- Sections that do not look names up are visited alike. -/
theorem visitEntries_repeats_of_early (hk : ∀ entry ∈ entries, entry.kind = some .nsInfo)
    (h : earlier.Sums fresh.records again.records) :
    (again.visitEntries settings streamOf entries).Repeats earlier
      (fresh.visitEntries settings streamOf entries) := by
  induction entries generalizing again fresh with
  | nil => exact ⟨rfl, rfl, rfl, h⟩
  | cons entry rest ih =>
    obtain ⟨hfirst, hrest⟩ := List.forall_mem_cons.mp hk
    exact (visitEntry_repeats h (.inr (.inl hfirst))).andThen fun _ h => ih hrest h

/-- A string table that is loaded takes the place of any other, so after it the visits go alike. -/
theorem visitEntries_repeats_of_table (hk : entry.kind = some .stringTable)
    (h : earlier.Sums fresh.records again.records) :
    (again.visitEntries settings streamOf (entry :: entries)).Repeats earlier
      (fresh.visitEntries settings streamOf (entry :: entries)) := by
  refine (visitEntry_repeats h (.inr (.inr hk))).andThen fun hf h =>
    visitEntries_repeats_of_strings ?_ h
  cases hl : (StringTable.load (streamOf entry)).1 with
  | ok table =>
    rw [strings_visitEntry, strings_visitEntry, loadable_cons hk, hl]
    rfl
  | error problem =>
    -- a section that cannot be loaded is not completed
    have hr := SectionKind.run_stringTable fresh.strings (streamOf entry)
    rw [hl] at hr
    rw [visitEntry, hk] at hf
    dsimp only at hf
    rw [visitKnown_of_error hr] at hf
    cases hf

end Session

/-! ## A table at hand -/

/-- There is a string table after the visit, and it has not ended for want of one. -/
structure Visit.Supplied (visit : Visit) : Prop where
  failure : ∀ failure, visit.failure = some failure → failure.problem ≠ .stringTableNotLoaded
  strings : visit.session.strings.isSome

theorem Visit.Supplied.andThen {first : Visit} {next : Session → Visit} (hf : first.Supplied)
    (hn : ∀ session : Session, session.strings.isSome → (next session).Supplied) :
    (first.andThen next).Supplied := by
  cases hz : first.failure with
  | some failure => rw [andThen_of_failure hz]; exact hf
  | none =>
    have hs := hn first.session hf.strings
    rw [andThen_of_none hz]
    exact ⟨hs.failure, hs.strings⟩

namespace Session

variable {settings : Settings} {streamOf : SectionEntry → ByteStream} {entry : SectionEntry}
  {entries : List SectionEntry} {kind : SectionKind} {session : Session}

theorem failIn_supplied {name : String} {problem : Problem} (hs : session.strings.isSome)
    (hp : problem ≠ .stringTableNotLoaded) : (session.failIn name problem).Supplied where
  failure failure hf := by
    obtain rfl := Option.some.inj hf
    exact hp
  strings := hs

theorem close_supplied (hs : session.strings.isSome) (count : Nat) (rest : ByteStream) :
    (session.close settings entry count rest).Supplied := by
  have hfinish : ∀ session : Session, session.strings.isSome →
      (session.finish entry.name count).Supplied := fun session hs => ⟨nofun, hs⟩
  obtain ⟨unread, fault⟩ := rest
  cases unread with
  | nil =>
    cases fault with
    | none => exact hfinish session hs
    | some problem => exact failIn_supplied hs nofun
  | cons b unread =>
    show Visit.Supplied (if settings.strict then _ else _)
    split
    · exact failIn_supplied hs nofun
    · exact .andThen ⟨nofun, hs⟩ hfinish

/-- A section that has a string table at hand leaves one. -/
theorem visitKnown_supplied (hs : session.strings.isSome) :
    (session.visitKnown settings streamOf entry kind).Supplied := by
  have hb : ∀ written, (session.begun entry written).Supplied := fun written => ⟨nofun, hs⟩
  rcases hr : (kind.scribe session.strings).run (streamOf entry) with ⟨written, outcome, rest⟩
  cases outcome with
  | error problem =>
    have hp : problem ≠ .stringTableNotLoaded := by
      have hm := (SectionKind.composed session.strings kind).regular.error hr
      rintro rfl
      rw [show session.strings = none from hm] at hs
      cases hs
    rw [visitKnown_of_error hr]
    exact (hb written).andThen fun session hs => failIn_supplied hs hp
  | ok read =>
    obtain ⟨count, after⟩ := read
    have ha := kind.isSome_tableAfter hs (streamOf entry)
    rw [SectionKind.tableAfter, hr] at ha
    rw [visitKnown_of_ok hr]
    exact (hb written).andThen fun _ _ => close_supplied ha count rest

theorem visitEntries_supplied (hs : session.strings.isSome) :
    (session.visitEntries settings streamOf entries).Supplied := by
  induction entries generalizing session with
  | nil => exact ⟨nofun, hs⟩
  | cons entry rest ih =>
    refine .andThen ?_ fun _ => ih
    unfold visitEntry
    cases entry.kind with
    | none => exact ⟨nofun, hs⟩
    | some kind => exact visitKnown_supplied hs

/-! ## Images -/

variable {image : Bytes} {summary : Summary} {codec : CodecChoice}

theorem visit_supplied (hs : session.strings.isSome) (settings : Settings) (image : Bytes) :
    (session.visit settings image).Supplied := by
  have failed : ∀ cause, Visit.Supplied { session, failure := some ⟨.format cause, none⟩ } := by
    intro cause
    refine ⟨?_, hs⟩
    intro failure hf
    obtain rfl := Option.some.inj hf
    exact nofun
  unfold visit
  cases Summary.read image with
  | error cause => exact failed cause
  | ok summary =>
    dsimp only
    cases settings.codecs.choose summary.codec with
    | error cause => exact failed cause
    | ok codec =>
      refine .andThen (.andThen ⟨nofun, hs⟩ fun _ => visitEntries_supplied) fun _ hs => ?_
      exact ⟨nofun, hs⟩

/-- An image with a string table of its own is visited alike from any two sessions. -/
theorem visit_repeats {earlier : Tally} {again fresh : Session}
    (h : earlier.Sums fresh.records again.records) (settings : Settings)
    (hr : Summary.read image = .ok summary)
    (ht : ∃ entry ∈ summary.sections, entry.kind = some .stringTable) :
    (again.visit settings image).Repeats earlier (fresh.visit settings image) := by
  cases hc : settings.codecs.choose summary.codec with
  | error cause =>
    have hv : ∀ session : Session, session.visit settings image =
        { session, failure := some ⟨.format cause, none⟩ } := by
      intro session
      simp only [visit, hr, hc]
    rw [hv, hv]
    exact ⟨rfl, rfl, rfl, h⟩
  | ok codec =>
    -- before the first string table stand only sections in which no name is looked up
    obtain ⟨rest, ho, -⟩ := SectionEntry.visitOrder_eq summary.sections
    obtain ⟨entry, more, htables⟩ :
        ∃ entry more, summary.sections.filter (·.kind == some .stringTable) = entry :: more := by
      obtain ⟨entry, he, hk⟩ := ht
      exact List.exists_cons_of_ne_nil
        (List.ne_nil_of_mem (List.mem_filter.mpr ⟨he, by simp [hk]⟩))
    have hk : entry.kind = some .stringTable := by
      have he : entry ∈ summary.sections.filter (·.kind == some .stringTable) := by
        rw [htables]
        exact List.mem_cons_self
      simpa using (List.mem_filter.mp he).2
    have hearly : ∀ entry ∈ summary.sections.filter (·.kind == some .nsInfo),
        entry.kind = some .nsInfo := fun entry he => by simpa using (List.mem_filter.mp he).2
    rw [visit_of_read again settings hr hc, visit_of_read fresh settings hr hc, ho, htables]
    refine .andThen (.andThen ⟨rfl, rfl, rfl, h⟩ fun _ h => ?_) fun _ h => ⟨rfl, rfl, rfl, h⟩
    rw [List.cons_append, visitEntries_append, visitEntries_append]
    exact (visitEntries_repeats_of_early hearly h).andThen fun _ h =>
      visitEntries_repeats_of_table hk h

/-- Where a string table cannot be loaded, the table of the sections before it stays. -/
theorem strings_visit_of_load_error {before after : List SectionEntry} {problem : Problem}
    (session : Session) (hr : Summary.read image = .ok summary)
    (hc : settings.codecs.choose summary.codec = .ok codec)
    (ho : SectionEntry.visitOrder summary.sections = before ++ entry :: after)
    (hk : entry.kind = some .stringTable)
    (hl : (StringTable.load (codec.stream image entry)).1 = .error problem)
    (hf : (session.visitEntries settings (codec.stream image) before).failure = none) :
    (session.visit settings image).session.strings =
      (loadable (codec.stream image) before).getLast?.or session.strings := by
  have hfail : ∀ session : Session, (session.visitEntries settings (codec.stream image)
      (entry :: after)).failure = some ⟨problem, some entry.name⟩ ∧
      (session.visitEntries settings (codec.stream image) (entry :: after)).session = session := by
    intro session
    have hrun := SectionKind.run_stringTable session.strings (codec.stream image entry)
    rw [hl] at hrun
    have he : session.visitEntry settings (codec.stream image) entry =
        (session.begun entry []).andThen (failIn entry.name problem) := by
      rw [visitEntry, hk]
      exact visitKnown_of_error hrun
    rw [visitEntries, he]
    exact ⟨rfl, rfl⟩
  have hv : (session.visitEntries settings (codec.stream image)
      (SectionEntry.visitOrder summary.sections)).failure = some ⟨problem, some entry.name⟩ := by
    rw [ho, visitEntries_append, Visit.andThen_of_none hf]
    exact (hfail _).1
  have hs : (session.visitEntries settings (codec.stream image)
      (SectionEntry.visitOrder summary.sections)).session.strings =
        (session.visitEntries settings (codec.stream image) before).session.strings := by
    rw [ho, visitEntries_append, Visit.andThen_of_none hf]
    exact congrArg strings (hfail _).2
  rw [visit_of_read session settings hr hc, Visit.andThen_of_failure (by
    rw [Visit.andThen_of_none rfl]; exact hv), Visit.andThen_of_none rfl]
  exact hs.trans (strings_visitEntries session hf)

/-- An image that has a string table of its own is converted in a session that goes on as in a fresh
one, whatever the session has been through: the same is written, the visit ends alike, it never ends
for want of a string table, and its counts are added to those of the session. A string table that
cannot be loaded leaves the one that was there before it: the last one that was loaded from the same
image, or else that of the session. -/
theorem visit_reused (session : Session) (settings : Settings)
    (hr : Summary.read image = .ok summary)
    (ht : ∃ entry ∈ summary.sections, entry.name = "STRING_TABLE") :
    (session.visit settings image).document = (convert settings image).document ∧
    (session.visit settings image).failure = (convert settings image).failure ∧
    (∀ failure, (session.visit settings image).failure = some failure →
      failure.problem ≠ .stringTableNotLoaded) ∧
    session.records.Sums (convert settings image).session.records
      (session.visit settings image).session.records ∧
    ∀ codec before entry after problem, settings.codecs.choose summary.codec = .ok codec →
      SectionEntry.visitOrder summary.sections = before ++ entry :: after →
      entry.name = "STRING_TABLE" →
      (session.visitEntries settings (codec.stream image) before).failure = none →
      (StringTable.load (codec.stream image entry)).1 = .error problem →
      (session.visit settings image).session.strings =
        (loadable (codec.stream image) before).getLast?.or session.strings := by
  have ht' : ∃ entry ∈ summary.sections, entry.kind = some .stringTable := by
    obtain ⟨entry, he, hn⟩ := ht
    exact ⟨entry, he, SectionEntry.kind_eq_some_iff.mpr hn⟩
  have hfresh : (session.visit settings image).Repeats session.records (convert settings image) :=
    visit_repeats (.of_nil _) settings hr ht'
  -- the visit would go the same with some table at hand, and then none would be missed
  have hstocked : (session.visit settings image).Repeats session.records
      (({ strings := some (.empty 0) } : Session).visit settings image) :=
    visit_repeats (.of_nil _) settings hr ht'
  refine ⟨hfresh.document, hfresh.failure, ?_, hfresh.records, ?_⟩
  · intro failure hf
    rw [hstocked.failure] at hf
    exact (visit_supplied rfl settings image).failure failure hf
  · intro codec before entry after problem hc ho hn hf hl
    exact strings_visit_of_load_error session hr hc ho (SectionEntry.kind_eq_some_iff.mpr hn) hl hf

end Session

/-- An image with two string tables, of which the second cannot be read. -/
def doubledImage : Bytes :=
  [72, 68, 70, 83, 73, 77, 71, 49, 2, 8, 1, 5, 8, 1, 18, 1, 98, 53, 8, 1, 16, 196, 255, 255, 255,
   255, 255, 255, 255, 255, 1, 34, 18, 10, 12, 83, 84, 82, 73, 78, 71, 95, 84, 65, 66, 76, 69, 16,
   9, 24, 8, 34, 18, 10, 12, 83, 84, 82, 73, 78, 71, 95, 84, 65, 66, 76, 69, 16, 0, 24, 17, 0, 0,
   0, 54]

/-- Its section table. -/
def doubledSections : List SectionEntry := [⟨"STRING_TABLE", 8, 9⟩, ⟨"STRING_TABLE", 17, 0⟩]

theorem read_doubledImage : Summary.read doubledImage = .ok
    { ondiskVersion := 1, layoutVersion := -60, codec := "", sections := doubledSections } := by
  decide +kernel

/-- After another image it is converted as in a fresh session, and the first of its two tables is at
hand then. -/
theorem Session.visit_reused_doubledImage :
    (∃ entry ∈ doubledSections, entry.name = "STRING_TABLE") ∧
      ((convert {} smallImage).session.visit {} doubledImage).document =
        (convert {} doubledImage).document ∧
      ((convert {} smallImage).session.visit {} doubledImage).failure =
        (convert {} doubledImage).failure ∧
      ((convert {} smallImage).session.visit {} doubledImage).session.strings =
        (loadable (CodecChoice.stored.stream doubledImage)
          [⟨"STRING_TABLE", 8, 9⟩]).getLast?.or (convert {} smallImage).session.strings := by
  have ht : ∃ entry ∈ doubledSections, entry.name = "STRING_TABLE" :=
    ⟨_, List.mem_cons_self, rfl⟩
  obtain ⟨hd, hf, -, -, hs⟩ :=
    visit_reused (convert {} smallImage).session {} read_doubledImage ht
  have hlast : (StringTable.load (CodecChoice.stored.stream doubledImage
      ⟨"STRING_TABLE", 17, 0⟩)).1 =
        .error (.malformed (.missingHeader "StringTableSection")) := by rfl
  exact ⟨ht, hd, hf, hs .stored [⟨"STRING_TABLE", 8, 9⟩] ⟨"STRING_TABLE", 17, 0⟩ [] _ rfl
    (by decide +kernel) rfl (by decide +kernel) hlast⟩

/-- The second of two string tables of an image fails to load, and then the table at hand is not the
one of the earlier image. -/
theorem strings_visit_doubledImage :
    ((convert {} smallImage).session.visit {} doubledImage).failure =
      some ⟨.malformed (.missingHeader "StringTableSection"), some "STRING_TABLE"⟩ ∧
    ((convert {} smallImage).session.visit {} doubledImage).session.strings ≠
      (convert {} smallImage).session.strings := by
  have hbefore : (convert {} smallImage).session.strings.map (·.texts[1]?) =
      some (some "a") := by decide +kernel
  have hafter : ((convert {} smallImage).session.visit {} doubledImage).session.strings.map
      (·.texts[1]?) = some (some "b") := by decide +kernel
  refine ⟨by decide +kernel, fun he => ?_⟩
  rw [he, hbefore] at hafter
  exact absurd hafter (by decide)

end Checkpoint
