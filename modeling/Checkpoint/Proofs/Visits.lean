import Checkpoint.Conversion
import Checkpoint.Proofs.Sections

/-! # Visits

A strict visit ends without a failure exactly if every section of a known kind is read to its end;
it writes then what the sections write, one after the other. Of what an earlier section leaves to
a later one only the string table matters. -/
namespace Checkpoint

/-- Sections that are read to their ends, with the string table before and after them and what they
write. -/
inductive Copied (streamOf : SectionEntry → ByteStream) :
    List SectionEntry → Option StringTable → List Markup → Option StringTable → Prop
  | nil {strings} : Copied streamOf [] strings [] strings
  | skipped {entry rest strings written after} : entry.kind = none →
      Copied streamOf rest strings written after →
      Copied streamOf (entry :: rest) strings written after
  | read {entry rest kind strings between after written others count} : entry.kind = some kind →
      (kind.scribe strings).run (streamOf entry) =
        ⟨written, .ok (count, between), ⟨[], none⟩⟩ →
      Copied streamOf rest between others after →
      Copied streamOf (entry :: rest) strings (written ++ others) after

namespace Visit

variable {first : Visit} {next : Session → Visit}

/-- A visit that has ended without a failure, by what it has written and the string table it
leaves. -/
structure Done (visit : Visit) (written : List Markup) (after : Option StringTable) : Prop where
  failure : visit.failure = none
  written : visit.written = written
  strings : visit.session.strings = after

/-- A visit that a failure has ended, by what it has written. -/
structure Broken (visit : Visit) (written : List Markup) (failure : Failure) : Prop where
  failure : visit.failure = some failure
  written : visit.written = written

theorem andThen_of_done {written after} (h : first.Done written after) :
    first.andThen next = { next first.session with
      written := written ++ (next first.session).written
      events := first.events ++ (next first.session).events } := by
  rw [andThen, h.failure, ← h.written]

theorem Done.andThen {written more strings after} (h : first.Done written strings)
    (hn : (next first.session).Done more after) :
    (first.andThen next).Done (written ++ more) after := by
  rw [andThen_of_done h]
  exact ⟨hn.failure, by rw [hn.written], hn.strings⟩

theorem Done.andThen_broken {written more strings failure} (h : first.Done written strings)
    (hn : (next first.session).Broken more failure) :
    (first.andThen next).Broken (written ++ more) failure := by
  rw [andThen_of_done h]
  exact ⟨hn.failure, by rw [hn.written]⟩

theorem Broken.andThen {written failure} (h : first.Broken written failure) :
    (first.andThen next).Broken written failure := by
  rw [Visit.andThen, h.failure]
  exact h

/-- What ends without a failure is made of two visits that do. -/
theorem done_of_andThen (h : (first.andThen next).failure = none) :
    first.Done first.written first.session.strings ∧ (next first.session).failure = none := by
  rw [andThen] at h
  cases hf : first.failure with
  | some failure => rw [hf] at h; simp [hf] at h
  | none => rw [hf] at h; exact ⟨⟨hf, rfl, rfl⟩, h⟩

end Visit

namespace Session

variable {settings : Settings} {streamOf : SectionEntry → ByteStream} {entry : SectionEntry}
  {session : Session} {written : List Markup} {strings after : Option StringTable}

/-- A strict visit does not forgive bytes that are left over. -/
theorem eq_end_of_close {count : Nat} {rest : ByteStream} (hs : settings.strict = true)
    (h : (session.close settings entry count rest).failure = none) : rest = ⟨[], none⟩ := by
  obtain ⟨unread, fault⟩ := rest
  cases unread with
  | nil =>
    cases fault with
    | none => rfl
    | some problem => cases h
  | cons b unread =>
    change (if settings.strict then _ else _ : Visit).failure = none at h
    rw [hs, if_pos rfl] at h
    cases h

theorem visitKnown_done {kind : SectionKind} {count : Nat}
    (h : (kind.scribe session.strings).run (streamOf entry) =
      ⟨written, .ok (count, after), ⟨[], none⟩⟩) :
    (session.visitKnown settings streamOf entry kind).Done written after := by
  simp only [visitKnown, h]
  exact ⟨rfl, List.append_nil _, rfl⟩

theorem visitKnown_broken {kind : SectionKind} {problem : Problem} {s : ByteStream}
    (h : (kind.scribe session.strings).run (streamOf entry) = ⟨written, .error problem, s⟩) :
    (session.visitKnown settings streamOf entry kind).Broken written
      ⟨problem, some entry.name⟩ := by
  simp only [visitKnown, h]
  exact ⟨rfl, List.append_nil _⟩

theorem run_of_visitKnown {kind : SectionKind} (hs : settings.strict = true)
    (h : (session.visitKnown settings streamOf entry kind).failure = none) :
    ∃ written count after, (kind.scribe session.strings).run (streamOf entry) =
      ⟨written, .ok (count, after), ⟨[], none⟩⟩ := by
  simp only [visitKnown] at h
  rcases hr : (kind.scribe session.strings).run (streamOf entry) with ⟨written, outcome, rest⟩
  rw [hr] at h
  obtain ⟨-, h⟩ := Visit.done_of_andThen h
  cases outcome with
  | error problem => cases h
  | ok read =>
    obtain ⟨count, after⟩ := read
    obtain rfl : rest = ⟨[], none⟩ := eq_end_of_close hs h
    exact ⟨written, count, after, rfl⟩

variable {entries more : List SectionEntry}

/-- Sections that are read to their ends are visited without a failure. -/
theorem visitEntries_done (h : Copied streamOf entries strings written after) :
    ∀ session : Session, session.strings = strings →
      (session.visitEntries settings streamOf entries).Done written after := by
  induction h with
  | nil => exact fun session hs => ⟨rfl, rfl, hs⟩
  | @skipped entry rest strings written after hk _ ih =>
    intro session hs
    have he : (session.visitEntry settings streamOf entry).Done [] strings := by
      rw [visitEntry, hk]
      exact ⟨rfl, rfl, hs⟩
    exact he.andThen (ih _ he.strings)
  | @read entry rest kind strings between after written others count hk hr _ ih =>
    rintro session rfl
    have he : (session.visitEntry settings streamOf entry).Done written between := by
      rw [visitEntry, hk]
      exact visitKnown_done hr
    exact he.andThen (ih _ he.strings)

/-- A strict visit that ends without a failure has read the sections to their ends. -/
theorem copied_of_visitEntries (hs : settings.strict = true) :
    ∀ session : Session, (session.visitEntries settings streamOf entries).failure = none →
      ∃ written after, Copied streamOf entries session.strings written after := by
  induction entries with
  | nil => exact fun session _ => ⟨_, _, .nil⟩
  | cons entry rest ih =>
    intro session h
    obtain ⟨hd, hn⟩ := Visit.done_of_andThen h
    obtain ⟨others, after, hc⟩ := ih _ hn
    cases hk : entry.kind with
    | none =>
      rw [visitEntry, hk] at hc
      exact ⟨others, after, .skipped hk hc⟩
    | some kind =>
      have hf := hd.failure
      rw [visitEntry, hk] at hf
      obtain ⟨written, count, between, hr⟩ := run_of_visitKnown hs hf
      have hb : (session.visitKnown settings streamOf entry kind).session.strings = between :=
        (visitKnown_done hr).strings
      rw [visitEntry, hk] at hc
      rw [hb] at hc
      exact ⟨written ++ others, after, .read hk hr hc⟩

/-- What has been visited before a failure stays written. -/
theorem visitEntries_broken {kind : SectionKind} {before : List Markup} {problem : Problem}
    {s : ByteStream} (h : Copied streamOf entries strings written after)
    (hk : entry.kind = some kind)
    (hr : (kind.scribe after).run (streamOf entry) = ⟨before, .error problem, s⟩) :
    ∀ session : Session, session.strings = strings →
      (session.visitEntries settings streamOf (entries ++ entry :: more)).Broken
        (written ++ before) ⟨problem, some entry.name⟩ := by
  induction h with
  | nil =>
    rintro session rfl
    have he : (session.visitEntry settings streamOf entry).Broken before
        ⟨problem, some entry.name⟩ := by
      rw [visitEntry, hk]
      exact visitKnown_broken hr
    exact he.andThen
  | @skipped first rest strings written after hf _ ih =>
    intro session hs
    have he : (session.visitEntry settings streamOf first).Done [] strings := by
      rw [visitEntry, hf]
      exact ⟨rfl, rfl, hs⟩
    exact he.andThen_broken (ih hr _ he.strings)
  | @read first rest kind' strings between after written others count hf hc _ ih =>
    rintro session rfl
    have he : (session.visitEntry settings streamOf first).Done written between := by
      rw [visitEntry, hf]
      exact visitKnown_done hc
    rw [List.append_assoc]
    exact he.andThen_broken (ih hr _ he.strings)

end Session

namespace Copied

variable {streamOf streamOf' : SectionEntry → ByteStream} {entries more : List SectionEntry}
  {written : List Markup} {strings after : Option StringTable}

theorem congr (h : Copied streamOf entries strings written after)
    (hs : ∀ entry ∈ entries, streamOf' entry = streamOf entry) :
    Copied streamOf' entries strings written after := by
  induction h with
  | nil => exact .nil
  | skipped hk _ ih => exact .skipped hk (ih fun entry he => hs entry (by simp [he]))
  | read hk hr _ ih =>
    exact .read hk (by rw [hs _ (by simp)]; exact hr) (ih fun entry he => hs entry (by simp [he]))

theorem append {mid : Option StringTable} {others : List Markup}
    (h : Copied streamOf entries strings written mid) (hm : Copied streamOf more mid others after) :
    Copied streamOf (entries ++ more) strings (written ++ others) after := by
  induction h with
  | nil => exact hm
  | skipped hk _ ih => exact .skipped hk (ih hm)
  | read hk hr _ ih => rw [List.append_assoc]; exact .read hk hr (ih hm)

theorem of_append (h : Copied streamOf (entries ++ more) strings written after) :
    ∃ before mid others, written = before ++ others ∧ Copied streamOf entries strings before mid ∧
      Copied streamOf more mid others after := by
  induction entries generalizing strings written with
  | nil => exact ⟨[], strings, written, rfl, .nil, h⟩
  | cons entry rest ih =>
    cases h with
    | skipped hk hc =>
      obtain ⟨before, mid, others, rfl, hb, ho⟩ := ih hc
      exact ⟨before, mid, others, rfl, .skipped hk hb, ho⟩
    | read hk hr hc =>
      obtain ⟨before, mid, others, rfl, hb, ho⟩ := ih hc
      exact ⟨_, mid, others, by rw [List.append_assoc], .read hk hr hb, ho⟩

end Copied

/-- The sections of an image that is not compressed, read to their ends. -/
abbrev CopiedFrom (image : Bytes) := Copied (CodecChoice.stored.stream image)

/-- An image that can be opened is visited section by section, between the start and the end of the
document. -/
theorem Session.visit_of_read (session : Session) (settings : Settings) {image : Bytes}
    {summary : Summary} {codec : CodecChoice} (hr : Summary.read image = .ok summary)
    (hc : settings.codecs.choose summary.codec = .ok codec) : session.visit settings image =
      (({ session, events := [.opened summary], written := summary.markup settings.revision } :
        Visit).andThen (visitEntries settings (codec.stream image)
          (SectionEntry.visitOrder summary.sections))).andThen fun session =>
            { session, written := [.closing "fsimage" true] } := by
  simp only [visit, hr, hc]

section Convert

variable {image : Bytes} {summary : Summary} {written : List Markup} {after : Option StringTable}

/-- Converting an image that is not compressed is a visit of its sections in their order. -/
theorem convert_of_read (revision : String) (hr : Summary.read image = .ok summary)
    (hc : summary.codec = "") : convert { revision } image =
      (({ session := {}, events := [.opened summary], written := summary.markup revision } :
        Visit).andThen (Session.visitEntries { revision } (CodecChoice.stored.stream image)
          (SectionEntry.visitOrder summary.sections))).andThen fun session =>
            { session, written := [.closing "fsimage" true] } := by
  refine Session.visit_of_read {} { revision } hr ?_
  rw [hc]
  rfl

theorem convert_done (revision : String) (hr : Summary.read image = .ok summary)
    (hc : summary.codec = "")
    (h : CopiedFrom image (SectionEntry.visitOrder summary.sections) none written after) :
    (convert { revision } image).Done
      (summary.markup revision ++ written ++ [.closing "fsimage" true]) after := by
  rw [convert_of_read revision hr hc]
  have hs : ({ session := {}, events := [.opened summary], written := summary.markup revision } :
      Visit).Done (summary.markup revision) none := ⟨rfl, rfl, rfl⟩
  have hv : (Visit.andThen _ (Session.visitEntries { revision } (CodecChoice.stored.stream image)
      (SectionEntry.visitOrder summary.sections))).Done (summary.markup revision ++ written) after :=
    hs.andThen (Session.visitEntries_done h _ rfl)
  exact hv.andThen ⟨rfl, rfl, hv.strings⟩

theorem copied_of_convert {revision : String} (hr : Summary.read image = .ok summary)
    (hc : summary.codec = "") (h : (convert { revision } image).failure = none) :
    ∃ written after,
      CopiedFrom image (SectionEntry.visitOrder summary.sections) none written after := by
  rw [convert_of_read revision hr hc] at h
  have hv := (Visit.done_of_andThen h).1.failure
  exact Session.copied_of_visitEntries rfl _ (Visit.done_of_andThen hv).2

theorem convert_broken (revision : String) (hr : Summary.read image = .ok summary)
    (hc : summary.codec = "") {entries more : List SectionEntry} {entry : SectionEntry}
    (ho : SectionEntry.visitOrder summary.sections = entries ++ entry :: more)
    (h : CopiedFrom image entries none written after) {kind : SectionKind}
    (hk : entry.kind = some kind) {before : List Markup} {problem : Problem} {s : ByteStream}
    (he : (kind.scribe after).run (CodecChoice.stored.stream image entry) =
      ⟨before, .error problem, s⟩) :
    (convert { revision } image).Broken (summary.markup revision ++ (written ++ before))
      ⟨problem, some entry.name⟩ := by
  rw [convert_of_read revision hr hc, ho]
  have hs : ({ session := {}, events := [.opened summary], written := summary.markup revision } :
      Visit).Done (summary.markup revision) none := ⟨rfl, rfl, rfl⟩
  exact (hs.andThen_broken (Session.visitEntries_broken h hk he _ rfl)).andThen

end Convert

end Checkpoint
