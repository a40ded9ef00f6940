import Checkpoint.Proofs.Faults
import Checkpoint.Proofs.Likeness
import Checkpoint.Proofs.Rendering
import Checkpoint.Proofs.Strict

/-! # Lenient conversion

A lenient conversion forgives bytes that are left over after the last declared record of a section,
with a warning for each such section, and nothing else: it goes exactly as the strict one up to the
first leftover bytes, and a section that ends before its declared records still ends it. -/
namespace Checkpoint

/-! ## Beside the strict visit -/

namespace Visit

/-- The visit has ended at the check for bytes that are left over. -/
def LeftOver (visit : Visit) : Prop :=
  visit.failure.map (·.problem) = some (.count .leftover)

/-- A lenient visit beside the strict one: they are the same, or the strict one has ended at bytes
that are left over and the lenient one has gone on with a warning. -/
inductive Forgives (lenient strict : Visit) : Prop
  | same : lenient = strict → strict.warnings = [] → ¬strict.LeftOver → Forgives lenient strict
  | further : strict.LeftOver → strict.written <+: lenient.written → lenient.warnings ≠ [] →
      Forgives lenient strict

variable {visit lenient strict : Visit} {next next' : Session → Visit}

theorem LeftOver.failed (h : strict.LeftOver) : ∃ failure, strict.failure = some failure := by
  unfold LeftOver at h
  cases hf : strict.failure with
  | none => rw [hf] at h; cases h
  | some failure => exact ⟨failure, rfl⟩

theorem written_prefix_andThen : visit.written <+: (visit.andThen next).written := by
  cases hf : visit.failure with
  | some failure => exact (andThen_of_failure hf).symm ▸ List.prefix_rfl
  | none => rw [andThen_of_none hf]; exact List.prefix_append _ _

/-- A visit that goes on with nothing to fail at or to warn of. -/
theorem andThen_quiet
    (hn : ∀ session, (next session).failure = none ∧ (next session).warnings = []) :
    (visit.andThen next).failure = visit.failure ∧
      (visit.andThen next).warnings = visit.warnings := by
  cases hf : visit.failure with
  | some failure =>
    rw [andThen_of_failure hf]
    exact ⟨hf, rfl⟩
  | none =>
    rw [warnings_andThen hf, andThen_of_none hf, (hn _).2, List.append_nil]
    exact ⟨(hn _).1, rfl⟩

theorem warnings_andThen_ne (h : visit.warnings ≠ []) : (visit.andThen next).warnings ≠ [] := by
  cases hf : visit.failure with
  | some failure => rw [andThen_of_failure hf]; exact h
  | none => rw [warnings_andThen hf]; exact List.append_ne_nil_of_left_ne_nil h _

theorem Forgives.andThen (hf : Forgives lenient strict)
    (hn : ∀ session, Forgives (next session) (next' session)) :
    Forgives (lenient.andThen next) (strict.andThen next') := by
  rcases hf with ⟨rfl, hw, hl⟩ | ⟨hl, hp, hw⟩
  · cases hz : lenient.failure with
    | some failure =>
      rw [andThen_of_failure hz, andThen_of_failure hz]
      exact .same rfl hw hl
    | none =>
      rcases hn lenient.session with ⟨he, hw', hl'⟩ | ⟨hl', hp', hw'⟩
      · refine .same ?_ ?_ ?_
        · rw [andThen_of_none hz, andThen_of_none hz, he]
        · rw [warnings_andThen hz, hw, hw', List.append_nil]
        · rw [andThen_of_none hz]
          exact hl'
      · refine .further ?_ ?_ ?_
        · rw [andThen_of_none hz]
          exact hl'
        · rw [andThen_of_none hz, andThen_of_none hz]
          exact (List.prefix_append_right_inj _).mpr hp'
        · rw [warnings_andThen hz]
          exact List.append_ne_nil_of_right_ne_nil _ hw'
  · -- the strict visit has ended, and whatever the lenient one does comes after
    obtain ⟨failure, hz⟩ := hl.failed
    rw [andThen_of_failure hz]
    exact .further hl (hp.trans written_prefix_andThen) (warnings_andThen_ne hw)

end Visit

namespace Session

variable {settings : Settings} {streamOf : SectionEntry → ByteStream} {entry : SectionEntry}
  {kind : SectionKind} {session : Session} {written : List Markup} {count : Nat}
  {after : Option StringTable} {rest : ByteStream} {problem : Problem}

/-- The visit of a section up to the check of what it leaves unread. -/
def begun (entry : SectionEntry) (written : List Markup) (session : Session) : Visit :=
  { session, events := [.started entry], written }

theorem visitKnown_of_ok
    (h : (kind.scribe session.strings).run (streamOf entry) = ⟨written, .ok (count, after), rest⟩) :
    session.visitKnown settings streamOf entry kind = (session.begun entry written).andThen
      fun session => ({ session with strings := after } : Session).close settings entry count
        rest := by
  simp only [visitKnown, h]
  rfl

theorem visitKnown_of_error
    (h : (kind.scribe session.strings).run (streamOf entry) = ⟨written, .error problem, rest⟩) :
    session.visitKnown settings streamOf entry kind =
      (session.begun entry written).andThen (failIn entry.name problem) := by
  simp only [visitKnown, h]
  rfl

theorem begun_forgives (session : Session) :
    (session.begun entry written).Forgives (session.begun entry written) :=
  .same rfl rfl fun h => by cases h

theorem failIn_forgives {name : String} (hp : problem ≠ .count .leftover) (session : Session) :
    (session.failIn name problem).Forgives (session.failIn name problem) :=
  .same rfl rfl fun h => hp (Option.some.inj h)

theorem close_forgives (session : Session) :
    (session.close { settings with strict := false } entry count rest).Forgives
      (session.close { settings with strict := true } entry count rest) := by
  obtain ⟨unread, fault⟩ := rest
  cases unread with
  | nil =>
    cases fault with
    | none => exact .same rfl rfl fun h => by cases h
    | some problem => exact failIn_forgives (fun h => by cases h) session
  | cons b unread =>
    have hw : ({ session, events := [.forgiven .leftover] } : Visit).warnings ≠ [] :=
      List.cons_ne_nil _ _
    exact .further rfl List.nil_prefix (Visit.warnings_andThen_ne hw)

theorem visitKnown_forgives (session : Session) :
    (session.visitKnown { settings with strict := false } streamOf entry kind).Forgives
      (session.visitKnown { settings with strict := true } streamOf entry kind) := by
  rcases hr : (kind.scribe session.strings).run (streamOf entry) with ⟨written, outcome, rest⟩
  cases outcome with
  | ok read =>
    obtain ⟨count, after⟩ := read
    rw [visitKnown_of_ok hr, visitKnown_of_ok hr]
    exact (begun_forgives session).andThen fun session => close_forgives _
  | error problem =>
    -- a section that cannot be read is not taken for one with leftover bytes
    have hp : problem ≠ .count .leftover := by
      have h := (SectionKind.composed session.strings kind).regular.error hr
      rintro rfl
      exact h
    rw [visitKnown_of_error hr, visitKnown_of_error hr]
    exact (begun_forgives session).andThen (failIn_forgives hp)

theorem visitEntries_forgives {entries : List SectionEntry} (session : Session) :
    (session.visitEntries { settings with strict := false } streamOf entries).Forgives
      (session.visitEntries { settings with strict := true } streamOf entries) := by
  induction entries generalizing session with
  | nil => exact .same rfl rfl fun h => by cases h
  | cons entry rest ih =>
    refine .andThen ?_ ih
    unfold visitEntry
    cases entry.kind with
    | none => exact .same rfl rfl fun h => by cases h
    | some kind => exact visitKnown_forgives session

/-- A lenient visit of an image beside the strict one. -/
theorem visit_forgives (image : Bytes) (session : Session) :
    (session.visit { settings with strict := false } image).Forgives
      (session.visit { settings with strict := true } image) := by
  unfold visit
  cases Summary.read image with
  | error cause => exact .same rfl rfl fun h => by cases h
  | ok summary =>
    dsimp only
    cases settings.codecs.choose summary.codec with
    | error cause => exact .same rfl rfl fun h => by cases h
    | ok codec =>
      refine .andThen (.andThen ?_ visitEntries_forgives) fun session => ?_
      · exact .same rfl rfl fun h => by cases h
      · exact .same rfl rfl fun h => by cases h

end Session

/-! ## What is forgiven -/

/-- How far sections are read when leftover bytes are passed over. -/
structure Survey where
  /-- What each known section leaves unread, as far as they are read to their last records. -/
  unread : List Bytes := []
  failure : Option Failure := none

/-- Reads the known sections one after the other, up to the first one that does not have all its
records or the end of whose stream is not reached. -/
def survey (streamOf : SectionEntry → ByteStream) :
    List SectionEntry → Option StringTable → Survey
  | [], _ => {}
  | entry :: entries, strings =>
    match entry.kind with
    | none => survey streamOf entries strings
    | some kind =>
      match (kind.scribe strings).run (streamOf entry) with
      | ⟨_, .error problem, _⟩ => { failure := some ⟨problem, some entry.name⟩ }
      | ⟨_, .ok _, ⟨[], some fault⟩⟩ => { failure := some ⟨.malformed fault, some entry.name⟩ }
      | ⟨_, .ok (_, after), rest⟩ =>
        let others := survey streamOf entries after
        { others with unread := rest.unread :: others.unread }

/-- The end of the stream is reached, or there are bytes to pass over before it. -/
def ByteStream.Passable (s : ByteStream) : Prop := s.unread = [] → s.fault = none

section Survey

variable {streamOf : SectionEntry → ByteStream} {entry : SectionEntry} {entries : List SectionEntry}
  {kind : SectionKind} {strings after : Option StringTable} {written : List Markup} {count : Nat}
  {rest : ByteStream}

theorem survey_of_ok (hk : entry.kind = some kind)
    (hr : (kind.scribe strings).run (streamOf entry) = ⟨written, .ok (count, after), rest⟩)
    (hp : rest.Passable) : survey streamOf (entry :: entries) strings =
      { survey streamOf entries after with
        unread := rest.unread :: (survey streamOf entries after).unread } := by
  obtain ⟨unread, fault⟩ := rest
  cases unread with
  | nil =>
    obtain rfl : fault = none := hp rfl
    simp only [survey, hk, hr]
  | cons b unread => simp only [survey, hk, hr]

theorem survey_of_fault (entries : List SectionEntry) (hk : entry.kind = some kind)
    (hr : (kind.scribe strings).run (streamOf entry) = ⟨written, .ok (count, after), rest⟩)
    (hp : ¬rest.Passable) : ∃ fault, rest = ⟨[], some fault⟩ ∧
      survey streamOf (entry :: entries) strings =
        { failure := some ⟨.malformed fault, some entry.name⟩ } := by
  obtain ⟨unread, fault⟩ := rest
  cases unread with
  | nil =>
    cases fault with
    | none => exact absurd (fun _ => rfl) hp
    | some fault => exact ⟨fault, rfl, by simp only [survey, hk, hr]⟩
  | cons b unread => exact absurd (fun h => by cases h) hp

end Survey

namespace Session

variable {settings : Settings} {streamOf : SectionEntry → ByteStream} {entry : SectionEntry}
  {kind : SectionKind} {session : Session} {written : List Markup} {count : Nat}
  {after : Option StringTable} {rest : ByteStream}

theorem close_of_lenient (hs : settings.strict = false) (hp : rest.Passable)
    (entry : SectionEntry) (count : Nat) (session : Session) :
    (session.close settings entry count rest).failure = none ∧
      (session.close settings entry count rest).session.strings = session.strings ∧
      (session.close settings entry count rest).warnings.length =
        [rest.unread].countP (· ≠ []) := by
  obtain ⟨unread, fault⟩ := rest
  cases unread with
  | nil =>
    obtain rfl : fault = none := hp rfl
    exact ⟨rfl, rfl, rfl⟩
  | cons b unread =>
    have hc : session.close settings entry count ⟨b :: unread, fault⟩ =
        ({ session, events := [.forgiven .leftover] } : Visit).andThen
          (finish entry.name count) := by
      change (if settings.strict then _ else _ : Visit) = _
      rw [hs]
      rfl
    rw [hc]
    exact ⟨rfl, rfl, rfl⟩

theorem visitKnown_of_lenient (hs : settings.strict = false)
    (h : (kind.scribe session.strings).run (streamOf entry) = ⟨written, .ok (count, after), rest⟩)
    (hp : rest.Passable) :
    (session.visitKnown settings streamOf entry kind).failure = none ∧
      (session.visitKnown settings streamOf entry kind).session.strings = after ∧
      (session.visitKnown settings streamOf entry kind).warnings.length =
        [rest.unread].countP (· ≠ []) := by
  obtain ⟨hf, hn, hw⟩ := close_of_lenient hs hp entry count
    { session with strings := after }
  rw [visitKnown_of_ok h]
  refine ⟨?_, ?_, ?_⟩
  · rw [Visit.andThen_of_none rfl]
    exact hf
  · rw [Visit.andThen_of_none rfl]
    exact hn
  · rw [Visit.warnings_andThen rfl, List.length_append, ← hw]
    exact Nat.zero_add _

/-- A lenient visit ends where the survey of its sections ends, and warns of each section that the
survey leaves unread in part. -/
theorem visitEntries_survey (settings : Settings) (hs : settings.strict = false)
    (streamOf : SectionEntry → ByteStream) (entries : List SectionEntry) (session : Session) :
    (session.visitEntries settings streamOf entries).failure =
        (survey streamOf entries session.strings).failure ∧
      (session.visitEntries settings streamOf entries).warnings.length =
        (survey streamOf entries session.strings).unread.countP (· ≠ []) := by
  induction entries generalizing session with
  | nil => exact ⟨rfl, rfl⟩
  | cons entry entries ih =>
    cases hk : entry.kind with
    | none =>
      have he : session.visitEntries settings streamOf (entry :: entries) =
          ({ session, events := [.skipped entry.name] } : Visit).andThen
            (visitEntries settings streamOf entries) := by
        rw [visitEntries, visitEntry, hk]
      rw [he, Visit.warnings_andThen rfl, Visit.andThen_of_none rfl, survey, hk]
      exact ih session
    | some kind =>
      have he : session.visitEntries settings streamOf (entry :: entries) =
          (session.visitKnown settings streamOf entry kind).andThen
            (visitEntries settings streamOf entries) := by
        rw [visitEntries, visitEntry, hk]
      rw [he]
      rcases hr : (kind.scribe session.strings).run (streamOf entry) with ⟨written, outcome, rest⟩
      cases outcome with
      | error problem =>
        rw [visitKnown_of_error hr, survey, hk]
        dsimp only
        rw [hr]
        exact ⟨rfl, rfl⟩
      | ok read =>
        obtain ⟨count, after⟩ := read
        by_cases hp : rest.Passable
        · obtain ⟨hf, hn, hw⟩ := visitKnown_of_lenient hs hr hp
          obtain ⟨hfs, hws⟩ := ih (session.visitKnown settings streamOf entry kind).session
          rw [hn] at hfs hws
          rw [Visit.warnings_andThen hf, Visit.andThen_of_none hf, survey_of_ok hk hr hp,
            List.length_append, hw, hws, ← List.countP_append]
          exact ⟨hfs, rfl⟩
        · obtain ⟨fault, rfl, hsurvey⟩ := survey_of_fault entries hk hr hp
          rw [visitKnown_of_ok hr, hsurvey]
          exact ⟨rfl, rfl⟩

end Session

/-- Sections whose survey ends without a failure start with all the records that they declare. -/
theorem spelled_of_survey {streamOf : SectionEntry → ByteStream} {entries : List SectionEntry}
    {names : Option NameTable} {strings : Option StringTable}
    (hd : NameTable.DescribesAny names strings)
    (h : (survey streamOf entries strings).failure = none) :
    ∀ entry ∈ entries, ∀ kind, entry.kind = some kind → ∃ (content : SectionContent)
      (taken rest : Bytes), (streamOf entry).unread = taken ++ rest ∧ content.kind = kind ∧
        content.Spells taken := by
  induction entries generalizing names strings with
  | nil => simp
  | cons entry entries ih =>
    cases hk : entry.kind with
    | none =>
      rw [survey, hk] at h
      refine List.forall_mem_cons.mpr ⟨fun kind he => ?_, ih hd h⟩
      rw [hk] at he
      cases he
    | some kind =>
      rcases hr : (kind.scribe strings).run (streamOf entry) with ⟨written, outcome, rest⟩
      cases outcome with
      | error problem =>
        simp only [survey, hk, hr] at h
        cases h
      | ok read =>
        obtain ⟨count, after⟩ := read
        by_cases hp : rest.Passable
        · rw [survey_of_ok hk hr hp] at h
          obtain ⟨taken, known, hu, ⟨content, hc, hs, -⟩, hn⟩ := SectionKind.spelled_of_run hd hr
          refine List.forall_mem_cons.mpr ⟨fun other he => ?_, ih hn h⟩
          obtain rfl := Option.some.inj (hk.symm.trans he)
          exact ⟨content, taken, rest.unread, hu, hc, hs⟩
        · obtain ⟨fault, -, hsurvey⟩ := survey_of_fault entries hk hr hp
          rw [hsurvey] at h
          cases h

/-- The survey of an image, which has nothing to read if the image cannot be opened. -/
def CodecTable.survey (codecs : CodecTable) (image : Bytes) : Survey :=
  match Summary.read image with
  | .error cause => { failure := some ⟨.format cause, none⟩ }
  | .ok summary =>
    match codecs.choose summary.codec with
    | .error cause => { failure := some ⟨.format cause, none⟩ }
    | .ok codec =>
      Checkpoint.survey (codec.stream image) (SectionEntry.visitOrder summary.sections) none

/-- A lenient visit ends where the survey of the image ends, and warns of each section that the
survey leaves unread in part. -/
theorem convert_survey {settings : Settings} (hs : settings.strict = false) (image : Bytes) :
    (convert settings image).failure = (settings.codecs.survey image).failure ∧
      (convert settings image).warnings.length =
        (settings.codecs.survey image).unread.countP (· ≠ []) := by
  unfold CodecTable.survey convert
  cases hr : Summary.read image with
  | error cause =>
    simp only [Session.visit, hr, true_and]
    rfl
  | ok summary =>
    dsimp only
    cases hc : settings.codecs.choose summary.codec with
    | error cause =>
      simp only [Session.visit, hr, hc, true_and]
      rfl
    | ok codec =>
      -- neither the start nor the end of the document can fail or be warned of
      rw [Session.visit_of_read {} settings hr hc]
      obtain ⟨hf, hw⟩ := Visit.andThen_quiet fun session : Session =>
        ⟨rfl, @Visit.warnings_eq_nil { session, written := [.closing "fsimage" true] } rfl⟩
      rw [hf, hw, Visit.warnings_andThen rfl]
      exact Session.visitEntries_survey settings hs (codec.stream image)
        (SectionEntry.visitOrder summary.sections) {}

/-- An image whose survey ends without a failure can be opened, and its known sections start with
all the records that they declare. -/
theorem CodecTable.spelled_of_survey {codecs : CodecTable} {image : Bytes}
    (h : (codecs.survey image).failure = none) :
    ∃ summary codec, Summary.read image = .ok summary ∧
      codecs.choose summary.codec = .ok codec ∧
      ∀ entry ∈ summary.sections, ∀ kind, entry.kind = some kind →
        ∃ (content : SectionContent) (taken rest : Bytes),
          (codec.stream image entry).unread = taken ++ rest ∧ content.kind = kind ∧
          content.Spells taken := by
  unfold CodecTable.survey at h
  cases hr : Summary.read image with
  | error cause =>
    rw [hr] at h
    cases h
  | ok summary =>
    rw [hr] at h
    dsimp only at h
    cases hc : codecs.choose summary.codec with
    | error cause =>
      rw [hc] at h
      cases h
    | ok codec =>
      rw [hc] at h
      refine ⟨summary, codec, rfl, hc, fun entry he kind hk => ?_⟩
      exact Checkpoint.spelled_of_survey .none h entry (SectionEntry.mem_visitOrder.mpr he) kind hk

/-- A lenient conversion is the strict one, without warnings, unless that ends at leftover bytes; it
has then a longer document and a warning. It warns once for each section that leaves bytes after its
last record, and ends at a section that does not have the records that it declares. -/
theorem convert_lenient (settings : Settings) (image : Bytes) :
    let strict := convert { settings with strict := true } image
    let lenient := convert { settings with strict := false } image
    let passed := settings.codecs.survey image
    (¬strict.LeftOver → lenient = strict ∧ lenient.warnings = []) ∧
    (strict.LeftOver →
      (∃ rest, lenient.document = strict.document ++ rest) ∧ lenient.warnings ≠ []) ∧
    lenient.failure = passed.failure ∧
    lenient.warnings.length = passed.unread.countP (· ≠ []) ∧
    (lenient.failure = none → ∃ summary codec, Summary.read image = .ok summary ∧
      settings.codecs.choose summary.codec = .ok codec ∧
      ∀ entry ∈ summary.sections, ∀ kind, entry.kind = some kind →
        ∃ (content : SectionContent) (taken rest : Bytes),
          (codec.stream image entry).unread = taken ++ rest ∧ content.kind = kind ∧
          content.Spells taken) := by
  intro strict lenient passed
  have hbeside : lenient.Forgives strict := Session.visit_forgives image {}
  have hs : ({ settings with strict := false } : Settings).strict = false := rfl
  obtain ⟨hf, hw⟩ := convert_survey hs image
  refine ⟨fun hl => ?_, fun hl => ?_, hf, hw, fun hnone => ?_⟩
  · rcases hbeside with ⟨he, hw, -⟩ | ⟨hl', -, -⟩
    · exact ⟨he, he ▸ hw⟩
    · exact absurd hl' hl
  · rcases hbeside with ⟨-, -, hl'⟩ | ⟨-, ⟨rest, hp⟩, hw⟩
    · exact absurd hl hl'
    · refine ⟨⟨Markup.renderAll rest, ?_⟩, hw⟩
      unfold Visit.document
      rw [← hp, Markup.renderAll_append]
  · exact CodecTable.spelled_of_survey (hf.symm.trans hnone)

/-- The section of inodes goes on for a byte after its last record. -/
theorem convert_lenient_longerImage :
    (∃ rest, (convert { strict := false } (smallImage.set 72 22)).document =
      (convert { strict := true } (smallImage.set 72 22)).document ++ rest) ∧
    (convert { strict := false } (smallImage.set 72 22)).failure = none ∧
    (convert { strict := false } (smallImage.set 72 22)).warnings.length = 1 := by
  have hl : (convert { strict := true } (smallImage.set 72 22)).failure.map (·.problem) =
      some (.count .leftover) := by decide +kernel
  obtain ⟨-, hfurther, hf, hw, -⟩ := convert_lenient {} (smallImage.set 72 22)
  refine ⟨(hfurther hl).1, hf.trans ?_, hw.trans ?_⟩
  · decide +kernel
  · decide +kernel

end Checkpoint
