import Checkpoint.Proofs.Likeness
import Checkpoint.Proofs.Reuse
import Checkpoint.Proofs.SectionPlans
import Checkpoint.Proofs.Strict
import Checkpoint.Proofs.WellFormed

/-! # Records that cannot be read

Two conversions that stop at a record they cannot read have written the same if the records that
they have read before say the same, section by section. The bytes of the bad record and of what
follows it leave no trace. -/
namespace Checkpoint

namespace Plan

variable {τ α : Type}

/-- A run that ends at a record that could not be read has failed. -/
theorem outcome_of_refused {plan : Plan τ α} {s : ByteStream}
    (h : (plan.follow s).refused = true) :
    ∃ problem, (plan.follow s).outcome = .error problem := by
  induction plan generalizing s with
  | done a => cases h
  | fail problem => exact ⟨problem, rfl⟩
  | write items next ih => exact ih h
  | read schema refuse next ih =>
    rcases follow_read_cases schema refuse next s with ⟨problem, t, hs⟩ | ⟨found, t, -, hs⟩
    · rw [hs]
      exact ⟨problem, rfl⟩
    · rw [hs] at h ⊢
      exact ih found h

end Plan

namespace SectionKind

/-- How the section of a kind is read and written, and which records are read. -/
def account (kind : SectionKind) (strings : Option StringTable) (s : ByteStream) :
    Account Markup (Nat × Option StringTable) :=
  (kind.plan strings (s.unread.length + 1)).follow s

variable {kind : SectionKind} {strings : Option StringTable} {s s' : ByteStream}

theorem toTranscript_account (kind : SectionKind) (strings : Option StringTable) (s : ByteStream) :
    (kind.account strings s).toTranscript = (kind.scribe strings).run s :=
  kind.toTranscript_follow_plan strings s

/-- Two sections of a kind from which the same has been read are written alike, and hand on the
same. -/
theorem account_eq_of_agree
    (ht : List.Forall₂ Taken.Agree (kind.account strings s).taken (kind.account strings s').taken)
    (hr : (kind.account strings s).refused = (kind.account strings s').refused) :
    (kind.account strings s).written = (kind.account strings s').written ∧
      ((kind.account strings s).refused = false →
        (kind.account strings s).outcome = (kind.account strings s').outcome) := by
  -- both sections are read by one plan, with a limit that is beyond the end of either stream
  have hs : kind.account strings s =
      (kind.plan strings (s.unread.length + s'.unread.length + 1)).follow s :=
    kind.follow_plan_limit strings (by omega) (by omega)
  have hs' : kind.account strings s' =
      (kind.plan strings (s.unread.length + s'.unread.length + 1)).follow s' :=
    kind.follow_plan_limit strings (by omega) (by omega)
  rw [hs, hs'] at ht hr ⊢
  exact (kind.plan_sound strings _).written_eq ht hr

end SectionKind

/-- What is read in a visit: the records of each section of a known kind that the visit comes to. -/
structure Readings where
  sections : List (List Taken) := []
  /-- Whether the visit ends at a record that cannot be read. -/
  refused : Bool := false

namespace Session

/-- What is read in a visit of sections; the visit ends in the first section that is not completed.
-/
def readings (settings : Settings) (streamOf : SectionEntry → ByteStream) :
    List SectionEntry → Session → Readings
  | [], _ => {}
  | entry :: rest, session =>
    match entry.kind with
    | none => readings settings streamOf rest session
    | some kind =>
      let account := kind.account session.strings (streamOf entry)
      let visit := session.visitKnown settings streamOf entry kind
      match visit.failure with
      | some _ => ⟨[account.taken], account.refused⟩
      | none =>
        let later := readings settings streamOf rest visit.session
        { later with sections := account.taken :: later.sections }

variable {settings : Settings} {streamOf streamOf' : SectionEntry → ByteStream}
  {entry entry' : SectionEntry} {entries entries' : List SectionEntry} {kind : SectionKind}
  {session session' : Session}

theorem written_visitKnown (session : Session) :
    (session.visitKnown settings streamOf entry kind).written =
      (kind.account session.strings (streamOf entry)).written := by
  have ha := kind.toTranscript_account session.strings (streamOf entry)
  rw [congrArg Transcript.written ha]
  rcases hr : (kind.scribe session.strings).run (streamOf entry) with ⟨written, outcome, rest⟩
  cases outcome with
  | error problem =>
    rw [visitKnown_of_error hr, Visit.andThen_of_none rfl]
    exact List.append_nil written
  | ok read =>
    obtain ⟨count, after⟩ := read
    rw [visitKnown_of_ok hr, Visit.andThen_of_none rfl]
    simp [begun, written_close]

/-- A section that is completed has been read to its end, and hands on its string table. -/
theorem account_of_visitKnown
    (h : (session.visitKnown settings streamOf entry kind).failure = none) :
    (kind.account session.strings (streamOf entry)).refused = false ∧
      ∃ count, (kind.account session.strings (streamOf entry)).outcome =
        .ok (count, (session.visitKnown settings streamOf entry kind).session.strings) := by
  have ha := kind.toTranscript_account session.strings (streamOf entry)
  rcases hr : (kind.scribe session.strings).run (streamOf entry) with ⟨written, outcome, rest⟩
  rw [hr] at ha
  have ho := congrArg Transcript.outcome ha
  cases outcome with
  | error problem =>
    rw [visitKnown_of_error hr, Visit.andThen_of_none rfl] at h
    cases h
  | ok read =>
    obtain ⟨count, after⟩ := read
    refine ⟨?_, count, ?_⟩
    · cases hf : (kind.account session.strings (streamOf entry)).refused with
      | false => rfl
      | true =>
        obtain ⟨problem, hp⟩ := Plan.outcome_of_refused hf
        cases hp.symm.trans ho
    · rw [visitKnown_of_ok hr, Visit.andThen_of_none rfl]
      dsimp only
      rw [strings_close]
      exact ho

section Agree

variable (hs : session.strings = session'.strings)
  (ht : List.Forall₂ Taken.Agree (kind.account session.strings (streamOf entry)).taken
    (kind.account session'.strings (streamOf' entry')).taken)
include hs ht

/-- Two sections from which the same has been read are written alike, if both are completed or both
end at a record. -/
theorem written_visitKnown_of_agree
    (hr : (kind.account session.strings (streamOf entry)).refused =
      (kind.account session'.strings (streamOf' entry')).refused) :
    (session.visitKnown settings streamOf entry kind).written =
      (session'.visitKnown settings streamOf' entry' kind).written := by
  rw [written_visitKnown, written_visitKnown]
  rw [← hs] at ht hr ⊢
  exact (SectionKind.account_eq_of_agree ht hr).1

/-- Two completed sections from which the same has been read hand on the same string table. -/
theorem strings_visitKnown_of_agree
    (hf : (session.visitKnown settings streamOf entry kind).failure = none)
    (hf' : (session'.visitKnown settings streamOf' entry' kind).failure = none) :
    (session.visitKnown settings streamOf entry kind).session.strings =
      (session'.visitKnown settings streamOf' entry' kind).session.strings := by
  obtain ⟨hr, count, ho⟩ := account_of_visitKnown hf
  obtain ⟨hr', count', ho'⟩ := account_of_visitKnown hf'
  rw [← hs] at ht hr' ho'
  have he := (SectionKind.account_eq_of_agree ht (hr.trans hr'.symm)).2 hr
  rw [ho, ho', Except.ok.injEq, Prod.mk.injEq] at he
  exact he.2

end Agree

section Cons

theorem readings_of_none (hk : entry.kind = none) (session : Session) :
    session.readings settings streamOf (entry :: entries) =
      session.readings settings streamOf entries := by
  rw [readings, hk]

theorem readings_of_failure (hk : entry.kind = some kind) {failure : Failure}
    (hf : (session.visitKnown settings streamOf entry kind).failure = some failure) :
    session.readings settings streamOf (entry :: entries) =
      ⟨[(kind.account session.strings (streamOf entry)).taken],
        (kind.account session.strings (streamOf entry)).refused⟩ := by
  rw [readings, hk]
  dsimp only
  rw [hf]

theorem readings_of_done (hk : entry.kind = some kind)
    (hf : (session.visitKnown settings streamOf entry kind).failure = none) :
    session.readings settings streamOf (entry :: entries) =
      let later := readings settings streamOf entries
        (session.visitKnown settings streamOf entry kind).session
      { later with
        sections := (kind.account session.strings (streamOf entry)).taken :: later.sections } := by
  rw [readings, hk]
  dsimp only
  rw [hf]

end Cons

/-- Sections of unknown kinds are not read. -/
theorem readings_filter (entries : List SectionEntry) (session : Session) :
    session.readings settings streamOf entries =
      session.readings settings streamOf (entries.filter (·.kind.isSome)) := by
  induction entries generalizing session with
  | nil => rfl
  | cons entry rest ih =>
    cases hk : entry.kind with
    | none =>
      rw [readings_of_none hk, ih, List.filter_cons_of_neg (by simp [hk])]
    | some kind =>
      rw [List.filter_cons_of_pos (by simp [hk])]
      cases hf : (session.visitKnown settings streamOf entry kind).failure with
      | some failure => rw [readings_of_failure hk hf, readings_of_failure hk hf]
      | none => rw [readings_of_done hk hf, readings_of_done hk hf, ih]

/-- A visit that stops at a record stops in the section of the record. -/
theorem sections_ne_nil_of_refused
    (h : (session.readings settings streamOf entries).refused = true) :
    (session.readings settings streamOf entries).sections ≠ [] := by
  induction entries generalizing session with
  | nil => cases h
  | cons entry rest ih =>
    cases hk : entry.kind with
    | none =>
      rw [readings_of_none hk] at h ⊢
      exact ih h
    | some kind =>
      cases hf : (session.visitKnown settings streamOf entry kind).failure with
      | some failure => rw [readings_of_failure hk hf]; exact List.cons_ne_nil _ _
      | none => rw [readings_of_done hk hf]; exact List.cons_ne_nil _ _

/-- A visit that stops at a record has failed. -/
theorem failure_of_refused (h : (session.readings settings streamOf entries).refused = true) :
    ∃ failure, (session.visitEntries settings streamOf entries).failure = some failure := by
  induction entries generalizing session with
  | nil => cases h
  | cons entry rest ih =>
    rw [visitEntries, visitEntry]
    cases hk : entry.kind with
    | none =>
      rw [readings_of_none hk] at h
      rw [Visit.andThen_of_none rfl]
      exact ih h
    | some kind =>
      dsimp only
      cases hf : (session.visitKnown settings streamOf entry kind).failure with
      | some failure => exact ⟨failure, by rw [Visit.andThen_of_failure hf, hf]⟩
      | none =>
        rw [readings_of_done hk hf] at h
        rw [Visit.andThen_of_none hf]
        exact ih h

/-- Two visits of sections of the same kinds that stop at a record, after having read the same, have
written the same. -/
theorem written_eq_of_readings (hk : entries.map SectionEntry.kind = entries'.map SectionEntry.kind)
    (hs : session.strings = session'.strings)
    (hr : (session.readings settings streamOf entries).refused = true)
    (hr' : (session'.readings settings streamOf' entries').refused = true)
    (ht : List.Forall₂ (List.Forall₂ Taken.Agree)
      (session.readings settings streamOf entries).sections
      (session'.readings settings streamOf' entries').sections) :
    (session.visitEntries settings streamOf entries).written =
      (session'.visitEntries settings streamOf' entries').written := by
  induction entries generalizing entries' session session' with
  | nil => cases hr
  | cons entry rest ih =>
    cases entries' with
    | nil => cases hk
    | cons entry' rest' =>
      obtain ⟨hfirst, hrest⟩ := List.cons.inj hk
      rw [visitEntries, visitEntry, visitEntries, visitEntry]
      cases hentry : entry.kind with
      | none =>
        have hentry' : entry'.kind = none := hfirst ▸ hentry
        rw [readings_of_none hentry] at hr ht
        rw [readings_of_none hentry'] at hr' ht
        rw [hentry', Visit.andThen_of_none rfl, Visit.andThen_of_none rfl]
        exact ih hrest hs hr hr' ht
      | some kind =>
        have hentry' : entry'.kind = some kind := hfirst ▸ hentry
        rw [hentry']
        dsimp only
        cases hf : (session.visitKnown settings streamOf entry kind).failure with
        | some failure =>
          rw [readings_of_failure hentry hf] at hr ht
          cases hf' : (session'.visitKnown settings streamOf' entry' kind).failure with
          | some failure' =>
            rw [readings_of_failure hentry' hf'] at hr' ht
            rw [Visit.andThen_of_failure hf, Visit.andThen_of_failure hf']
            exact written_visitKnown_of_agree hs (List.forall₂_cons.mp ht).1 (hr.trans hr'.symm)
          | none =>
            rw [readings_of_done hentry' hf'] at hr' ht
            cases sections_ne_nil_of_refused hr' (List.forall₂_nil_left_iff.mp
              (List.forall₂_cons.mp ht).2)
        | none =>
          rw [readings_of_done hentry hf] at hr ht
          cases hf' : (session'.visitKnown settings streamOf' entry' kind).failure with
          | some failure' =>
            rw [readings_of_failure hentry' hf'] at hr' ht
            cases sections_ne_nil_of_refused hr (List.forall₂_nil_right_iff.mp
              (List.forall₂_cons.mp ht).2)
          | none =>
            rw [readings_of_done hentry' hf'] at hr' ht
            obtain ⟨hsection, hlater⟩ := List.forall₂_cons.mp ht
            have hd := (account_of_visitKnown hf).1
            have hd' := (account_of_visitKnown hf').1
            rw [Visit.andThen_of_none hf, Visit.andThen_of_none hf']
            exact congrArg₂ (· ++ ·)
              (written_visitKnown_of_agree hs hsection (hd.trans hd'.symm))
              (ih hrest (strings_visitKnown_of_agree hs hsection hf hf') hr hr' hlater)

end Session

/-! ## Conversions -/

/-- The names of the known sections, in the order in which they are visited. -/
def Summary.knownNames (summary : Summary) : List String :=
  ((SectionEntry.visitOrder summary.sections).filter (·.kind.isSome)).map SectionEntry.name

/-- What is read of the sections of an image; nothing if the image cannot be opened. -/
def Settings.readings (settings : Settings) (image : Bytes) : Readings :=
  match Summary.read image with
  | .error _ => {}
  | .ok summary =>
    match settings.codecs.choose summary.codec with
    | .error _ => {}
    | .ok codec =>
      ({} : Session).readings settings (codec.stream image)
        (SectionEntry.visitOrder summary.sections)

namespace Settings

variable {settings : Settings} {image : Bytes} {summary : Summary}

/-- A conversion that stops at a record has opened the image and visited its sections. -/
theorem exists_codec_of_refused (hr : Summary.read image = .ok summary)
    (hf : (settings.readings image).refused = true) :
    ∃ codec, settings.codecs.choose summary.codec = .ok codec ∧
      settings.readings image = ({} : Session).readings settings (codec.stream image)
        (SectionEntry.visitOrder summary.sections) := by
  rw [readings, hr] at hf ⊢
  dsimp only at hf ⊢
  cases hc : settings.codecs.choose summary.codec with
  | error cause => rw [hc] at hf; cases hf
  | ok codec => exact ⟨codec, rfl, rfl⟩

/-- What has been written by a conversion that stops at a record. -/
theorem written_of_refused (hr : Summary.read image = .ok summary)
    {codec : CodecChoice} (hc : settings.codecs.choose summary.codec = .ok codec)
    (hf : (({} : Session).readings settings (codec.stream image)
      (SectionEntry.visitOrder summary.sections)).refused = true) :
    (convert settings image).written = summary.markup settings.revision ++
      (({} : Session).visitEntries settings (codec.stream image)
        (SectionEntry.visitOrder summary.sections)).written := by
  obtain ⟨failure, hfailure⟩ := Session.failure_of_refused hf
  let start : Visit :=
    { session := {}, events := [.opened summary], written := summary.markup settings.revision }
  have hstop : (start.andThen (Session.visitEntries settings (codec.stream image)
      (SectionEntry.visitOrder summary.sections))).failure = some failure := by
    rw [Visit.andThen_of_none rfl]
    exact hfailure
  rw [convert, Session.visit_of_read {} settings hr hc, Visit.andThen_of_failure hstop,
    Visit.andThen_of_none rfl]

end Settings

/-- The text of a failed conversion, when a record cannot be read, depends only on the records
before it. Two images of one layout version, with known sections of the same names, are converted to
the same text if both conversions stop at a record and have read the same before, section by
section. -/
theorem text_before_bad_record (settings : Settings) {image image' : Bytes}
    {summary summary' : Summary} (hr : Summary.read image = .ok summary)
    (hr' : Summary.read image' = .ok summary')
    (hl : summary.layoutVersion = summary'.layoutVersion)
    (hn : summary.knownNames = summary'.knownNames)
    (hf : (settings.readings image).refused = true)
    (hf' : (settings.readings image').refused = true)
    (ht : List.Forall₂ (List.Forall₂ Taken.Agree) (settings.readings image).sections
      (settings.readings image').sections) :
    (convert settings image).document = (convert settings image').document := by
  obtain ⟨codec, hc, hreadings⟩ := Settings.exists_codec_of_refused hr hf
  obtain ⟨codec', hc', hreadings'⟩ := Settings.exists_codec_of_refused hr' hf'
  rw [hreadings] at hf ht
  rw [hreadings'] at hf' ht
  have hv : summary.ondiskVersion = summary'.ondiskVersion :=
    (Summary.ondiskVersion_of_read hr).trans (Summary.ondiskVersion_of_read hr').symm
  have hm : summary.markup settings.revision = summary'.markup settings.revision := by
    rw [Summary.markup, Summary.markup, hl, hv]
  have hk := congrArg (List.map SectionKind.ofName?) hn
  rw [Summary.knownNames, Summary.knownNames, List.map_map, List.map_map] at hk
  have hw := Visit.Alike.written (Session.visitEntries_filter settings (codec.stream image)
    (SectionEntry.visitOrder summary.sections) {})
  have hw' := Visit.Alike.written (Session.visitEntries_filter settings (codec'.stream image')
    (SectionEntry.visitOrder summary'.sections) {})
  rw [Visit.document, Visit.document, Settings.written_of_refused hr hc hf,
    Settings.written_of_refused hr' hc' hf', hm, hw, hw']
  rw [Session.readings_filter (SectionEntry.visitOrder summary.sections)] at hf ht
  rw [Session.readings_filter (SectionEntry.visitOrder summary'.sections)] at hf' ht
  exact congrArg (fun written => Markup.renderAll (summary'.markup settings.revision ++ written))
    (Session.written_eq_of_readings hk rfl hf hf' ht)

/-- The image of one directory, with other bytes in place of its second row of children. -/
def damagedImage (row : Bytes) : Bytes := smallImage.take 34 ++ row ++ smallImage.drop 39

/-- Whether the second row has a field of number zero or is longer than the section, it leaves no
text. -/
theorem text_before_bad_record_damaged :
    (({} : Settings).readings (damagedImage [4, 0, 2, 16, 3])).refused = true ∧
    (({} : Settings).readings (damagedImage [9, 8, 2, 16, 3])).refused = true ∧
    (convert {} (damagedImage [4, 0, 2, 16, 3])).document =
      (convert {} (damagedImage [9, 8, 2, 16, 3])).document := by
  have hread : ∀ row ∈ [[4, 0, 2, 16, 3], [9, 8, 2, 16, 3]],
      Summary.read (damagedImage row) = .ok smallSummary := by
    decide +kernel
  have hr := hread [4, 0, 2, 16, 3] (by simp)
  have hr' := hread [9, 8, 2, 16, 3] (by simp)
  have hf : (({} : Settings).readings (damagedImage [4, 0, 2, 16, 3])).refused = true := by
    decide +kernel
  have hf' : (({} : Settings).readings (damagedImage [9, 8, 2, 16, 3])).refused = true := by
    decide +kernel
  have ht : (({} : Settings).readings (damagedImage [4, 0, 2, 16, 3])).sections =
      (({} : Settings).readings (damagedImage [9, 8, 2, 16, 3])).sections := by
    rw [Settings.readings, Settings.readings, hr, hr']
    with_unfolding_all rfl
  refine ⟨hf, hf', text_before_bad_record {} hr hr' rfl rfl hf hf' ?_⟩
  rw [ht]
  exact List.forall₂_same.mpr fun taken _ => List.forall₂_same.mpr fun t _ => ⟨rfl, .refl _ _⟩

end Checkpoint
