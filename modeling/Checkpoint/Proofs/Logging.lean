import Checkpoint.Proofs.Reuse

/-! # Logging on the way

A visit gathers what happens, to be logged. Here it is logged as it happens, by a walk that has a
log beside what it writes. The walk does what the visit does, whatever the log keeps; and of what is
logged, a log that keeps less lacks nothing but what it does not keep. -/
namespace Checkpoint

/-- How far a walk through an image has come. -/
structure Progress where
  session : Session := {}
  log : Log
  written : List Markup := []

/-- A step through an image. What it has written, logged and counted stays when it fails. -/
abbrev Walk := EStateM Failure Progress

namespace Walk

/-- Logs an event as it happens. -/
def note (event : Event) : Walk Unit := modify fun p => { p with log := event.logTo p.log }

def write (items : List Markup) : Walk Unit :=
  modify fun p => { p with written := p.written ++ items }

def keepStrings (strings : Option StringTable) : Walk Unit :=
  modify fun p => { p with session.strings := strings }

def countRecords (name : String) (count : Nat) : Walk Unit :=
  modify fun p => { p with session.records := p.session.records.add name count }

/-- Checks that nothing is left of a section. -/
def finishSection (settings : Settings) (name : String) (rest : ByteStream) : Walk Unit :=
  match ((Transcriber.expectEnd : Scribe Unit).run rest).outcome with
  | .ok () => pure ()
  | .error (.count cause) =>
    if settings.strict then throw ⟨.count cause, some name⟩ else note (.forgiven cause)
  | .error problem => throw ⟨problem, some name⟩

/-- Ends a section when its records have been read and counted. -/
def close (settings : Settings) (name : String) (count : Nat) (rest : ByteStream) : Walk Unit := do
  finishSection settings name rest
  countRecords name count
  note (.finished name count)

def known (settings : Settings) (stream : ByteStream) (entry : SectionEntry) (kind : SectionKind) :
    Walk Unit := do
  note (.started entry)
  let p ← get
  let run := (kind.scribe p.session.strings).run stream
  write run.written
  match run.outcome with
  | .error problem => throw ⟨problem, some entry.name⟩
  | .ok (count, strings) =>
    keepStrings strings
    close settings entry.name count run.stream

def visitSection (settings : Settings) (streamOf : SectionEntry → ByteStream)
    (entry : SectionEntry) : Walk Unit :=
  match entry.kind with
  | none => note (.skipped entry.name)
  | some kind => known settings (streamOf entry) entry kind

def visitSections (settings : Settings) (streamOf : SectionEntry → ByteStream) :
    List SectionEntry → Walk Unit
  | [] => pure ()
  | entry :: rest => do
    visitSection settings streamOf entry
    visitSections settings streamOf rest

/-- Converts an image and logs what happens on the way. -/
def visitImage (settings : Settings) (image : Bytes) : Walk Unit :=
  match Summary.read image with
  | .error cause => throw ⟨.format cause, none⟩
  | .ok summary =>
    match settings.codecs.choose summary.codec with
    | .error cause => throw ⟨.format cause, none⟩
    | .ok codec => do
      note (.opened summary)
      write (summary.markup settings.revision)
      visitSections settings (codec.stream image) (SectionEntry.visitOrder summary.sections)
      write [.closing "fsimage" true]

end Walk

/-- Where a walk stands after a visit, and the failure that has ended it there. -/
def Visit.result (visit : Visit) (p : Progress) : EStateM.Result Failure Progress Unit :=
  let q : Progress := ⟨visit.session, visit.logTo p.log, p.written ++ visit.written⟩
  match visit.failure with
  | none => .ok () q
  | some failure => .error failure q

theorem Visit.result_andThen (first : Visit) (next : Session → Visit) (p : Progress) :
    (first.andThen next).result p = match first.result p with
      | .ok () q => (next q.session).result q
      | .error failure q => .error failure q := by
  cases hf : first.failure with
  | some failure => simp [result, andThen_of_failure hf, hf]
  | none => simp [result, andThen_of_none hf, hf, Visit.logTo]

namespace Walk

theorem note_eq (event : Event) (p : Progress) :
    note event p = ({ session := p.session, events := [event] } : Visit).result p := by
  rw [Visit.result, List.append_nil]
  rfl

theorem write_eq (items : List Markup) (p : Progress) :
    write items p = ({ session := p.session, written := items } : Visit).result p := rfl

theorem throw_eq (failure : Failure) (p : Progress) : (throw failure : Walk Unit) p =
    ({ session := p.session, failure := some failure } : Visit).result p := by
  rw [Visit.result, List.append_nil]
  rfl

/-- Two steps that do what two visits do, wherever the second one starts. -/
theorem bind_eq {first second : Walk Unit} {visit : Visit} {next : Session → Visit} {p : Progress}
    (hf : first p = visit.result p) (hs : ∀ q, second q = (next q.session).result q) :
    (first >>= fun _ => second) p = (visit.andThen next).result p := by
  change EStateM.bind first (fun _ => second) p = _
  rw [EStateM.bind, hf, Visit.result_andThen]
  cases visit.result p with
  | ok u q => exact hs q
  | error failure q => rfl

theorem finish_eq (name : String) (count : Nat) (p : Progress) :
    (do countRecords name count; note (.finished name count) : Walk Unit) p =
      (p.session.finish name count).result p := by
  rw [Visit.result, Session.finish, List.append_nil]
  rfl

theorem close_eq (settings : Settings) (entry : SectionEntry) (count : Nat) (rest : ByteStream)
    (p : Progress) : close settings entry.name count rest p =
      (p.session.close settings entry count rest).result p := by
  obtain ⟨unread, fault⟩ := rest
  cases unread with
  | nil =>
    cases fault with
    | none => exact finish_eq entry.name count p
    | some problem => exact throw_eq _ p
  | cons b unread =>
    change EStateM.bind (if settings.strict then _ else _) _ p =
      (if settings.strict then _ else _ : Visit).result p
    cases settings.strict with
    | true => exact throw_eq ⟨.count .leftover, some entry.name⟩ p
    | false =>
      rw [if_neg Bool.false_ne_true, if_neg Bool.false_ne_true]
      exact bind_eq (note_eq _ p) (finish_eq entry.name count)

theorem known_eq (settings : Settings) (streamOf : SectionEntry → ByteStream)
    (entry : SectionEntry) (kind : SectionKind) (p : Progress) :
    known settings (streamOf entry) entry kind p =
      (p.session.visitKnown settings streamOf entry kind).result p := by
  -- where the walk stands when the records have been read, and what it does then
  have hread : known settings (streamOf entry) entry kind p =
      (let run := (kind.scribe p.session.strings).run (streamOf entry)
      match run.outcome with
      | .error problem => throw ⟨problem, some entry.name⟩
      | .ok (count, strings) => do
        keepStrings strings
        close settings entry.name count run.stream : Walk Unit)
        ⟨p.session, (Event.started entry).logTo p.log,
          p.written ++ ((kind.scribe p.session.strings).run (streamOf entry)).written⟩ := rfl
  rw [hread]
  rcases hr : (kind.scribe p.session.strings).run (streamOf entry) with ⟨written, outcome, rest⟩
  cases outcome with
  | error problem =>
    rw [Session.visitKnown_of_error hr, Visit.result_andThen]
    exact throw_eq _ _
  | ok read =>
    rw [Session.visitKnown_of_ok hr, Visit.result_andThen]
    exact close_eq settings entry read.1 rest _

theorem section_eq (settings : Settings) (streamOf : SectionEntry → ByteStream)
    (entry : SectionEntry) (p : Progress) : visitSection settings streamOf entry p =
      (p.session.visitEntry settings streamOf entry).result p := by
  rw [visitSection, Session.visitEntry]
  cases entry.kind with
  | none => exact note_eq _ p
  | some kind => exact known_eq settings streamOf entry kind p

theorem sections_eq (settings : Settings) (streamOf : SectionEntry → ByteStream)
    (entries : List SectionEntry) (p : Progress) : visitSections settings streamOf entries p =
      (p.session.visitEntries settings streamOf entries).result p := by
  induction entries generalizing p with
  | nil =>
    change _ = ({ session := p.session } : Visit).result p
    rw [Visit.result, List.append_nil]
    rfl
  | cons entry rest ih => exact bind_eq (section_eq settings streamOf entry p) ih

theorem image_eq (settings : Settings) (bytes : Bytes) (p : Progress) :
    visitImage settings bytes p = (p.session.visit settings bytes).result p := by
  unfold visitImage Session.visit
  cases Summary.read bytes with
  | error cause => exact throw_eq _ p
  | ok summary =>
    dsimp only
    cases settings.codecs.choose summary.codec with
    | error cause => exact throw_eq _ p
    | ok codec =>
      dsimp only
      rw [Visit.andThen_assoc, Visit.result_andThen]
      exact bind_eq (sections_eq _ _ _ _) (write_eq _)

end Walk

/-- What can be seen of a conversion. -/
structure Logged where
  document : String
  records : Tally
  log : Log
  failure : Option Failure

/-- Converts an image with a log that what happens is added to. -/
def Settings.convertLogging (settings : Settings) (log : Log) (image : Bytes) : Logged :=
  match Walk.visitImage settings image { log } with
  | .ok () p => ⟨Markup.renderAll p.written, p.session.records, p.log, none⟩
  | .error failure p => ⟨Markup.renderAll p.written, p.session.records, p.log, some failure⟩

/-- Logging on the way and logging afterwards come to the same. -/
theorem Settings.convertLogging_eq (settings : Settings) (log : Log) (image : Bytes) :
    let visit := convert settings image
    settings.convertLogging log image =
      ⟨visit.document, visit.session.records, visit.logTo log, visit.failure⟩ := by
  intro visit
  have hw : Walk.visitImage settings image { log } = visit.result { log } :=
    Walk.image_eq settings image { log }
  rw [convertLogging, hw, Visit.result]
  cases visit.failure <;> rfl

/-- A fresh log holds what happens, but diagnostics only if it keeps them. -/
theorem Settings.messages_convertLogging (settings : Settings) (image : Bytes)
    (keepsDiag echoes : Bool) (level : LogLevel) :
    (settings.convertLogging { keepsDiag, echoes } image).log.messages level =
      if level != .diag || keepsDiag then Event.messages level (convert settings image).events
      else [] := by
  rw [convertLogging_eq]
  exact (Log.messages_foldl { keepsDiag, echoes } level _).trans (List.nil_append _)

end Checkpoint
