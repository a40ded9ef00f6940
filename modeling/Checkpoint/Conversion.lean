import Checkpoint.Codec.Table
import Checkpoint.Document.Section
import Checkpoint.Image.Container
import Checkpoint.Log
import Checkpoint.Tally

/-! # Conversion

Turning an image into a document. The sections are visited in the order of their kinds; each is read
from a stream of its own and written as it is read. A failure ends the visit, and what has been
written before it stays. -/
namespace Checkpoint

def programVersion : String := "1.0.0"

structure Settings where
  /-- Whether bytes left over after the last declared record are a failure. -/
  strict : Bool := true
  /-- What the document says it was written by. -/
  revision : String := programVersion
  codecs : CodecTable := Codec.table

/-- What is kept from one image to the next. -/
structure Session where
  strings : Option StringTable := none
  /-- How many records have been converted, by section name. -/
  records : Tally := []

inductive Event where
  | opened (summary : Summary)
  /-- A section of an unknown kind has been passed over. -/
  | skipped (name : String)
  | started (entry : SectionEntry)
  /-- Bytes left over in a section have been forgiven. -/
  | forgiven (cause : CountProblem)
  | finished (name : String) (count : Nat)

namespace Event

def level : Event → LogLevel
  | forgiven _ => .warn
  | opened _ | skipped _ | started _ | finished _ _ => .diag

def message : Event → String
  | opened summary =>
    let codec := if summary.codec.isEmpty then "none" else summary.codec
    s!"Image layout {summary.layoutVersion}, codec {codec}, {summary.sections.length} sections"
  | skipped name => s!"Skipping unknown section {Text.quoted name}"
  | started entry =>
    s!"Section {entry.name} at {Text.grouped entry.offset} ({Text.grouped entry.length} bytes)"
  | forgiven cause => s!"{cause.message} (ignored in lenient mode)"
  | finished name count => s!"Section {name}: {Text.grouped count} records"

def logTo (log : Log) (event : Event) : Log := log.add event.level event.message

end Event

structure Visit where
  written : List Markup := []
  events : List Event := []
  /-- What is left for the visit after this one. -/
  session : Session
  failure : Option Failure := none

namespace Visit

/-- The document, or the part of it that was written before a failure. -/
def document (visit : Visit) : String := Markup.renderAll visit.written

def logTo (log : Log) (visit : Visit) : Log := visit.events.foldl Event.logTo log

/-- Goes on with another visit, unless a failure has ended this one. -/
def andThen (first : Visit) (next : Session → Visit) : Visit :=
  match first.failure with
  | some _ => first
  | none =>
    let second := next first.session
    { second with
      written := first.written ++ second.written
      events := first.events ++ second.events }

end Visit

namespace Session

/-- Ends a visit inside a section. -/
def failIn (name : String) (problem : Problem) (session : Session) : Visit :=
  { session, failure := some ⟨problem, some name⟩ }

/-- Counts the records of a section that has been read. -/
def finish (name : String) (count : Nat) (session : Session) : Visit :=
  { session := { session with records := session.records.add name count }
    events := [.finished name count] }

/-- Checks that nothing is left of a section after its last record. -/
def close (settings : Settings) (entry : SectionEntry) (count : Nat) (rest : ByteStream)
    (session : Session) : Visit :=
  match ((Transcriber.expectEnd : Scribe Unit).run rest).outcome with
  | .ok () => session.finish entry.name count
  | .error (.count cause) =>
    if settings.strict then session.failIn entry.name (.count cause)
    else { session, events := [.forgiven cause] : Visit }.andThen (finish entry.name count)
  | .error problem => session.failIn entry.name problem

def visitKnown (settings : Settings) (streamOf : SectionEntry → ByteStream) (entry : SectionEntry)
    (kind : SectionKind) (session : Session) : Visit :=
  let run := (kind.scribe session.strings).run (streamOf entry)
  { session, events := [.started entry], written := run.written : Visit }.andThen fun session =>
    match run.outcome with
    | .error problem => session.failIn entry.name problem
    | .ok (count, strings) => { session with strings }.close settings entry count run.stream

def visitEntry (settings : Settings) (streamOf : SectionEntry → ByteStream) (entry : SectionEntry)
    (session : Session) : Visit :=
  match entry.kind with
  | none => { session, events := [.skipped entry.name] }
  | some kind => session.visitKnown settings streamOf entry kind

def visitEntries (settings : Settings) (streamOf : SectionEntry → ByteStream) :
    List SectionEntry → Session → Visit
  | [], session => { session }
  | entry :: rest, session =>
    (session.visitEntry settings streamOf entry).andThen (visitEntries settings streamOf rest)

end Session

/-- The start of a document: the declaration, and the versions of the image and of the program. -/
def Summary.markup (summary : Summary) (revision : String) : List Markup :=
  [.verbatim "<?xml version=\"1.0\"?>\n", .opening "fsimage"] ++
    Markup.element "version" true
      (Markup.number "layoutVersion" summary.layoutVersion ++
        Markup.number "onDiskVersion" summary.ondiskVersion ++
        Markup.field "oivRevision" revision)

def CodecChoice.stream (choice : CodecChoice) (image : Bytes) (entry : SectionEntry) : ByteStream :=
  let stored := Bytes.slice image entry.offset.toNat entry.length.toNat
  match choice with
  | compressed decompressor => Decompressor.content decompressor stored
  | CodecChoice.stored | unsupported => ⟨stored, none⟩

/-- The stream of a section, which cannot start before the image. -/
def CodecChoice.stream? (choice : CodecChoice) (image : Bytes) (entry : SectionEntry) :
    Option ByteStream :=
  if entry.offset < 0 then none else some (choice.stream image entry)

/-- Converts an image, going on from what earlier images have left. -/
def Session.visit (session : Session) (settings : Settings) (image : Bytes) : Visit :=
  match Summary.read image with
  | .error cause => { session, failure := some ⟨.format cause, none⟩ }
  | .ok summary =>
    match settings.codecs.choose summary.codec with
    | .error cause => { session, failure := some ⟨.format cause, none⟩ }
    | .ok codec =>
      let start : Visit :=
        { session, events := [.opened summary], written := summary.markup settings.revision }
      let entries := SectionEntry.visitOrder summary.sections
      (start.andThen (visitEntries settings (codec.stream image) entries)).andThen fun session =>
        { session, written := [.closing "fsimage" true] }

def convert (settings : Settings) (image : Bytes) : Visit :=
  ({} : Session).visit settings image

end Checkpoint
