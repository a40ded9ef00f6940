import Checkpoint.Conversion
import Checkpoint.JsonValue

/-! # Service

Answers to requests that upload an image: a description of its sections, or the document it converts
to. Each answer tells the name and the size of the upload, or why it was refused. -/
namespace Checkpoint

structure Upload where
  filename : Option String
  image : Bytes

structure Refusal where
  upload : Upload
  error : String
  /-- What was logged on the way, if anything was to be logged. -/
  log : Option Log

structure Description where
  upload : Upload
  summary : Summary

structure Converted where
  upload : Upload
  visit : Visit
  log : Log

def Log.toJson (log : Log) : JsonValue :=
  .object (LogLevel.all.map fun level => (level.label, .list ((log.messages level).map .text)))

def SectionEntry.Row.toJson (row : SectionEntry.Row) : JsonValue :=
  .object [("name", .text row.entry.name), ("offset", .number row.entry.offset),
    ("length", .number row.entry.length),
    ("position", match row.position with
      | some position => .number position
      | none => .null)]

namespace Refusal

def toJson (r : Refusal) : JsonValue :=
  .object ([("status", .text "error"), ("filename", .ofText? r.upload.filename),
    ("error", .text r.error)] ++
      match r.log with
      | some log => [("log", log.toJson)]
      | none => [])

end Refusal

namespace Description

def toJson (d : Description) : JsonValue :=
  .object [("status", .text "success"), ("filename", .ofText? d.upload.filename),
    ("size", .number d.upload.image.length), ("layoutVersion", .number d.summary.layoutVersion),
    ("onDiskVersion", .number d.summary.ondiskVersion),
    ("codec", if d.summary.codec.isEmpty then .null else .text d.summary.codec),
    ("sections", .list ((SectionEntry.rows d.summary.sections).map (·.toJson)))]

end Description

namespace Converted

def toJson (c : Converted) : JsonValue :=
  .object [("status", .text "success"), ("filename", .ofText? c.upload.filename),
    ("size", .number c.upload.image.length),
    ("records", .object (c.visit.session.records.map fun (name, n) => (name, .number n))),
    ("xml", .text c.visit.document), ("log", c.log.toJson)]

end Converted

namespace Upload

def describe (upload : Upload) : Except Refusal Description :=
  match Summary.read upload.image with
  | .ok summary => .ok { upload, summary }
  | .error cause => .error { upload, error := cause.message, log := none }

def convert (upload : Upload) (strict : Bool) : Except Refusal Converted :=
  let visit := Checkpoint.convert { strict } upload.image
  let log := visit.logTo { echoes := false }
  match visit.failure with
  | none => .ok { upload, visit, log }
  | some failure => .error { upload, error := failure.message, log := some log }

end Upload

inductive Request where
  | health
  | info
  | summary (upload : Upload)
  | convert (upload : Upload) (lenient : Bool)

inductive Payload where
  | json (value : JsonValue)
  | xml (document : String)

def Payload.mediaType : Payload → String
  | json _ => "application/json"
  | xml _ => "application/xml"

structure Response where
  status : Nat
  payload : Payload

namespace Response

/-- A request that has been met. -/
def ok (payload : Payload) : Response := ⟨200, payload⟩

/-- An upload that has been refused. -/
def unprocessable (error : String) : Response := ⟨422, .json (.object [("error", .text error)])⟩

end Response

/-- What the program says about itself. -/
def programInfo : JsonValue :=
  .object [("version", .text programVersion), ("python", .text "3.8+"),
    ("sections", .list (SectionKind.all.map fun kind => .text kind.name)),
    ("codecs", .list (Codec.all.map fun codec => .text codec.name))]

def Request.answer : Request → Response
  | health =>
    .ok (.json (.object [("status", .text "ok"), ("message", .text "fsimagexml API is live")]))
  | info => .ok (.json programInfo)
  | summary upload =>
    match upload.describe with
    | .ok description => .ok (.json description.toJson)
    | .error refusal => .unprocessable refusal.error
  | convert upload lenient =>
    match upload.convert (!lenient) with
    | .ok converted => .ok (.xml converted.visit.document)
    | .error refusal => .unprocessable refusal.error

end Checkpoint
