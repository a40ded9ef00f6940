import Checkpoint.Wire.Framing
import Checkpoint.Xml.Markup

/-! # Scribes

A scribe is a transcriber that writes markup. An element is opened before its content is read and
closed after, so an element whose content fails stays open. -/
namespace Checkpoint

/-- A step that reads records and writes markup. -/
abbrev Scribe := Transcriber Markup

namespace Scribe

/-- Does `body` inside an element. -/
def element {α : Type} (tag : String) (newline : Bool) (body : Scribe α) : Scribe α := do
  Transcriber.write [.opening tag]
  let a ← body
  Transcriber.write [.closing tag newline]
  return a

/-- Writes an element with a text inside that may turn out not to be there. -/
def found (tag : String) (text : Except RecordProblem String) : Scribe Unit :=
  match text with
  | .ok text => Transcriber.write (Markup.field tag text)
  | .error problem => Transcriber.fail (.malformed problem)

end Scribe

end Checkpoint
