import Checkpoint.Xml.Markup

/-! # Markup scripts

Markup given piece by piece, with values that need not have a text. A script is written up to the
first value that has none; elements that are open there stay open. -/
namespace Checkpoint.Xml

inductive FieldValue where
  | text (s : String)
  | number (n : Int)
  | flag (b : Bool)
  /-- A byte string has no text of its own. -/
  | bytes (b : List UInt8)
  deriving DecidableEq, Repr

/-- A value that has no text, by the tag it was to stand under. -/
structure NoText where
  tag : String
  deriving DecidableEq, Repr

def NoText.message (e : NoText) : String :=
  "<" ++ e.tag ++ ">: byte values must be decoded or hex-encoded first"

def FieldValue.markup (tag : String) : FieldValue → Except NoText (List Markup)
  | text s => .ok (Markup.field tag s)
  | number n => .ok (Markup.number tag n)
  | flag b => .ok (Markup.flag tag b)
  | bytes _ => .error ⟨tag⟩

inductive Step where
  | field (tag : String) (value : FieldValue)
  | date (tag : String) (millis : Int)
  | opening (tag : String)
  | closing (tag : String) (newline : Bool)
  | verbatim (text : String)
  | element (tag : String) (newline : Bool) (body : List Step)

/-- What a script writes, and why it stopped if it did not come to its end. -/
structure Written where
  markup : List Markup
  problem : Option NoText

namespace Step

mutual

def write : Step → Written
  | field tag value =>
    match value.markup tag with
    | .ok markup => ⟨markup, none⟩
    | .error problem => ⟨[], some problem⟩
  | date tag millis => ⟨Markup.date tag millis, none⟩
  | opening tag => ⟨[.opening tag], none⟩
  | closing tag newline => ⟨[.closing tag newline], none⟩
  | verbatim text => ⟨[.verbatim text], none⟩
  | element tag newline body =>
    let inside := writeAll body
    match inside.problem with
    | some problem => ⟨.opening tag :: inside.markup, some problem⟩
    | none => ⟨Markup.element tag newline inside.markup, none⟩

def writeAll : List Step → Written
  | [] => ⟨[], none⟩
  | step :: rest =>
    let first := step.write
    match first.problem with
    | some problem => ⟨first.markup, some problem⟩
    | none =>
      let others := writeAll rest
      ⟨first.markup ++ others.markup, others.problem⟩

end

end Step

end Checkpoint.Xml
