import Checkpoint.Calendar
import Checkpoint.Xml.Escape

/-! # Markup

A document is a sequence of tags and texts, and is written by rendering one after the other. Text is
escaped when it is rendered, so that no text can be taken for a tag. -/
namespace Checkpoint

inductive Markup where
  | opening (tag : String)
  /-- A closing tag, and a line break after it if `newline` is set. -/
  | closing (tag : String) (newline : Bool)
  /-- An element without content. -/
  | empty (tag : String)
  /-- The text inside an element. -/
  | text (content : String)
  /-- What stands before and after the outermost element. -/
  | verbatim (content : String)
  deriving DecidableEq, Repr

namespace Markup

def render : Markup → String
  | opening tag => "<" ++ tag ++ ">"
  | closing tag false => "</" ++ tag ++ ">"
  | closing tag true => "</" ++ tag ++ ">\n"
  | empty tag => "<" ++ tag ++ "/>"
  | text content => Xml.escape content
  | verbatim content => content

def renderAll (pieces : List Markup) : String := String.join (pieces.map render)

/-- An element with other pieces inside. -/
def element (tag : String) (newline : Bool) (body : List Markup) : List Markup :=
  opening tag :: body ++ [closing tag newline]

/-- An element with a text inside. -/
def field (tag content : String) : List Markup := [opening tag, text content, closing tag false]

def number (tag : String) (n : Int) : List Markup := field tag (toString n)

def date (tag : String) (millis : Int) : List Markup := field tag (DateTime.ofMillis millis).render

/-- An element that is there or not. -/
def flag (tag : String) (present : Bool) : List Markup := if present then [empty tag] else []

/-- What `write` makes of a value, nothing if there is none. -/
def optional {α : Type} (write : String → α → List Markup) (tag : String) :
    Option α → List Markup
  | some a => write tag a
  | none => []

end Markup

end Checkpoint
