/-! # JSON

Values as they are handed to programs, and their text with two spaces of indentation a level. -/
namespace Checkpoint

/-- A JSON value; the keys of an object keep their order. -/
inductive JsonValue where
  | null
  | bool (b : Bool)
  | number (n : Int)
  | text (s : String)
  | list (elements : List JsonValue)
  | object (entries : List (String × JsonValue))
  deriving Repr

namespace JsonValue

def escapeOne (c : Char) : List Char :=
  match c with
  | '"' => ['\\', '"']
  | '\\' => ['\\', '\\']
  | '\n' => ['\\', 'n']
  | '\r' => ['\\', 'r']
  | '\t' => ['\\', 't']
  | '\x08' => ['\\', 'b']
  | '\x0C' => ['\\', 'f']
  | c =>
    if c.toNat < 0x20 then
      ['\\', 'u', '0', '0', Nat.digitChar (c.toNat / 16), Nat.digitChar (c.toNat % 16)]
    else [c]

def quote (s : String) : String :=
  "\"" ++ String.ofList (s.toList.flatMap escapeOne) ++ "\""

/-- The start of a line at a depth of nesting. -/
def lineStart (depth : Nat) : String := "\n" ++ String.ofList (List.replicate (2 * depth) ' ')

/-- Items between brackets, each on a line of its own. -/
def bracket (opening closing : String) (depth : Nat) (items : List String) : String :=
  if items.isEmpty then opening ++ closing
  else opening ++ lineStart (depth + 1) ++ ("," ++ lineStart (depth + 1)).intercalate items ++
    lineStart depth ++ closing

mutual

def render (depth : Nat) : JsonValue → String
  | null => "null"
  | bool b => if b then "true" else "false"
  | number n => toString n
  | text s => quote s
  | list elements => bracket "[" "]" depth (renderElements (depth + 1) elements)
  | object entries => bracket "\x7b" "\x7d" depth (renderEntries (depth + 1) entries)

def renderElements (depth : Nat) : List JsonValue → List String
  | [] => []
  | value :: rest => value.render depth :: renderElements depth rest

def renderEntries (depth : Nat) : List (String × JsonValue) → List String
  | [] => []
  | (key, value) :: rest => (quote key ++ ": " ++ value.render depth) :: renderEntries depth rest

end

def indented (value : JsonValue) : String := value.render 0

def ofText? : Option String → JsonValue
  | some s => text s
  | none => null

end JsonValue

end Checkpoint
