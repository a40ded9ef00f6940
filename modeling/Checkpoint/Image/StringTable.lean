import Std.Data.TreeMap
import Checkpoint.Wire.Framing

/-! # String table

User, group and attribute names are stored once, in the `STRING_TABLE` section, and referred to by
identifier everywhere else. The declared number of entries bounds the identifiers; one inside the
bound to which no entry belongs stands for no text. -/
namespace Checkpoint

/-- Texts by identifier. -/
structure StringTable where
  /-- The largest identifier; there is none if it is negative. -/
  bound : Int
  texts : Std.TreeMap Nat String

namespace StringTable

def schema : Schema where
  name := "StringTableSection"
  fields := [{ number := 1, name := "numEntry", kind := .int32 }]

def entrySchema : Schema where
  name := "StringTableSection.Entry"
  fields := [
    { number := 1, name := "id", kind := .int32 },
    { number := 2, name := "str", kind := .string }]

def empty (bound : Int) : StringTable := ⟨bound, ∅⟩

/-- Puts a text under an identifier, in place of the one that was there. -/
def insert (table : StringTable) (id : Nat) (text : String) : StringTable :=
  { table with texts := table.texts.insert id text }

/-- The table with the given texts; of two under one identifier the later one holds. -/
def ofList (bound : Int) (entries : List (Nat × String)) : StringTable :=
  entries.foldl (fun table (id, text) => table.insert id text) (empty bound)

def size (table : StringTable) : Nat := table.texts.size

/-- The text under an identifier, if there is one; an identifier beyond the bound is a problem. -/
def lookup (table : StringTable) (id : Int) : Except RecordProblem (Option String) :=
  if 0 ≤ id ∧ id ≤ table.bound then .ok table.texts[id.toNat]? else .error (.idOutOfRange id)

def entry (bound : Nat) (r : Record) : Except Problem (Nat × String) :=
  let id := r.int 1
  if 0 ≤ id ∧ id ≤ bound then .ok (id.toNat, r.text 2)
  else .error (.malformed (.entryIdOutside id bound))

/-- Reads the entries of a table and lists them in order. -/
def entries (bound : Nat) : Transcriber (Nat × String) Nat :=
  .counted entrySchema bound fun r => do
    Transcriber.write [← entry bound r]

def load (s : ByteStream) : Except Problem StringTable × ByteStream :=
  match ByteStream.readHeader schema s with
  | .error problem s => (.error problem, s)
  | .ok header s =>
    let bound := (header.int 1).toNat
    let body := (entries bound).run s
    (body.outcome.map fun _ => ofList bound body.written, body.stream)

end StringTable

end Checkpoint
