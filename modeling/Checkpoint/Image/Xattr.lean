import Checkpoint.Image.Permission

/-! # Extended attributes

An attribute has a packed name and a value. The name word holds 24 bits of identifier, and three
bits of namespace of which one stands apart from the others. -/
namespace Checkpoint

inductive XattrNamespace where
  | user
  | trusted
  | security
  | system
  | raw
  deriving DecidableEq, Repr

namespace XattrNamespace

def ofBits? : Nat → Option XattrNamespace
  | 0 => some user
  | 1 => some trusted
  | 2 => some security
  | 3 => some system
  | 4 => some raw
  | _ => none

def label : XattrNamespace → String
  | user => "USER"
  | trusted => "TRUSTED"
  | security => "SECURITY"
  | system => "SYSTEM"
  | raw => "RAW"

/-- The namespace in a packed name: bits 30 and 31, and bit 5 above them. -/
def ofWord (word : Nat) : Except RecordProblem XattrNamespace :=
  let bits := bitField word 30 2 + 4 * bitField word 5 1
  match ofBits? bits with
  | some ns => .ok ns
  | none => .error (.unknownNamespace bits)

end XattrNamespace

/-- How an attribute value is shown. -/
inductive XattrValue where
  /-- Well-formed text, as it is. -/
  | text (s : String)
  /-- Any other bytes, in hexadecimal. -/
  | hex (digits : String)
  deriving DecidableEq, Repr

namespace XattrValue

def ofBytes (bytes : Bytes) : XattrValue :=
  match Utf8.decode? bytes with
  | some s => .text s
  | none => .hex (Bytes.hex bytes)

def tag : XattrValue → String
  | text _ => "val"
  | hex _ => "valHex"

def shown : XattrValue → String
  | text s => s
  | hex digits => digits

end XattrValue

structure Xattr where
  /-- The packed name. -/
  word : Nat
  value : Bytes
  deriving DecidableEq, Repr

namespace Xattr

def schema : Schema where
  name := "XAttrCompactProto"
  fields := [
    { number := 1, name := "name", kind := .fixed32 },
    { number := 2, name := "value", kind := .bytes }]

def listSchema : Schema where
  name := "XAttrFeatureProto"
  fields := [{ number := 1, name := "xAttrs", kind := .message schema, repeated := true }]

def ofRecord (r : Record) : Xattr where
  word := r.nat 1
  value := r.bytes 2

def listOfRecord (r : Record) : List Xattr := (r.records 1).map ofRecord

def nameId (word : Nat) : Nat := bitField word 6 24

/-- The name that a packed name refers to; it has to be in the table. -/
def name (word : Nat) (strings : StringTable) : Except RecordProblem String := do
  match ← strings.lookup (nameId word) with
  | some text => return text
  | none => throw (.unnamedAttribute (nameId word))

end Xattr

end Checkpoint
