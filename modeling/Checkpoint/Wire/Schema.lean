/-! # Schemas

A schema says which fields a record type has: their numbers, names, kinds, and whether they may
occur more than once. -/
namespace Checkpoint

/-- A field of a record type whose kinds are drawn from `κ`. -/
structure FieldOf (κ : Type) where
  number : Nat
  name : String
  kind : κ
  repeated : Bool := false
  /-- What an absent enumeration field reads as. -/
  fallback : Int := 0
  deriving Repr

/-- A record type whose field kinds are drawn from `κ`; fields stand in ascending order of their
numbers. -/
structure LayoutOf (κ : Type) where
  name : String
  fields : List (FieldOf κ)
  deriving Repr

inductive Kind where
  | int32
  | int64
  | bool
  | enum
  | fixed32
  | fixed64
  | string
  | bytes
  | message (layout : LayoutOf Kind)

abbrev Field := FieldOf Kind

abbrev Schema := LayoutOf Kind

/-- The encodings a value can have inside a record body. -/
inductive WireType where
  | varint
  | fixed64
  | delimited
  | fixed32
  deriving DecidableEq, Repr

namespace WireType

/-- The number of an encoding in the key of a field. -/
def code : WireType → Nat
  | varint => 0
  | fixed64 => 1
  | delimited => 2
  | fixed32 => 5

/-- The encoding with a number, if there is one; the other numbers are not in use. -/
def ofCode? : Nat → Option WireType
  | 0 => some varint
  | 1 => some fixed64
  | 2 => some delimited
  | 5 => some fixed32
  | _ => none

/-- Different encodings have different numbers. -/
theorem ofCode?_code (wire : WireType) : ofCode? wire.code = some wire := by
  cases wire <;> rfl

end WireType

namespace Kind

def label : Kind → String
  | int32 => "int32"
  | int64 => "int64"
  | bool => "bool"
  | enum => "enum"
  | fixed32 => "fixed32"
  | fixed64 => "fixed64"
  | string => "string"
  | bytes => "bytes"
  | message _ => "message"

def wireType : Kind → WireType
  | int32 | int64 | bool | enum => .varint
  | fixed32 => .fixed32
  | fixed64 => .fixed64
  | string | bytes | message _ => .delimited

end Kind

namespace LayoutOf

def field? {κ : Type} (layout : LayoutOf κ) (number : Nat) : Option (FieldOf κ) :=
  layout.fields.find? (·.number == number)

def fieldNamed? {κ : Type} (layout : LayoutOf κ) (name : String) : Option (FieldOf κ) :=
  layout.fields.find? (·.name == name)

end LayoutOf

end Checkpoint
