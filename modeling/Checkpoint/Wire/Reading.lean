import Checkpoint.Text.Quoted
import Checkpoint.Wire.Record
import Checkpoint.Wire.Schema

/-! # Reading fields by name

What a record says about each field of its schema, with the value that stands in for an absent
one. -/
namespace Checkpoint

inductive Reading where
  | one (value : Value)
  | many (values : List Value)
  /-- An inner record that is not there. -/
  | absent
  deriving Repr

/-- The value that stands in for an absent one; inner records have none. -/
def FieldOf.fallbackValue (field : Field) : Option Value :=
  match field.kind with
  | .int32 | .int64 | .fixed32 | .fixed64 => some (.int 0)
  | .enum => some (.int field.fallback)
  | .bool => some (.flag false)
  | .string => some (.text "")
  | .bytes => some (.bytes [])
  | .message _ => none

def FieldOf.read (field : Field) (r : Record) : Reading :=
  if field.repeated then .many (r.values field.number)
  else match (r.value? field.number).or field.fallbackValue with
    | some value => .one value
    | none => .absent

/-- A name that no field of a record type has. -/
structure NoField where
  record : String
  name : String
  deriving DecidableEq, Repr

/-- The wording of a missing field; names that start with an underscore are private and stand for
themselves. -/
def NoField.message (e : NoField) : String :=
  if e.name.startsWith "_" then e.name else s!"{e.record} has no field {Text.quoted e.name}"

def LayoutOf.lookup (schema : Schema) (name : String) : Except NoField Field :=
  match schema.fieldNamed? name with
  | some field => .ok field
  | none => .error ⟨schema.name, name⟩

end Checkpoint
