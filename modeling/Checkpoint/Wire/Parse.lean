import Checkpoint.Text.Utf8
import Checkpoint.Wire.Body
import Checkpoint.Wire.Record

/-! # Reading record bodies

A body is read against a schema field by field. Fields that the schema does not name are skipped;
every other one has the wire type of its kind, or is a repeated number field whose elements are
packed into one delimited content. The first problem in the order of the fields is the one
reported. -/
namespace Checkpoint

/-- The value of a number field from the number on the wire; words keep their low bits. -/
def Kind.ofNumber (kind : Kind) (n : Nat) : Value :=
  match kind with
  | int32 | enum => .int (signedWord 32 n)
  | int64 => .int (signedWord 64 n)
  | bool => .flag (n != 0)
  | fixed32 | fixed64 | string | bytes | message _ => .int n

namespace LayoutOf

/-- The numbers packed into a delimited content. -/
def unpack (record field : String) (wire : WireType) (packed : Bytes) :
    Except RecordProblem (List Nat) :=
  match wire with
  | .varint | .delimited => (Varint.decodeAll packed).mapError (.ofVarint s!"{record}.{field}")
  | .fixed32 => words 4
  | .fixed64 => words 8
where
  /-- Elements of a fixed width. -/
  words (width : Nat) : Except RecordProblem (List Nat) :=
    if packed.length % width ≠ 0 then .error (.unevenPacking record field packed.length width)
    else .ok ((Bytes.chunks width (packed.length / width) packed).map Bytes.littleEndian)

/-- The values that one occurrence of a field carries, with `nested` reading inner bodies. -/
def occurrence (nested : Schema → Bytes → Except RecordProblem Record) (record : String)
    (field : Field) (content : Content) : Except RecordProblem (List Value) :=
  match field.kind, content with
  | .string, .delimited bytes => .ok [.text (Utf8.decodeLossy bytes)]
  | .bytes, .delimited bytes => .ok [.bytes bytes]
  | .message schema, .delimited bytes => (nested schema bytes).map fun r => [.record r]
  | kind, .delimited bytes =>
    if field.repeated then
      (unpack record field.name kind.wireType bytes).map (·.map kind.ofNumber)
    else mismatch
  | kind, .varint n => if kind.wireType = .varint then .ok [kind.ofNumber n] else mismatch
  | kind, .fixed32 n => if kind.wireType = .fixed32 then .ok [kind.ofNumber n] else mismatch
  | kind, .fixed64 n => if kind.wireType = .fixed64 then .ok [kind.ofNumber n] else mismatch
where
  /-- The content is in no encoding of the field's kind. -/
  mismatch : Except RecordProblem (List Value) :=
    .error (.wrongWireType record field.name content.wireType.code field.kind.label)

/-- The fields of a body that the schema names, with what the schema says about them. -/
def named (schema : Schema) (fields : List WireField) : List (Field × Content) :=
  fields.filterMap fun f => (schema.field? f.number).map (·, f.content)

/-- Reads a body in which records are nested at most `depth` deep. -/
def parseWithin : (depth : Nat) → Schema → Bytes → Except RecordProblem Record
  | 0, _, _ => .ok []
  | depth + 1, schema, body => do
    let cut := Body.split schema.name body
    let record ← (schema.named cut.fields).mapM fun (field, content) =>
      (occurrence (parseWithin depth) schema.name field content).map (field.number, ·)
    match cut.problem with
    | none => .ok record
    | some problem => .error problem

/-- Reads a record body. An inner body is shorter than the one around it, so the length bounds the
nesting. -/
def parse (schema : Schema) (body : Bytes) : Except RecordProblem Record :=
  parseWithin (body.length + 1) schema body

end LayoutOf

end Checkpoint
