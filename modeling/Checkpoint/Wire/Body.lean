import Checkpoint.Problem
import Checkpoint.Varint
import Checkpoint.Wire.Schema

/-! # Record bodies

A record body is a sequence of fields. A field is a key, which holds its number and its wire type,
and a content of that wire type. This module cuts a body into its fields without asking which
record type it belongs to. -/
namespace Checkpoint

/-- What stands in a body after the key of a field. -/
inductive Content where
  | varint (n : Nat)
  | fixed64 (n : Nat)
  | delimited (bytes : Bytes)
  | fixed32 (n : Nat)
  deriving DecidableEq, Repr

def Content.wireType : Content → WireType
  | varint _ => .varint
  | fixed64 _ => .fixed64
  | delimited _ => .delimited
  | fixed32 _ => .fixed32

structure WireField where
  number : Nat
  content : Content
  deriving DecidableEq, Repr

/-- The problem that a varint fault is while a record is read. -/
def RecordProblem.ofVarint (record : String) : Varint.Fault → RecordProblem
  | .truncated => .truncatedVarint record
  | .tooLong => .longVarint record

namespace Body

/-- Reads a varint at the start of what is left of a body. -/
def varint (record : String) (body : Bytes) : Except RecordProblem (Nat × Bytes) :=
  match Varint.decode body with
  | .ok read => .ok read
  | .error fault => .error (.ofVarint record fault)

/-- Reads a number of fixed width at the start of what is left of a body. -/
def fixed (record : String) (number width : Nat) (body : Bytes) :
    Except RecordProblem (Nat × Bytes) :=
  let taken := body.take width
  if taken.length < width then .error (.truncatedField record number)
  else .ok (Bytes.littleEndian taken, body.drop width)

/-- Reads a content of a wire type at the start of what is left of a body. -/
def content (record : String) (number : Nat) (wire : WireType) (body : Bytes) :
    Except RecordProblem (Content × Bytes) :=
  match wire with
  | .varint => (varint record body).map fun (n, rest) => (.varint n, rest)
  | .fixed64 => (fixed record number 8 body).map fun (n, rest) => (.fixed64 n, rest)
  | .fixed32 => (fixed record number 4 body).map fun (n, rest) => (.fixed32 n, rest)
  | .delimited =>
    match varint record body with
    | .error problem => .error problem
    | .ok (size, rest) =>
      let taken := rest.take size
      if taken.length < size then .error (.overrun record number)
      else .ok (.delimited taken, rest.drop size)

def field (record : String) (body : Bytes) : Except RecordProblem (WireField × Bytes) :=
  match varint record body with
  | .error problem => .error problem
  | .ok (key, rest) =>
    if key / 8 = 0 then .error (.fieldNumberZero record)
    else match WireType.ofCode? (key % 8) with
      | none => .error (.unsupportedWireType record (key % 8) (key / 8))
      | some wire => (content record (key / 8) wire rest).map fun (c, rest) => (⟨key / 8, c⟩, rest)

/-- A varint takes at least one byte of a body. -/
theorem length_lt_of_varint {record : String} {body rest : Bytes} {n : Nat}
    (h : varint record body = .ok (n, rest)) : rest.length < body.length := by
  simp only [varint] at h
  split at h
  · rename_i read eq
    simp only [Except.ok.injEq] at h
    exact Varint.length_lt_of_decode (h ▸ eq)
  · simp at h

/-- A content gives no bytes back. -/
theorem length_le_of_content {record : String} {number : Nat} {wire : WireType}
    {body rest : Bytes} {c : Content}
    (h : content record number wire body = .ok (c, rest)) : rest.length ≤ body.length := by
  cases wire <;> simp only [content, fixed] at h
  case varint =>
    cases eq : varint record body with
    | error problem => simp [eq, Except.map] at h
    | ok read =>
      simp only [eq, Except.map, Except.ok.injEq, Prod.mk.injEq] at h
      exact Nat.le_of_lt (length_lt_of_varint
        (show varint record body = .ok (read.1, rest) by rw [eq, ← h.2]))
  case delimited =>
    split at h
    · simp at h
    · rename_i size tail eq
      have := length_lt_of_varint eq
      split at h
      · simp at h
      · simp only [Except.ok.injEq, Prod.mk.injEq] at h
        simp only [← h.2, List.length_drop]
        omega
  all_goals
    split at h
    · simp [Except.map] at h
    · simp only [Except.map, Except.ok.injEq, Prod.mk.injEq] at h
      simp [← h.2]

/-- A field takes at least one byte. -/
theorem length_lt_of_field {record : String} {body rest : Bytes} {f : WireField}
    (h : field record body = .ok (f, rest)) : rest.length < body.length := by
  simp only [field] at h
  split at h
  · simp at h
  · rename_i key tail eq
    have := length_lt_of_varint eq
    split at h
    · simp at h
    · split at h
      · simp at h
      · rename_i wire _
        cases eq : content record (key / 8) wire tail with
        | error problem => simp [eq, Except.map] at h
        | ok read =>
          simp only [eq, Except.map, Except.ok.injEq, Prod.mk.injEq] at h
          have := length_le_of_content
            (show content record (key / 8) wire tail = .ok (read.1, rest) by rw [eq, ← h.2])
          omega

/-- The fields of a body up to its end or to the first problem. -/
structure Split where
  fields : List WireField
  problem : Option RecordProblem

/-- Cuts what is left of a body; the fields read before are in `found`, last first. -/
def splitInto (record : String) (found : List WireField) (body : Bytes) : Split :=
  match body with
  | [] => ⟨found.reverse, none⟩
  | b :: tail =>
    match h : field record (b :: tail) with
    | .ok (f, rest) =>
      have := length_lt_of_field h
      splitInto record (f :: found) rest
    | .error problem => ⟨found.reverse, some problem⟩
termination_by body.length
decreasing_by exact this

def split (record : String) (body : Bytes) : Split := splitInto record [] body

end Body

end Checkpoint
