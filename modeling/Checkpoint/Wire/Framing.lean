import Checkpoint.Transcriber
import Checkpoint.Wire.Parse

/-! # Records in a stream

Records follow one another in a stream, each with its length in front as a varint. Some sections
declare how many there are; in others they go on to the end of the stream. -/
namespace Checkpoint

def maxRecordBytes : Nat := 64 * 1024 * 1024

namespace ByteStream

/-- The groups of a length after its first byte, at most `limit` of them. -/
def moreLength (record : String) : (limit : Nat) → Reader Nat
  | 0 => throw (.longLength record)
  | limit + 1 => do
    match ← next with
    | none => throw (.truncatedLength record)
    | some b =>
      if b.toNat < 128 then return b.toNat
      else return b.toNat - 128 + 128 * (← moreLength record limit)

/-- Reads the length in front of a record, or nothing at the end of the stream. -/
def readLength (record : String) : Reader (Option Nat) := do
  match ← next with
  | none => return none
  | some b =>
    if b.toNat < 128 then return some b.toNat
    else return some (b.toNat - 128 + 128 * (← moreLength record (Varint.maxBytes - 1)))

/-- Reads a record, or nothing at the end of the stream. -/
def readRecord? (schema : Schema) : Reader (Option Record) := do
  match ← readLength schema.name with
  | none => return none
  | some size =>
    if maxRecordBytes < size then throw (.oversized schema.name size)
    let body ← read size
    if body.length ≠ size then throw (.shortBody schema.name body.length size)
    match schema.parse body with
    | .ok record => return some record
    | .error problem => throw problem

def readHeader (schema : Schema) : Reader Record := do
  match ← readRecord? schema with
  | some record => return record
  | none => throw (.missingHeader schema.name)

end ByteStream

namespace Transcriber

variable {τ : Type}

/-- Takes `left` records more; `found` have been taken before, and what was written for them is in
`done`, last first. -/
def countedInto (schema : Schema) (declared : Int) (body : Record → Transcriber τ Unit) :
    (left found : Nat) → (done : List (List τ)) → Transcriber τ Nat
  | 0, found, done, s => ⟨done.reverse.flatten, .ok found, s⟩
  | left + 1, found, done, s =>
    match ByteStream.readRecord? schema s with
    | .error problem s => ⟨done.reverse.flatten, .error problem, s⟩
    | .ok none s =>
      ⟨done.reverse.flatten, .error (.count (.shortfall schema.name declared found)), s⟩
    | .ok (some record) s =>
      let step := (body record).run s
      let done := step.written :: done
      match step.outcome with
      | .error problem => ⟨done.reverse.flatten, .error problem, step.stream⟩
      | .ok () => countedInto schema declared body left (found + 1) done step.stream

/-- Takes the declared number of records, none if it is negative, does `body` for each as it is
read, and counts them. -/
def counted (schema : Schema) (declared : Int) (body : Record → Transcriber τ Unit) :
    Transcriber τ Nat :=
  countedInto schema declared body declared.toNat 0 []

/-- Takes records to the end of the stream; `found` have been taken before, and what was written
for them is in `done`, last first. -/
def untilEndInto (schema : Schema) (body : Record → Transcriber τ Unit) :
    (limit found : Nat) → (done : List (List τ)) → Transcriber τ Nat
  | 0, found, done, s => ⟨done.reverse.flatten, .ok found, s⟩
  | limit + 1, found, done, s =>
    match ByteStream.readRecord? schema s with
    | .error problem s => ⟨done.reverse.flatten, .error problem, s⟩
    | .ok none s => ⟨done.reverse.flatten, .ok found, s⟩
    | .ok (some record) s =>
      let step := (body record).run s
      let done := step.written :: done
      match step.outcome with
      | .error problem => ⟨done.reverse.flatten, .error problem, step.stream⟩
      | .ok () => untilEndInto schema body limit (found + 1) done step.stream

/-- Takes records to the end of the stream, does `body` for each as it is read, and counts them. A
record takes at least one byte, so the number of unread bytes bounds the number of records. -/
def untilEnd (schema : Schema) (body : Record → Transcriber τ Unit) : Transcriber τ Nat := fun s =>
  untilEndInto schema body (s.unread.length + 1) 0 [] s

def expectEnd : Transcriber τ Unit := do
  match ← ByteStream.next with
  | none => return ()
  | some _ => fail (.count .leftover)

end Transcriber

end Checkpoint
