import Checkpoint.Problem
import Checkpoint.Bytes

/-! # Byte streams

What is still to be read of a section: the bytes, and what is met after them. After the bytes there
is the end of the stream, or a fault when the rest of the section cannot be decompressed. A read
that would have to go past the bytes fails with the fault, or gives what is left at the end. -/
namespace Checkpoint

/-- The unread part of a stream. -/
structure ByteStream where
  unread : Bytes
  /-- What is met in place of the end. -/
  fault : Option RecordProblem := none
  deriving DecidableEq, Repr

/-- A step that reads from a stream; the stream is moved on also by a step that fails. -/
abbrev Reader := EStateM RecordProblem ByteStream

namespace ByteStream

/-- The next byte, or nothing at the end. -/
def next : Reader (Option UInt8) := fun s =>
  match s.unread, s.fault with
  | b :: rest, fault => .ok (some b) ⟨rest, fault⟩
  | [], some problem => .error problem s
  | [], none => .ok none s

/-- The next `n` bytes, or as many as there are before the end. -/
def read (n : Nat) : Reader Bytes := fun s =>
  let found := s.unread.take n
  match s.fault with
  | none => .ok found ⟨s.unread.drop n, none⟩
  | some problem =>
    if found.length = n then .ok found ⟨s.unread.drop n, some problem⟩ else .error problem s

def readAll : Reader Bytes := fun s =>
  match s.fault with
  | none => .ok s.unread ⟨[], none⟩
  | some problem => .error problem s

end ByteStream

end Checkpoint
