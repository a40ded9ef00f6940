import Checkpoint.Codec.Checksum
import Checkpoint.Codec.Deflate

/-! # Frames of deflated members

A deflated member stands in one of two frames, which differ in what is in front of it and in the
sum by which it is checked. -/
namespace Checkpoint

namespace Zlib

/-- Decodes a member with a two-byte header and an Adler sum. One that needs a dictionary is
refused. -/
def member (limit : Nat) : Decoder Unit := do
  let method ← Deflate.bits 8
  let flags ← Deflate.bits 8
  Decoder.require ((256 * method + flags) % 31 == 0 && method % 16 == 8 && method / 16 ≤ 7)
  if flags / 32 % 2 = 1 then
    let _ ← Deflate.bits 32
    Decoder.reject
  Deflate.member limit
  let sum ← Decoder.bits .highFirst 32
  Decoder.require (sum == Checksum.adler32 (← get).output)

end Zlib

namespace Gzip

def skip : (n : Nat) → Decoder Unit
  | 0 => return ()
  | n + 1 => do
    let _ ← Deflate.bits 8
    skip n

/-- Skips bytes up to a zero, of which there are at most `limit`. -/
def skipText : (limit : Nat) → Decoder Unit
  | 0 => throw .starved
  | limit + 1 => do
    if (← Deflate.bits 8) = 0 then return () else skipText limit

/-- Reads a header of at most `limit` bytes; which parts it has is told by its flags. -/
def header (limit : Nat) : Decoder Unit := do
  let start := (← get).input
  Decoder.require ((← Deflate.bits 16) == 0x8B1F)
  let method ← Deflate.bits 8
  let flags ← Deflate.bits 8
  Decoder.require (method == 8 && flags < 32)
  let _ ← Deflate.bits 32
  let _ ← Deflate.bits 16
  if flags / 4 % 2 = 1 then skip (← Deflate.bits 16)
  if flags / 8 % 2 = 1 then skipText limit
  if flags / 16 % 2 = 1 then skipText limit
  if flags / 2 % 2 = 1 then
    let read := start.take (← get).passed
    Decoder.require ((← Deflate.bits 16) == Checksum.crc32 read.toArray % 65536)

/-- Decodes a member with a header, a cyclic sum and its length. -/
def member (limit : Nat) : Decoder Unit := do
  header limit
  Deflate.member limit
  let sum ← Deflate.bits 32
  Decoder.require (sum == Checksum.crc32 (← get).output)
  let length ← Deflate.bits 32
  Decoder.require (length == (← get).output.size % 4294967296)

end Gzip

end Checkpoint
