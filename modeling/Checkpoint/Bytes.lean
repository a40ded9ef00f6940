/-! # Byte strings

The bytes of an image and their three readings as numbers and text: little-endian,
big-endian and hexadecimal. -/
namespace Checkpoint

abbrev Bytes := List UInt8

namespace Bytes

/-- The number whose least significant byte comes first. -/
def littleEndian : Bytes → Nat
  | [] => 0
  | b :: rest => b.toNat + 256 * littleEndian rest

/-- The number whose most significant byte comes first. -/
def bigEndian (bytes : Bytes) : Nat :=
  bytes.foldl (fun n b => 256 * n + b.toNat) 0

/-- Two lower-case hexadecimal digits per byte. -/
def hex (bytes : Bytes) : String :=
  String.ofList (bytes.flatMap fun b =>
    [Nat.digitChar (b.toNat / 16), Nat.digitChar (b.toNat % 16)])

/-- The `length` bytes from `offset` on, or those of them that are there. -/
def slice (bytes : Bytes) (offset length : Nat) : Bytes :=
  (bytes.drop offset).take length

/-- The first `count` pieces of `width` bytes each. -/
def chunks (width : Nat) : (count : Nat) → Bytes → List Bytes
  | 0, _ => []
  | count + 1, bytes => bytes.take width :: chunks width count (bytes.drop width)

/-- A slice ends where the bytes end. -/
theorem length_slice (bytes : Bytes) (offset length : Nat) :
    (slice bytes offset length).length = min length (bytes.length - offset) := by
  simp [slice]

end Bytes

/-- The integer that `n` stands for as a two's complement word of `bits` bits; higher bits are
dropped. -/
def signedWord (bits n : Nat) : Int :=
  let word := 1 <<< bits
  let low := n % word
  if 2 * low < word then low else (low : Int) - word

end Checkpoint
