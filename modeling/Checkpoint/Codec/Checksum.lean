/-! # Checksums

The three sums by which compressed data are checked. -/
namespace Checkpoint.Checksum

/-- The Adler sum: the sum of the bytes, and the sum of its values on the way. -/
def adler32 (bytes : Array UInt8) : Nat :=
  let (a, b) := bytes.foldl (fun (a, b) byte =>
    let a := (a + byte.toNat) % 65521
    (a, (b + a) % 65521)) (1, 0)
  65536 * b + a

/-- Eight steps of division by the reflected polynomial. -/
def crc32Step (crc : UInt32) (byte : UInt8) : UInt32 :=
  let divide (crc : UInt32) : UInt32 :=
    if crc &&& 1 = 1 then (crc >>> 1) ^^^ 0xEDB88320 else crc >>> 1
  (divide ∘ divide ∘ divide ∘ divide ∘ divide ∘ divide ∘ divide ∘ divide) (crc ^^^ byte.toUInt32)

/-- The cyclic sum in which the lowest bit of a byte comes first. -/
def crc32 (bytes : Array UInt8) : Nat :=
  (bytes.foldl crc32Step 0xFFFFFFFF ^^^ 0xFFFFFFFF).toNat

/-- Eight steps of division by the polynomial. -/
def crc32HighStep (crc : UInt32) (byte : UInt8) : UInt32 :=
  let divide (crc : UInt32) : UInt32 :=
    if crc &&& 0x80000000 = 0 then crc <<< 1 else (crc <<< 1) ^^^ 0x04C11DB7
  (divide ∘ divide ∘ divide ∘ divide ∘ divide ∘ divide ∘ divide ∘ divide)
    (crc ^^^ (byte.toUInt32 <<< 24))

/-- The cyclic sum in which the highest bit of a byte comes first. -/
def crc32High (bytes : Array UInt8) : UInt32 :=
  bytes.foldl crc32HighStep 0xFFFFFFFF ^^^ 0xFFFFFFFF

end Checkpoint.Checksum
