import Checkpoint.Codec.PrefixCode

/-! # Deflate

A deflated member is a sequence of blocks. A block holds bytes as they are, or symbols in a prefix
code: bytes, repetitions of earlier output, and the end of the block. The code is fixed or described
at the start of the block. -/
namespace Checkpoint.Deflate

def bits (n : Nat) : Decoder Nat := Decoder.bits .lowFirst n

/-- Least length and number of extra bits, by symbol from 257 on. -/
def lengthCodes : Array (Nat × Nat) :=
  #[(3, 0), (4, 0), (5, 0), (6, 0), (7, 0), (8, 0), (9, 0), (10, 0), (11, 1), (13, 1), (15, 1),
    (17, 1), (19, 2), (23, 2), (27, 2), (31, 2), (35, 3), (43, 3), (51, 3), (59, 3), (67, 4),
    (83, 4), (99, 4), (115, 4), (131, 5), (163, 5), (195, 5), (227, 5), (258, 0)]

/-- Least distance and number of extra bits, by symbol. -/
def distanceCodes : Array (Nat × Nat) :=
  #[(1, 0), (2, 0), (3, 0), (4, 0), (5, 1), (7, 1), (9, 2), (13, 2), (17, 3), (25, 3), (33, 4),
    (49, 4), (65, 5), (97, 5), (129, 6), (193, 6), (257, 7), (385, 7), (513, 8), (769, 8),
    (1025, 9), (1537, 9), (2049, 10), (3073, 10), (4097, 11), (6145, 11), (8193, 12),
    (12289, 12), (16385, 13), (24577, 13)]

/-- The value of a symbol that takes extra bits. -/
def extended (codes : Array (Nat × Nat)) (symbol : Nat) : Decoder Nat :=
  match codes[symbol]? with
  | none => Decoder.reject
  | some (least, extra) => return least + (← bits extra)

/-- The codes of a block: one for bytes, lengths and the end, and one for distances. -/
structure Codes where
  literals : PrefixCode
  distances : PrefixCode

/-- Reads the symbols of a block up to its end; every symbol takes at least one of the `limit` bits
left. -/
def symbols (codes : Codes) : (limit : Nat) → Decoder Unit
  | 0 => throw .starved
  | limit + 1 => do
    let symbol ← codes.literals.decode .lowFirst
    if symbol < 256 then
      Decoder.emit (UInt8.ofNat symbol)
      symbols codes limit
    else if symbol = 256 then return ()
    else
      let length ← extended lengthCodes (symbol - 257)
      let distance ← extended distanceCodes (← codes.distances.decode .lowFirst)
      Decoder.require (distance ≤ (← get).output.size)
      Decoder.repeatOutput distance length
      symbols codes limit

def copy : (n : Nat) → Decoder Unit
  | 0 => return ()
  | n + 1 => do
    Decoder.emit (UInt8.ofNat (← bits 8))
    copy n

/-- A block of bytes as they are, with their number twice in front, the second time inverted. -/
def stored : Decoder Unit := do
  Decoder.align
  let both ← bits 32
  let length := both % 65536
  Decoder.require (length + both / 65536 == 65535)
  copy length

/-- The code of blocks that do not describe one. -/
def fixedCodes : Codes where
  literals := .ofLengths 9
    (List.replicate 144 8 ++ List.replicate 112 9 ++ List.replicate 24 7 ++ List.replicate 8 8)
  distances := .ofLengths 5 (List.replicate 32 5)

/-- The order in which the lengths of the code for code lengths are given. -/
def lengthOrder : List Nat :=
  [16, 17, 18, 0, 8, 7, 9, 6, 10, 5, 11, 4, 12, 3, 13, 2, 14, 1, 15]

/-- The code for code lengths. It has to leave no word over; one without any words reads as zeros of
one bit. -/
def lengthCode (lengths : List Nat) : Decoder PrefixCode := do
  let code := PrefixCode.ofLengths (PrefixCode.longest lengths) lengths
  if code.counts.isEmpty then return ⟨[2], #[0, 0]⟩
  Decoder.require (code.slack == some 0)
  return code

/-- Reads code lengths up to `total`; `found` are those read so far, last first. -/
def codeLengths (code : PrefixCode) (total : Nat) : (limit : Nat) → (found : List Nat) →
    Decoder (List Nat)
  | 0, found => return found.reverse
  | limit + 1, found => do
    if total ≤ found.length then return found.reverse
    let symbol ← code.decode .lowFirst
    if symbol < 16 then codeLengths code total limit (symbol :: found)
    else
      let count ← match symbol with
        | 16 => (3 + ·) <$> bits 2
        | 17 => (3 + ·) <$> bits 3
        | _ => (11 + ·) <$> bits 7
      let length ← match symbol, found with
        | 16, [] => Decoder.reject
        | 16, last :: _ => pure last
        | _, _ => pure 0
      Decoder.require (found.length + count ≤ total)
      codeLengths code total limit (List.replicate count length ++ found)

/-- A code of a block that describes its own. Words may be left over only by a code without words
of more than one bit. -/
def blockCode (lengths : List Nat) : Decoder PrefixCode := do
  let longest := PrefixCode.longest lengths
  let code := PrefixCode.ofLengths (max 1 longest) lengths
  match code.slack with
  | none => Decoder.reject
  | some left => Decoder.require (left == 0 || longest ≤ 1)
  return code

/-- Reads the lengths of the code for code lengths, one for each place. -/
def readLengths : (places : List Nat) → Decoder (List (Nat × Nat))
  | [] => return []
  | place :: places => do
    let length ← bits 3
    return (place, length) :: (← readLengths places)

def describedCodes : Decoder Codes := do
  let numLiterals := 257 + (← bits 5)
  let numDistances := 1 + (← bits 5)
  let numLengths := 4 + (← bits 4)
  Decoder.require (numLiterals ≤ 286 && numDistances ≤ 30)
  let given ← readLengths (lengthOrder.take numLengths)
  let code ← lengthCode ((List.range 19).map fun i => (given.lookup i).getD 0)
  let total := numLiterals + numDistances
  let lengths ← codeLengths code total total []
  Decoder.require (lengths.getD 256 0 != 0)
  let literals ← blockCode (lengths.take numLiterals)
  let distances ← blockCode (lengths.drop numLiterals)
  return { literals, distances }

/-- Reads blocks up to the last one; every block takes at least one of the `limit` bits left, and
`total` is no less than those. -/
def blocks (total : Nat) : (limit : Nat) → Decoder Unit
  | 0 => throw .starved
  | limit + 1 => do
    let header ← bits 3
    match header / 2 with
    | 0 => stored
    | 1 => symbols fixedCodes total
    | 2 =>
      let codes ← describedCodes
      symbols codes total
    | _ => Decoder.reject
    if header % 2 = 1 then return () else blocks total limit

/-- Decodes a member without its frame, of at most `limit` bits. -/
def member (limit : Nat) : Decoder Unit := do
  blocks limit limit
  Decoder.align

end Checkpoint.Deflate
