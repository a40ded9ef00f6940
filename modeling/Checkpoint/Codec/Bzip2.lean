import Checkpoint.Codec.Checksum
import Checkpoint.Codec.Dither
import Checkpoint.Codec.PrefixCode

/-! # Bzip2

A member is a sequence of blocks, each compressed in four steps that are undone here in turn: prefix
codes that change every fifty symbols, positions in a list whose last used element moves to the
front, the sorting of all rotations of the block, and the counting of repeated bytes. -/
namespace Checkpoint.Bzip2

def bits (n : Nat) : Decoder Nat := Decoder.bits .highFirst n

/-- Fails unless the next bytes are the given ones; each is compared as it is read. -/
def expect : List Nat → Decoder Unit
  | [] => return ()
  | b :: rest => do
    Decoder.require ((← bits 8) == b)
    expect rest

/-- How many symbols are read before the code changes. -/
def groupSize : Nat := 50

/-- How many changes of the code are taken note of. -/
def maxSelectors : Nat := 18002

def without {α : Type} : (place : Nat) → List α → List α
  | _, [] => []
  | 0, _ :: rest => rest
  | place + 1, a :: rest => a :: without place rest

def moveToFront {α : Type} (place : Nat) (list : List α) : List α :=
  match list[place]? with
  | some a => a :: without place list
  | none => list

/-- Reads a place in a list of `limit` elements: as many ones as there are elements before it, and
a zero. -/
def readPlace (limit : Nat) : (tries place : Nat) → Decoder Nat
  | 0, _ => Decoder.reject
  | tries + 1, place => do
    if (← bits 1) = 0 then return place
    if limit ≤ place + 1 then Decoder.reject
    readPlace limit tries (place + 1)

/-- Reads `n` selectors, which are places in the list of codes in the order of their last use. -/
def readSelectors (numCodes : Nat) : (n : Nat) → (recent : List Nat) → (found : List Nat) →
    Decoder (List Nat)
  | 0, _, found => return found.reverse
  | n + 1, recent, found => do
    let place ← readPlace numCodes numCodes 0
    let recent := moveToFront place recent
    readSelectors numCodes n recent (recent.headD 0 :: found)

/-- Reads the length of a code word: the one before it, changed by steps of one. All lengths on the
way are between 1 and 20. Every step takes at least two of the `limit` bits left. -/
def readLength : (limit : Nat) → (length : Nat) → Decoder Nat
  | 0, _ => throw .starved
  | limit + 1, length => do
    Decoder.require (1 ≤ length && length ≤ 20)
    if (← bits 1) = 0 then return length
    if (← bits 1) = 0 then readLength limit (length + 1) else readLength limit (length - 1)

/-- Reads the lengths of the words of a code, each from the one before it. -/
def readLengths (limit : Nat) : (n : Nat) → (length : Nat) → Decoder (List Nat)
  | 0, _ => return []
  | n + 1, length => do
    let length ← readLength limit length
    return length :: (← readLengths limit n length)

/-- Reads the codes of a block over an alphabet of `size` symbols, of at most `limit` bits. -/
def readCodes (limit size : Nat) : (n : Nat) → Decoder (List PrefixCode)
  | 0 => return []
  | n + 1 => do
    let lengths ← readLengths limit size (← bits 5)
    return PrefixCode.ofLengths 21 lengths :: (← readCodes limit size n)

/-- Reads which of sixteen things are there. -/
def readSet : Decoder (List Nat) := do
  let word ← bits 16
  return (List.range 16).filter fun i => word >>> (15 - i) % 2 == 1

/-- Reads the bytes that occur in a block: first which sixteenths of them, then which in each. -/
def readAlphabet : Decoder (List UInt8) := do
  let sixteenths ← readSet
  let sets ← sixteenths.mapM fun i => do
    return (← readSet).map fun j => UInt8.ofNat (16 * i + j)
  return sets.flatten

structure Symbols where
  /-- The codes of the groups that have not been begun. -/
  groups : List PrefixCode
  /-- The code of the current group. -/
  code : PrefixCode
  /-- How many symbols the current group still has. -/
  left : Nat := 0
  /-- The bytes of the alphabet in the order of their last use. -/
  recent : List UInt8
  /-- The bytes of the block so far. -/
  block : Array UInt8 := #[]
  /-- How often the most recent byte is to be repeated by the digits read so far, and the worth of
  the next digit; between such numbers the worth is one. -/
  pending : Nat := 0
  worth : Nat := 1

namespace Symbols

def next (s : Symbols) : Decoder (Nat × Symbols) := do
  if s.left = 0 then
    match s.groups with
    | [] => Decoder.reject
    | code :: groups =>
      let symbol ← code.decode .highFirst
      return (symbol, { s with groups, code, left := groupSize - 1 })
  else
    let symbol ← s.code.decode .highFirst
    return (symbol, { s with left := s.left - 1 })

/-- Appends copies of a byte, unless the block becomes longer than `room`. -/
def append (room n : Nat) (b : UInt8) (s : Symbols) : Decoder Symbols := do
  Decoder.require (s.block.size + n ≤ room)
  return { s with block := s.block ++ Array.replicate n b }

def flush (room : Nat) (s : Symbols) : Decoder Symbols :=
  s.append room s.pending (s.recent.headD 0) |>.map fun s => { s with pending := 0, worth := 1 }

/-- Reads the symbols of a block of at most `room` bytes up to `stop`. The symbols 0 and 1 are the
digits 1 and 2 of a number of repetitions, lowest first; any other is the place of a byte in the
order of last use. -/
def readAll (room stop : Nat) : (limit : Nat) → Symbols → Decoder (Array UInt8)
  | 0, _ => throw .starved
  | limit + 1, s => do
    let (symbol, s) ← s.next
    if symbol = stop then return (← s.flush room).block
    else if symbol < 2 then
      Decoder.require (s.worth < 2097152)
      readAll room stop limit
        { s with pending := s.pending + (symbol + 1) * s.worth, worth := 2 * s.worth }
    else
      let s ← s.flush room
      let recent := moveToFront (symbol - 1) s.recent
      let s ← s.append room 1 (recent.headD 0)
      readAll room stop limit { s with recent }

end Symbols

/-- For every place of the sorted rotations, the place of the rotation one byte further on. -/
def successors (block : Array UInt8) : Array Nat :=
  let counts := block.foldl (fun counts b => counts.modify b.toNat (· + 1)) (Array.replicate 256 0)
  let starts :=
    counts.foldl (fun (starts, sum) n => (starts.push sum, sum + n)) ((#[] : Array Nat), 0)
  let place (state : Array Nat × Array Nat) (b : UInt8) (i : Nat) : Array Nat × Array Nat :=
    let at_ := state.1.getD b.toNat 0
    (state.1.set! b.toNat (at_ + 1), state.2.set! at_ i)
  (block.foldl (fun (state, i) b => (place state b i, i + 1))
    ((starts.1, Array.replicate block.size 0), 0)).1.2

/-- The `n` bytes that stand at the places that follow one another from `place` on. -/
def follow (block : Array UInt8) (successors : Array Nat) : (n : Nat) → (place : Nat) →
    (found : List UInt8) → List UInt8
  | 0, _, found => found.reverse
  | n + 1, place, found =>
    follow block successors n (successors.getD place 0) (block.getD place 0 :: found)

/-- Undoes the sorting of rotations. The bytes of the block are followed by one more, on which the
rotations go on. -/
def unsort (block : Array UInt8) (origin : Nat) : List UInt8 :=
  let successors := successors block
  follow block successors (block.size + 1) (successors.getD origin 0) []

/-- Undoes the counting of repeated bytes: after four equal bytes, of which `run` have been seen,
the next byte says how many more there are. The last byte is not part of the block; that it is
needed as such a number shows that the block is not sound. -/
def expandRuns : List UInt8 → (last : UInt8) → (run : Nat) → (done : Array UInt8) →
    Array UInt8 × Bool
  | [], _, _, done => (done, true)
  | [beyond], last, run, done =>
    if run = 4 then (done ++ Array.replicate beyond.toNat last, false) else (done, true)
  | b :: rest, last, run, done =>
    if run = 4 then expandRuns rest b 0 (done ++ Array.replicate b.toNat last)
    else if run ≠ 0 ∧ b = last then expandRuns rest last (run + 1) (done.push b)
    else expandRuns rest b 1 (done.push b)

/-- Decodes a block of at most `limit` bits and puts it out; gives the sum by which it is checked.
Stops if the bytes end with the block. A wrong sum shows with the last byte of output, and so does a
missing number of repetitions, but in a dithered block only where one more byte would stand. -/
def block (level limit : Nat) : Decoder UInt32 := do
  let room := 100000 * level
  let sum ← bits 32
  let isDithered ← bits 1
  let origin ← bits 24
  Decoder.require (origin ≤ 10 + room)
  let alphabet ← readAlphabet
  Decoder.require (!alphabet.isEmpty)
  let numCodes ← bits 3
  Decoder.require (2 ≤ numCodes && numCodes ≤ 6)
  let numSelectors ← bits 15
  Decoder.require (1 ≤ numSelectors)
  let selectors ← readSelectors numCodes numSelectors (List.range numCodes) []
  let codes := (← readCodes limit (alphabet.length + 2) numCodes).toArray
  let groups := (selectors.take maxSelectors).filterMap (codes[·]?)
  let sorted ← Symbols.readAll room (alphabet.length + 1) limit
    { groups, code := ⟨[], #[]⟩, recent := alphabet }
  Decoder.require (origin < sorted.size)
  let bytes := unsort sorted origin
  let bytes := if isDithered = 1 then (undither bytes 0 0 #[]).toList else bytes
  let (output, isExpanded) := expandRuns bytes 0 0 #[]
  let found := Checksum.crc32High output
  let settled := (← get).output.size
  let total := settled + output.size
  let flawAt := if !isExpanded then some (total + isDithered)
    else if found.toNat ≠ sum then some total else none
  for b in output do Decoder.emit b
  if ← Decoder.isDrained then throw (.blockEnd settled flawAt)
  Decoder.require flawAt.isNone
  return found

/-- Reads blocks up to the end of a member, with `sum` the sum of the blocks before; every block
takes at least one of the `limit` bits left, and `total` is no less than those. -/
def blocks (level total : Nat) : (limit : Nat) → (sum : UInt32) → Decoder Unit
  | 0, _ => throw .starved
  | limit + 1, sum => do
    match ← bits 8 with
    | 0x31 =>
      expect [0x41, 0x59, 0x26, 0x53, 0x59]
      let found ← block level total
      blocks level total limit ((sum <<< 1 ||| sum >>> 31) ^^^ found)
    | 0x17 =>
      expect [0x72, 0x45, 0x38, 0x50, 0x90]
      Decoder.require ((← bits 32) == sum.toNat)
    | _ => Decoder.reject

def member (limit : Nat) : Decoder Unit := do
  expect [0x42, 0x5A, 0x68]
  let digit ← bits 8
  Decoder.require (0x31 ≤ digit && digit ≤ 0x39)
  blocks (digit - 0x30) limit limit 0
  Decoder.align

end Checkpoint.Bzip2
