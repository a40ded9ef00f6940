import Checkpoint.Codec.Decoder

/-! # Prefix codes

A canonical prefix code is given by the lengths of its code words: words of one length are
consecutive numbers in the order of their symbols, and the first word of a length follows the last
word of the length before it. -/
namespace Checkpoint

structure PrefixCode where
  /-- How many code words there are of each length, from one bit on. -/
  counts : List Nat
  /-- The symbols in the order of their code words. -/
  symbols : Array Nat
  deriving Repr

namespace PrefixCode

/-- The code in which symbol `i` has a word of `lengths[i]` bits, or none if that is zero. Words of
up to `width` bits are looked for. -/
def ofLengths (width : Nat) (lengths : List Nat) : PrefixCode :=
  let ofLength (n : Nat) := (lengths.zipIdx.filter (·.1 == n)).map (·.2)
  let groups := (List.range width).map fun i => ofLength (i + 1)
  { counts := groups.map List.length, symbols := groups.flatten.toArray }

def longest (lengths : List Nat) : Nat := lengths.foldl max 0

/-- How many words of the greatest length are not taken, or nothing if there are too many words. -/
def slack (code : PrefixCode) : Option Nat :=
  code.counts.foldlM (fun left n => if n ≤ 2 * left then some (2 * left - n) else none) 1

/-- Goes on reading a word: `word` has been read, `first` is the first word of its length that is
not a shorter word continued, and `index` symbols have shorter words. -/
def decodeFrom (order : BitOrder) (symbols : Array Nat) :
    (counts : List Nat) → (word first index : Nat) → Decoder Nat
  | [], _, _, _ => Decoder.reject
  | n :: counts, word, first, index => do
    let word := 2 * word + (← Decoder.bit order)
    if word < first + n then return symbols.getD (index + (word - first)) 0
    else decodeFrom order symbols counts word (2 * (first + n)) (index + n)

def decode (order : BitOrder) (code : PrefixCode) : Decoder Nat :=
  decodeFrom order code.symbols code.counts 0 0 0

end PrefixCode

end Checkpoint
