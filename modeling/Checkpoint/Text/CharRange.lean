/-! # Ranges of characters

A property of characters is kept as the ranges of code points that have it, in ascending order. -/
namespace Checkpoint.Text

/-- Ranges of code points, each with its first and its last one. -/
abbrev CharRanges := List (Nat × Nat)

namespace CharRanges

def contains (ranges : CharRanges) (c : Char) : Bool :=
  ranges.any fun (first, last) => first ≤ c.toNat && c.toNat ≤ last

/-- Whether the ranges are in ascending order and apart from one another. -/
def areAscending : CharRanges → Bool
  | [] => true
  | [(first, last)] => first ≤ last
  | (first, last) :: (next, stop) :: rest =>
    first ≤ last && last + 1 < next && areAscending ((next, stop) :: rest)

def size : CharRanges → Nat
  | [] => 0
  | (first, last) :: rest => last + 1 - first + size rest

end CharRanges

end Checkpoint.Text
