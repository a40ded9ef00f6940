import Checkpoint.Bytes

/-! # UTF-8

Decoding byte strings that need not be well formed. The bytes are cut into pieces: a piece is a
well-formed sequence, which stands for a character, or the longest start of one that the following
byte does not continue. The lossy reading puts U+FFFD for each piece of the second kind; the strict
reading refuses them. -/
namespace Checkpoint.Utf8

/-- A sequence whose lead byte has been read: the next byte lies in `lo..hi` and `more` bytes
follow that one. -/
structure Partial where
  value : Nat
  lo : Nat
  hi : Nat
  more : Nat
  deriving DecidableEq, Repr

/-- What a byte means where a sequence may begin. -/
inductive Lead where
  | single (c : Char)
  | opens (p : Partial)
  | invalid
  deriving DecidableEq, Repr

/-- Reads a lead byte. The range of the second byte shuts out overlong forms, surrogates and
numbers beyond U+10FFFF. -/
def lead (b : Nat) : Lead :=
  if b < 0x80 then .single (Char.ofNat b)
  else if b < 0xC2 then .invalid
  else if b < 0xE0 then .opens ⟨b - 0xC0, 0x80, 0xBF, 0⟩
  else if b = 0xE0 then .opens ⟨0, 0xA0, 0xBF, 1⟩
  else if b = 0xED then .opens ⟨0x0D, 0x80, 0x9F, 1⟩
  else if b < 0xF0 then .opens ⟨b - 0xE0, 0x80, 0xBF, 1⟩
  else if b = 0xF0 then .opens ⟨0, 0x90, 0xBF, 2⟩
  else if b < 0xF4 then .opens ⟨b - 0xF0, 0x80, 0xBF, 2⟩
  else if b = 0xF4 then .opens ⟨4, 0x80, 0x8F, 2⟩
  else .invalid

/-- Cuts the bytes after an unfinished sequence, if there is one, into pieces; `none` is an
ill-formed piece. The pieces found before are in `found`, last first. -/
def cut (found : List (Option Char)) : Option Partial → Bytes → List (Option Char)
  | none, [] => found.reverse
  | some _, [] => (none :: found).reverse
  | none, b :: rest =>
    match lead b.toNat with
    | .single c => cut (some c :: found) none rest
    | .opens p => cut found (some p) rest
    | .invalid => cut (none :: found) none rest
  | some p, b :: rest =>
    if p.lo ≤ b.toNat ∧ b.toNat ≤ p.hi then
      let value := 64 * p.value + b.toNat % 64
      match p.more with
      | 0 => cut (some (Char.ofNat value) :: found) none rest
      | more + 1 => cut found (some ⟨value, 0x80, 0xBF, more⟩) rest
    else
      match lead b.toNat with
      | .single c => cut (some c :: none :: found) none rest
      | .opens q => cut (none :: found) (some q) rest
      | .invalid => cut (none :: none :: found) none rest

def pieces (bytes : Bytes) : List (Option Char) := cut [] none bytes

/-- The text of a byte string, with U+FFFD for every ill-formed piece. -/
def decodeLossy (bytes : Bytes) : String :=
  String.ofList ((pieces bytes).map (·.getD '\uFFFD'))

def decode? (bytes : Bytes) : Option String :=
  let found := pieces bytes
  if found.all Option.isSome then some (String.ofList (found.filterMap id)) else none

def encode (text : String) : Bytes := text.toUTF8.toList

end Checkpoint.Utf8
