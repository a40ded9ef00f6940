import Checkpoint.Codec.Decompressor

/-! # Decoders

Reading a member bit by bit. A decoder stops when it finds that the member is corrupt, or when it is
starved of bits; what it has put out until then stays. -/
namespace Checkpoint

/-- Why decoding stops before the end of a member. -/
inductive Halt where
  | corrupt
  | starved
  /-- The bytes end with a block, before which `settled` bytes have been put out. A flaw of the
  block shows once there is room for `flawAt` bytes of output. -/
  | blockEnd (settled : Nat) (flawAt : Option Nat)
  deriving DecidableEq, Repr

inductive BitOrder where
  | lowFirst
  | highFirst
  deriving DecidableEq, Repr

structure Feed where
  /-- The bytes of which not all bits have been read. -/
  input : Bytes
  /-- How many bits of the first of them have been read. -/
  used : Nat := 0
  /-- How many bytes stand before them. -/
  passed : Nat := 0
  output : Array UInt8 := #[]

abbrev Decoder := EStateM Halt Feed

namespace Decoder

def bit (order : BitOrder) : Decoder Nat := fun s =>
  match s with
  | ⟨[], used, passed, output⟩ => .error .starved ⟨[], used, passed, output⟩
  | ⟨b :: rest, used, passed, output⟩ =>
    let place := match order with
      | .lowFirst => used
      | .highFirst => 7 - used
    let value := b.toNat >>> place % 2
    if used < 7 then .ok value ⟨b :: rest, used + 1, passed, output⟩
    else .ok value ⟨rest, 0, passed + 1, output⟩

/-- The number made of the next `n` bits, of which the first is the lowest or the highest. -/
def bits (order : BitOrder) : (n : Nat) → Decoder Nat
  | 0 => return 0
  | n + 1 => do
    let first ← bit order
    let others ← bits order n
    match order with
    | .lowFirst => return first + 2 * others
    | .highFirst => return (first <<< n) + others

/-- Skips the bits left of a byte of which some have been read. -/
def align : Decoder Unit := fun s =>
  match s with
  | ⟨_ :: rest, _ + 1, passed, output⟩ => .ok () ⟨rest, 0, passed + 1, output⟩
  | s => .ok () s

/-- Whether no byte is left of which nothing has been read. -/
def isDrained : Decoder Bool := do
  let s ← get
  match s.input with
  | [] => return true
  | [_] => return s.used ≠ 0
  | _ => return false

def reject {α : Type} : Decoder α := throw .corrupt

def require (ok : Bool) : Decoder Unit := if ok then return () else reject

def emit (b : UInt8) : Decoder Unit := fun ⟨input, used, passed, output⟩ =>
  .ok () ⟨input, used, passed, output.push b⟩

/-- Puts out again `length` bytes, starting with the one put out `distance` bytes ago. -/
def repeatOutput (distance : Nat) : (length : Nat) → Decoder Unit
  | 0 => return ()
  | length + 1 => do
    let output := (← get).output
    emit (output.getD (output.size - distance) 0)
    repeatOutput distance length

/-- What a decoder makes of the bytes from the start of a member on. It is told a number greater
than that of the bits there are, so it meets their end before it runs out of steps. -/
def decode (decoder : (limit : Nat) → Decoder Unit) (bytes : Bytes) : Decompressor.Decoded :=
  match decoder (8 * bytes.length + 1) { input := bytes } with
  | .ok () s => .finished s.output.toList s.passed
  | .error .corrupt _ => .corrupt
  | .error .starved s => .unfinished s.output.toList
  | .error (.blockEnd settled flawAt) s => .blockEnd settled s.output.toList flawAt

end Decoder

end Checkpoint
