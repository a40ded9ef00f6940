import Checkpoint.Bytes

/-! # Varints

A number as groups of seven bits, lowest first, one group a byte; every byte but the last has its
top bit set. A varint has at most ten bytes, and all seventy bits of them count. -/
namespace Checkpoint.Varint

inductive Fault where
  | truncated
  | tooLong
  deriving DecidableEq, Repr

def maxBytes : Nat := 10

/-- Reads a varint of at most `limit` bytes: its value and the bytes after it. -/
def decodeWithin : (limit : Nat) → Bytes → Except Fault (Nat × Bytes)
  | 0, _ => .error .tooLong
  | _ + 1, [] => .error .truncated
  | limit + 1, b :: rest =>
    if b.toNat < 128 then .ok (b.toNat, rest)
    else match decodeWithin limit rest with
      | .ok (high, left) => .ok (b.toNat - 128 + 128 * high, left)
      | .error fault => .error fault

/-- Reads the varint at the start of `bytes`: its value and the bytes after it. -/
def decode (bytes : Bytes) : Except Fault (Nat × Bytes) := decodeWithin maxBytes bytes

/-- Reads the varint at position `pos` of `bytes`: its value and the position after it. -/
def decodeAt (bytes : Bytes) (pos : Nat) : Except Fault (Nat × Nat) :=
  (decode (bytes.drop pos)).map fun (value, rest) => (value, bytes.length - rest.length)

/-- Reads the varint that starts `back` bytes before the end, as if the bytes stood in a ring: its
value and the position after it, which is negative before the end. Nothing if there are not so many
bytes. -/
def decodeBack (bytes : Bytes) (back : Nat) : Option (Except Fault (Nat × Int)) :=
  if bytes.length < back then none
  else
    let ring := bytes.drop (bytes.length - back) ++ bytes
    some ((decode ring).map fun (value, rest) =>
      (value, (ring.length - rest.length : Int) - back))

/-- The shortest bytes of a number. -/
def encode (n : Nat) : Bytes :=
  if n < 128 then [UInt8.ofNat n] else UInt8.ofNat (n % 128 + 128) :: encode (n / 128)
termination_by n
decreasing_by omega

/-- However many bytes are allowed, at least one is taken. -/
theorem length_lt_of_decodeWithin {limit : Nat} {bytes rest : Bytes} {value : Nat}
    (h : decodeWithin limit bytes = .ok (value, rest)) : rest.length < bytes.length := by
  induction limit generalizing bytes value with
  | zero => simp [decodeWithin] at h
  | succ limit ih =>
    cases bytes with
    | nil => simp [decodeWithin] at h
    | cons b tail =>
      simp only [decodeWithin] at h
      split at h
      · simp_all
      · split at h
        · rename_i eq
          simp only [Except.ok.injEq, Prod.mk.injEq] at h
          have := ih (h.2 ▸ eq)
          simp only [List.length_cons]
          omega
        · simp at h

/-- A varint takes at least one byte. -/
theorem length_lt_of_decode {bytes rest : Bytes} {value : Nat}
    (h : decode bytes = .ok (value, rest)) : rest.length < bytes.length :=
  length_lt_of_decodeWithin h

/-- Reads varints up to the end of the bytes; those read before are in `found`, last first. -/
def decodeAllInto (found : List Nat) (bytes : Bytes) : Except Fault (List Nat) :=
  match bytes with
  | [] => .ok found.reverse
  | b :: tail =>
    match h : decode (b :: tail) with
    | .ok (value, rest) =>
      have := length_lt_of_decode h
      decodeAllInto (value :: found) rest
    | .error fault => .error fault
termination_by bytes.length
decreasing_by exact this

def decodeAll (bytes : Bytes) : Except Fault (List Nat) := decodeAllInto [] bytes

end Checkpoint.Varint
