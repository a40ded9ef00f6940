import Checkpoint.ByteStream

/-! # Decompressors

A compressed section is a sequence of members. A decompressor is fed a member chunk by chunk, and
says of each chunk what output it determines and whether the member ends in it. A member that ends
may leave part of the chunk over, with which the next member starts. -/
namespace Checkpoint

/-- What a decompressor makes of a chunk that comes after the chunks `before` of the same member. -/
inductive Fed (before : List Bytes) where
  /-- The chunk is not what the codec writes, with what the codec says of it. -/
  | rejected (reason : String)
  /-- The member goes on after the chunk. -/
  | more (output : Bytes)
  /-- The member ends after `used` bytes of the chunk. It has at least one byte. -/
  | ended (output : Bytes) (used : Nat) (nonempty : before ≠ [] ∨ 0 < used)

/-- A decompressor answers a chunk from the chunks of the same member that came before it. -/
abbrev Decompressor := (before : List Bytes) → (chunk : Bytes) → Fed before

/-- The most compressed bytes that are taken at a time. -/
def chunkSize : Nat := 65536

namespace Decompressor

inductive Phase where
  /-- No member is open; `left` is what the last one left over. -/
  | between (left : Bytes)
  /-- A member is open, and has been fed these chunks. -/
  | inside (before : List Bytes)

structure Inflow where
  /-- The compressed bytes that have not been taken. -/
  source : Bytes
  phase : Phase := .between []
  /-- Output that has not been read. -/
  pending : Bytes := []
  atEnd : Bool := false

namespace Inflow

def absorb (r : Inflow) (before : List Bytes) (chunk : Bytes) :
    Fed before → Except RecordProblem Inflow
  | .rejected reason => .error (.corruptMember reason)
  | .more output => .ok { r with phase := .inside (before ++ [chunk]), pending := output }
  | .ended output used _ => .ok { r with phase := .between (chunk.drop used), pending := output }

/-- Feeds the next chunk: what the last member left over, or else the next bytes of the source.
Without a chunk the section ends, unless a member is open. -/
def fill (d : Decompressor) (r : Inflow) : Except RecordProblem Inflow :=
  match r.phase with
  | .between (b :: left) => r.absorb [] (b :: left) (d [] (b :: left))
  | .between [] =>
    let chunk := r.source.take chunkSize
    if chunk.isEmpty then .ok { r with pending := [], atEnd := true }
    else { r with source := r.source.drop chunkSize }.absorb [] chunk (d [] chunk)
  | .inside before =>
    let chunk := r.source.take chunkSize
    if chunk.isEmpty then .error .truncatedMember
    else { r with source := r.source.drop chunkSize }.absorb before chunk (d before chunk)

/-- The number of compressed bytes that no member has used. -/
def unused (r : Inflow) : Nat :=
  match r.phase with
  | .between left => left.length + r.source.length
  | .inside _ => r.source.length

/-- What is still to be done, as a number that falls with every chunk: the unused bytes, and the end
of an open member, for which nothing more has to be used. -/
def measure (r : Inflow) : Nat :=
  2 * r.unused + (match r.phase with | .between _ => 0 | .inside _ => 1) + if r.atEnd then 0 else 1

/-- Whatever comes of the first chunk of a member, some of it is used. -/
theorem measure_absorb_first {r s : Inflow} {chunk : Bytes} {fed : Fed []} (hc : chunk ≠ [])
    (h : r.absorb [] chunk fed = .ok s) :
    s.measure < 2 * (chunk.length + r.source.length) + if r.atEnd then 0 else 1 := by
  have hp := List.length_pos_iff.mpr hc
  cases fed with
  | rejected => simp [absorb] at h
  | more output =>
    simp only [absorb, Except.ok.injEq] at h
    subst h
    simp only [measure, unused]
    omega
  | ended output used hu =>
    have hu : 0 < used := hu.resolve_left fun hne => hne rfl
    simp only [absorb, Except.ok.injEq] at h
    subst h
    simp only [measure, unused, List.length_drop]
    omega

/-- Of a later chunk some is used, or the member ends. -/
theorem measure_absorb_later {r s : Inflow} {before : List Bytes} {chunk : Bytes}
    {fed : Fed before} (hc : chunk ≠ []) (h : r.absorb before chunk fed = .ok s) :
    s.measure ≤ 2 * (chunk.length + r.source.length) + if r.atEnd then 0 else 1 := by
  have hp := List.length_pos_iff.mpr hc
  cases fed with
  | rejected => simp [absorb] at h
  | more output =>
    simp only [absorb, Except.ok.injEq] at h
    subst h
    simp only [measure, unused]
    omega
  | ended output used hu =>
    simp only [absorb, Except.ok.injEq] at h
    subst h
    simp only [measure, unused, List.length_drop]
    omega

/-- With every chunk there is less to be done. -/
theorem measure_fill_lt {d : Decompressor} {r s : Inflow} (hr : r.atEnd = false)
    (h : r.fill d = .ok s) : s.measure < r.measure := by
  have split : r.source.length =
      (r.source.take chunkSize).length + (r.source.drop chunkSize).length := by
    simp only [List.length_take, List.length_drop]; omega
  simp only [fill] at h
  split at h
  · rename_i b left hp
    have := measure_absorb_first (List.cons_ne_nil b left) h
    simpa [measure, unused, hp] using this
  · rename_i hp
    split at h
    · simp only [Except.ok.injEq] at h
      subst h
      simp [measure, unused, hp, hr]
    · rename_i hc
      have := measure_absorb_first (by simpa using hc) h
      rw [← split] at this
      simpa [measure, unused, hp] using this
  · rename_i before hp
    split at h
    · simp at h
    · rename_i hc
      have := measure_absorb_later (by simpa using hc) h
      rw [← split] at this
      simp only [measure, unused, hp, hr] at this ⊢
      omega

/-- Feeds chunks until there is output to read or the section ends. -/
def refill (d : Decompressor) (r : Inflow) : Except RecordProblem Inflow :=
  if r.pending ≠ [] then .ok r
  else match hr : r.atEnd with
    | true => .ok r
    | false =>
      match h : r.fill d with
      | .error problem => .error problem
      | .ok s =>
        have := measure_fill_lt hr h
        s.refill d
termination_by r.measure
decreasing_by exact this

/-- Reads at most `n` bytes of output; none are there only at the end of the section. -/
def readInto (d : Decompressor) (n : Nat) (r : Inflow) : Except RecordProblem (Bytes × Inflow) :=
  (r.refill d).map fun s => (s.pending.take n, { s with pending := s.pending.drop n })

/-- All output up to the end or to the first fault; what came before is in `found`, last first. -/
def contentInto (d : Decompressor) (found : List Bytes) (r : Inflow) : ByteStream :=
  match hr : r.atEnd with
  | true => ⟨found.reverse.flatten, none⟩
  | false =>
    match h : r.fill d with
    | .error problem => ⟨found.reverse.flatten, some problem⟩
    | .ok s =>
      have := measure_fill_lt hr h
      contentInto d (s.pending :: found) s
termination_by r.measure
decreasing_by exact this

end Inflow

def content (d : Decompressor) (source : Bytes) : ByteStream :=
  Inflow.contentInto d [] { source }

/-- What a decoder makes of the bytes from the start of a member on. -/
inductive Decoded where
  | corrupt
  /-- The bytes end inside the member. -/
  | unfinished (output : Bytes)
  /-- The bytes end inside the member and with a block, whose output comes after `settled` bytes of
  the blocks before. A flaw of the block shows only once there is room for `flawAt` bytes of
  output. -/
  | blockEnd (settled : Nat) (output : Bytes) (flawAt : Option Nat)
  /-- The member ends after `size` bytes. -/
  | finished (output : Bytes) (size : Nat)

/-- The output that a decoder finds in bytes that it does not reject. -/
def Decoded.output : Decoded → Bytes
  | corrupt => []
  | unfinished output => output
  | blockEnd _ output _ => output
  | finished output _ => output

/-- The output of a chunk is delivered in pieces, which end after so many bytes of it. What comes
after the last of these ends is one piece. -/
def pieceEnds : List Nat :=
  [32, 96, 352, 1376, 5472, 13664, 30048, 46432, 79200, 111968, 144736, 177504, 243040, 308576,
   439648, 570720].map (1024 * ·)

/-- How much output there is room for with a chunk that ends with a block, if `delivered` bytes came
with earlier chunks and `settled` come before the block; nothing if there is room for any. The piece
in which the block begins is filled, and no piece is begun when there is nothing left of the
chunk. -/
def room (delivered settled : Nat) : Option Nat :=
  (pieceEnds.find? (settled - delivered ≤ ·)).map (delivered + ·)

/-- How far the `total` bytes of output are delivered with the chunk. -/
def reach (delivered settled total : Nat) : Nat :=
  match room delivered settled with
  | some stop => min total stop
  | none => total

/-- Whether a flaw shows that needs room for `flawAt` bytes. -/
def shows (delivered settled : Nat) (flawAt : Option Nat) : Bool :=
  match flawAt with
  | some needed => (room delivered settled).all (needed ≤ ·)
  | none => false

/-- How much has been delivered with some chunks, of which the last comes first. -/
def delivered (decode : Bytes → Decoded) : List Bytes → Nat
  | [] => 0
  | chunk :: earlier =>
    match decode (chunk :: earlier).reverse.flatten with
    | .blockEnd settled output _ => reach (delivered decode earlier) settled output.length
    | found => found.output.length

/-- The decompressor that gives for each chunk what a decoder finds in addition to what has been
delivered with the chunks before. -/
def ofDecoder (decode : Bytes → Decoded) : Decompressor := fun before chunk =>
  let fed := before.flatten
  let past := delivered decode before.reverse
  match decode (fed ++ chunk) with
  | .corrupt => .rejected ""
  | .unfinished output => .more (output.drop past)
  | .blockEnd settled output flawAt =>
    if shows past settled flawAt then .rejected ""
    else .more ((output.take (reach past settled output.length)).drop past)
  | .finished output size =>
    .ended (output.drop past) (max 1 (size - fed.length))
      (.inr (Nat.lt_of_lt_of_le Nat.one_pos (Nat.le_max_left ..)))

end Decompressor

end Checkpoint
