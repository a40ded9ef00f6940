import Checkpoint.Codec.Zlib
import Checkpoint.Proofs.Feeds

/-! # Inflating feeds that go on

Each step of inflating does with more bytes what it does with the first ones, up to where these
end. -/
namespace Checkpoint

open Decoder (Sync)

variable {c : Cut} {l l' : Nat}

theorem PrefixCode.decodeFrom_sync (order : BitOrder) (symbols : Array Nat) (counts : List Nat)
    (word first index : Nat) : Sync c l 1 0 (decodeFrom order symbols counts word first index)
      (decodeFrom order symbols counts word first index) := by
  induction counts generalizing word first index with
  | nil => exact .reject
  | cons n counts ih =>
    refine (Sync.bit order).followed fun b => ?_
    dsimp only
    split
    · exact .pure _
    · exact (ih _ _ _).mono (Nat.le_refl _) (Nat.zero_le _) (Nat.le_refl _)

/-- A word of a code has at least one bit. -/
theorem PrefixCode.decode_sync (order : BitOrder) (code : PrefixCode) :
    Sync c l 1 0 (code.decode order) (code.decode order) :=
  decodeFrom_sync order _ _ _ _ _

namespace Deflate

theorem bits_sync (n : Nat) : Sync c l n 0 (bits n) (bits n) := .bits .lowFirst n

theorem extended_sync (codes : Array (Nat × Nat)) (symbol : Nat) :
    Sync c l 0 0 (extended codes symbol) (extended codes symbol) := by
  unfold extended
  cases codes[symbol]? with
  | none => exact .reject
  | some code => exact (bits_sync code.2).andThen fun extra => .pure _

theorem symbols_sync (codes : Codes) (h : l ≤ l') :
    Sync c l 0 0 (symbols codes l) (symbols codes l') := by
  refine Sync.of_limited (fun l (_ : Unit) => symbols codes l) (fun l _ => symbols codes l)
    (Nat.succ_pos l) (fun _ => rfl) (fun _ => rfl) ?_ h (Nat.le_succ l) ()
  intro l l' _ ih _
  refine (PrefixCode.decode_sync .lowFirst codes.literals).taking fun symbol => ?_
  split
  · exact (Sync.emit _).andThen ih
  · split
    · exact .pure ()
    · refine (extended_sync _ _).andThen fun length => ?_
      refine (PrefixCode.decode_sync .lowFirst codes.distances).andThen fun word => ?_
      refine (extended_sync _ _).andThen fun distance => ?_
      refine .get fun s s' ho _ => ?_
      rw [ho]
      refine (Sync.require _).andThen fun _ => ?_
      exact (Sync.repeatOutput distance length).andThen ih

theorem copy_sync (n : Nat) : Sync c l 0 0 (copy n) (copy n) := by
  induction n with
  | zero => exact .pure ()
  | succ n ih => exact (bits_sync 8).andThen fun b => (Sync.emit _).andThen fun _ => ih

theorem stored_sync : Sync c l 0 0 stored stored :=
  Sync.align.andThen fun _ => (bits_sync 32).andThen fun _ =>
    (Sync.require _).andThen fun _ => copy_sync _

theorem lengthCode_sync (lengths : List Nat) :
    Sync c l 0 0 (lengthCode lengths) (lengthCode lengths) := by
  unfold lengthCode
  dsimp only
  split
  · exact .pure _
  · exact (Sync.require _).andThen fun _ => .pure _

theorem codeLengths_sync (code : PrefixCode) (total limit : Nat) (found : List Nat) :
    Sync c l 0 0 (codeLengths code total limit found) (codeLengths code total limit found) := by
  induction limit generalizing found with
  | zero => exact .pure _
  | succ limit ih =>
    unfold codeLengths
    split
    · exact .pure _
    · refine (PrefixCode.decode_sync .lowFirst code).andThen fun symbol => ?_
      split
      · exact ih _
      · dsimp only
        split
        all_goals
          refine ((bits_sync _).map _).andThen fun count => ?_
          split
          · exact .reject_bind
          · exact (Sync.pure _).andThen fun length => (Sync.require _).andThen fun _ => ih _
          · exact (Sync.pure _).andThen fun length => (Sync.require _).andThen fun _ => ih _

theorem blockCode_sync (lengths : List Nat) :
    Sync c l 0 0 (blockCode lengths) (blockCode lengths) := by
  unfold blockCode
  dsimp only
  split
  · exact .reject_bind
  · exact (Sync.require _).andThen fun _ => .pure _

theorem readLengths_sync (places : List Nat) :
    Sync c l 0 0 (readLengths places) (readLengths places) := by
  induction places with
  | nil => exact .pure _
  | cons place places ih =>
    exact (bits_sync 3).andThen fun length => ih.andThen fun others => .pure _

theorem describedCodes_sync : Sync c l 0 0 describedCodes describedCodes := by
  refine (bits_sync 5).andThen fun literals => (bits_sync 5).andThen fun distances =>
    (bits_sync 4).andThen fun lengths => (Sync.require _).andThen fun _ =>
    (readLengths_sync _).andThen fun given => (lengthCode_sync _).andThen fun code =>
    (codeLengths_sync code _ _ _).andThen fun lengths => (Sync.require _).andThen fun _ =>
    (blockCode_sync _).andThen fun literals => (blockCode_sync _).andThen fun distances => .pure _

theorem blocks_sync {total total' : Nat} (h : l ≤ l') (ht : l ≤ total) (hle : total ≤ total') :
    Sync c l 0 0 (blocks total l) (blocks total' l') := by
  refine Sync.of_limited (fun l (_ : Unit) => blocks total l) (fun l _ => blocks total' l)
    (Nat.succ_pos total) (fun _ => rfl) (fun _ => rfl) ?_ h (Nat.le_succ_of_le ht) ()
  intro l l' hl ih _
  have hsymbols (codes : Codes) : Sync c l 0 0 (symbols codes total) (symbols codes total') :=
    (symbols_sync codes hle).mono (Nat.le_of_lt_succ hl) (Nat.le_refl _) (Nat.le_refl _)
  refine Sync.taking (bits_sync 3) fun header => ?_
  have hrest (_ : Unit) :
      Sync c l 0 0 (if header % 2 = 1 then return () else blocks total l)
        (if header % 2 = 1 then return () else blocks total' l') := by
    split
    · exact .pure ()
    · exact ih ()
  dsimp only
  split
  · exact stored_sync.andThen hrest
  · exact (hsymbols fixedCodes).andThen hrest
  · exact describedCodes_sync.andThen fun codes => (hsymbols codes).andThen hrest
  · exact .reject_bind

theorem member_sync (h : l ≤ l') : Sync c l 0 0 (member l) (member l') :=
  (blocks_sync h (Nat.le_refl l) h).andThen fun _ => .align

end Deflate

namespace Zlib

theorem member_sync (h : l ≤ l') : Sync c l 0 0 (member l) (member l') := by
  refine (Deflate.bits_sync 8).andThen fun method => (Deflate.bits_sync 8).andThen fun flags =>
    (Sync.require _).andThen fun _ => ?_
  have hrest : Sync c l 0 0 (do
      Deflate.member l
      let sum ← Decoder.bits .highFirst 32
      Decoder.require (sum == Checksum.adler32 (← get).output)) (do
      Deflate.member l'
      let sum ← Decoder.bits .highFirst 32
      Decoder.require (sum == Checksum.adler32 (← get).output)) := by
    refine (Deflate.member_sync h).andThen fun _ => (Sync.bits _ _).andThen fun sum => ?_
    refine .get fun s s' ho _ => ?_
    rw [ho]
    exact .require _
  dsimp only
  split
  · exact (Deflate.bits_sync 32).andThen fun _ => .reject_bind
  · exact hrest

end Zlib

namespace Gzip

theorem skip_sync (n : Nat) : Sync c l 0 0 (skip n) (skip n) := by
  induction n with
  | zero => exact .pure ()
  | succ n ih => exact (Deflate.bits_sync 8).andThen fun _ => ih

theorem skipText_sync (h : l ≤ l') : Sync c l 0 0 (skipText l) (skipText l') := by
  refine Sync.of_limited (fun l (_ : Unit) => skipText l) (fun l _ => skipText l)
    (Nat.succ_pos l) (fun _ => rfl) (fun _ => rfl) ?_ h (Nat.le_succ l) ()
  intro l l' _ ih _
  refine Sync.taking (Deflate.bits_sync 8) fun b => ?_
  split
  · exact .pure ()
  · exact ih ()

/-- Checks what has been read of a feed that started with the given bytes. -/
def checkHeader (start : Bytes) : Decoder Unit := do
  let read := start.take (← get).passed
  Decoder.require ((← Deflate.bits 16) == Checksum.crc32 read.toArray % 65536)

/-- Reads a header in a feed that started with the given bytes. -/
def headerFrom (start : Bytes) (limit : Nat) : Decoder Unit := do
  Decoder.require ((← Deflate.bits 16) == 0x8B1F)
  let method ← Deflate.bits 8
  let flags ← Deflate.bits 8
  Decoder.require (method == 8 && flags < 32)
  let _ ← Deflate.bits 32
  let _ ← Deflate.bits 16
  if flags / 4 % 2 = 1 then skip (← Deflate.bits 16)
  if flags / 8 % 2 = 1 then skipText limit
  if flags / 16 % 2 = 1 then skipText limit
  if flags / 2 % 2 = 1 then checkHeader start

/-- Decodes a member of a feed that started with the given bytes. -/
def memberFrom (start : Bytes) (limit : Nat) : Decoder Unit := do
  headerFrom start limit
  Deflate.member limit
  let sum ← Deflate.bits 32
  Decoder.require (sum == Checksum.crc32 (← get).output)
  let length ← Deflate.bits 32
  Decoder.require (length == (← get).output.size % 4294967296)

theorem header_of_start (limit : Nat) (s : Feed) : header limit s = headerFrom s.input limit s := by
  unfold header
  rfl

theorem member_of_start (limit : Nat) (s : Feed) : member limit s = memberFrom s.input limit s := by
  unfold member memberFrom
  change EStateM.bind (header limit) _ s = EStateM.bind (headerFrom s.input limit) _ s
  unfold EStateM.bind
  rw [header_of_start]

variable {start start' : Bytes}

/-- What has been read is the same whatever comes after the first bytes. -/
theorem checkHeader_sync (hs : ∀ n ≤ c.size, start.take n = start'.take n) :
    Sync c l 0 0 (checkHeader start) (checkHeader start') :=
  .get_passed (start.take ·) (start'.take ·)
    (fun read => do
      Decoder.require ((← Deflate.bits 16) == Checksum.crc32 read.toArray % 65536))
    hs fun _ => (Deflate.bits_sync 16).andThen fun _ => .require _

theorem headerFrom_sync (hs : ∀ n ≤ c.size, start.take n = start'.take n) (h : l ≤ l') :
    Sync c l 0 0 (headerFrom start l) (headerFrom start' l') := by
  have htext {b : Prop} [Decidable b] {r r' : Decoder Unit} (hr : Sync c l 0 0 r r') :
      Sync c l 0 0 (if b then do skipText l; r else r) (if b then do skipText l'; r' else r') := by
    split
    · exact (skipText_sync h).andThen fun _ => hr
    · exact hr
  refine (Deflate.bits_sync 16).andThen fun magic => (Sync.require _).andThen fun _ =>
    (Deflate.bits_sync 8).andThen fun method => (Deflate.bits_sync 8).andThen fun flags =>
    (Sync.require _).andThen fun _ => (Deflate.bits_sync 32).andThen fun _ =>
    (Deflate.bits_sync 16).andThen fun _ => ?_
  have hcheck : Sync c l 0 0 (if flags / 2 % 2 = 1 then checkHeader start else pure ())
      (if flags / 2 % 2 = 1 then checkHeader start' else pure ()) := by
    split
    · exact checkHeader_sync hs
    · exact .pure ()
  dsimp only
  split
  · refine (Deflate.bits_sync 16).andThen fun n => (skip_sync n).andThen fun _ => ?_
    exact htext (htext hcheck)
  · exact htext (htext hcheck)

theorem memberFrom_sync (hs : ∀ n ≤ c.size, start.take n = start'.take n) (h : l ≤ l') :
    Sync c l 0 0 (memberFrom start l) (memberFrom start' l') := by
  refine (headerFrom_sync hs h).andThen fun _ => (Deflate.member_sync h).andThen fun _ =>
    (Deflate.bits_sync 32).andThen fun sum => .get fun s s' ho _ => ?_
  rw [ho]
  refine (Sync.require _).andThen fun _ => (Deflate.bits_sync 32).andThen fun length =>
    .get fun t t' ho _ => ?_
  rw [ho]
  exact .require _

end Gzip

end Checkpoint
