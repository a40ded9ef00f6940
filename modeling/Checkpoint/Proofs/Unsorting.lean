import Checkpoint.Codec.Bzip2
import Checkpoint.Proofs.Inflation

/-! # Unsorting feeds that go on

Each step of reading sorted blocks does with more bytes what it does with the first ones, up to
where these end; a block at the end of the first ones is passed when there are more. -/
namespace Checkpoint.Bzip2

open Decoder (Sync Follows)

variable {c : Cut} {l l' : Nat}

theorem bits_sync (n : Nat) : Sync c l n 0 (bits n) (bits n) := .bits .highFirst n

theorem expect_sync (bytes : List Nat) : Sync c l 0 0 (expect bytes) (expect bytes) := by
  induction bytes with
  | nil => exact .pure ()
  | cons b rest ih => exact (bits_sync 8).andThen fun _ => (Sync.require _).andThen fun _ => ih

theorem readPlace_sync (limit tries place : Nat) :
    Sync c l 0 0 (readPlace limit tries place) (readPlace limit tries place) := by
  induction tries generalizing place with
  | zero => exact .reject
  | succ tries ih =>
    refine (bits_sync 1).andThen fun b => ?_
    split
    · exact .pure _
    · split
      · exact .reject_bind
      · exact ih _

theorem readSelectors_sync (numCodes n : Nat) (recent found : List Nat) :
    Sync c l 0 0 (readSelectors numCodes n recent found)
      (readSelectors numCodes n recent found) := by
  induction n generalizing recent found with
  | zero => exact .pure _
  | succ n ih => exact (readPlace_sync _ _ _).andThen fun place => ih _ _

theorem readLength_sync (h : l ≤ l') (length : Nat) :
    Sync c l 0 0 (readLength l length) (readLength l' length) := by
  refine Sync.of_limited readLength readLength (Nat.succ_pos l) (fun _ => rfl) (fun _ => rfl)
    ?_ h (Nat.le_succ l) length
  intro l l' _ ih length
  refine (Sync.require _).andThen fun _ => Sync.taking (bits_sync 1) fun b => ?_
  split
  · exact .pure _
  · refine (bits_sync 1).andThen fun b => ?_
    split
    · exact ih _
    · exact ih _

theorem readLengths_sync (h : l ≤ l') (n length : Nat) :
    Sync c l 0 0 (readLengths l n length) (readLengths l' n length) := by
  induction n generalizing length with
  | zero => exact .pure _
  | succ n ih =>
    exact (readLength_sync h length).andThen fun length => (ih length).andThen fun _ => .pure _

theorem readCodes_sync (h : l ≤ l') (size n : Nat) :
    Sync c l 0 0 (readCodes l size n) (readCodes l' size n) := by
  induction n with
  | zero => exact .pure _
  | succ n ih =>
    exact (bits_sync 5).andThen fun length => (readLengths_sync h size length).andThen fun _ =>
      ih.andThen fun _ => .pure _

theorem readSet_sync : Sync c l 0 0 readSet readSet :=
  (bits_sync 16).andThen fun _ => .pure _

theorem readAlphabet_sync : Sync c l 0 0 readAlphabet readAlphabet := by
  have hset (i : Nat) := (readSet_sync (c := c) (l := l)).andThen fun set =>
    Sync.pure (c := c) (l := l) (set.map fun j => UInt8.ofNat (16 * i + j))
  exact readSet_sync.andThen fun sixteenths => (Sync.mapM hset sixteenths).andThen fun sets =>
    .pure _

namespace Symbols

theorem next_sync (s : Symbols) : Sync c l 1 0 s.next s.next := by
  unfold next
  split
  · split
    · exact .reject
    · exact (PrefixCode.decode_sync _ _).followed fun _ => .pure _
  · exact (PrefixCode.decode_sync _ _).followed fun _ => .pure _

theorem append_sync (room n : Nat) (b : UInt8) (s : Symbols) :
    Sync c l 0 0 (s.append room n b) (s.append room n b) :=
  (Sync.require _).andThen fun _ => .pure _

theorem flush_sync (room : Nat) (s : Symbols) : Sync c l 0 0 (s.flush room) (s.flush room) :=
  (append_sync room _ _ s).map _

theorem readAll_sync (room stop : Nat) (h : l ≤ l') (s : Symbols) :
    Sync c l 0 0 (readAll room stop l s) (readAll room stop l' s) := by
  refine Sync.of_limited (readAll room stop) (readAll room stop) (Nat.succ_pos l) (fun _ => rfl)
    (fun _ => rfl) ?_ h (Nat.le_succ l) s
  intro l l' _ ih s
  refine Sync.taking (next_sync s) fun read => ?_
  obtain ⟨symbol, s⟩ := read
  dsimp only
  split
  · exact (flush_sync room s).andThen fun _ => .pure _
  · split
    · exact (Sync.require _).andThen fun _ => ih _
    · exact (flush_sync room s).andThen fun s => (append_sync room _ _ s).andThen fun _ => ih _

end Symbols

/-! ## The end of a block -/

theorem isDrained_of_sound {s : Feed} (hs : s.Sound) :
    Decoder.isDrained s = .ok (decide (s.left < 8)) s := by
  obtain ⟨input, used, passed, output⟩ := s
  have hu : used < 8 := hs.used_lt
  match input with
  | [] =>
    rw [decide_eq_true (by simp only [Feed.left, List.length_nil]; omega)]
    rfl
  | [b] =>
    have hleft : used ≠ 0 ↔ Feed.left ⟨[b], used, passed, output⟩ < 8 := by
      simp only [Feed.left, List.length_singleton]
      omega
    rw [← decide_eq_decide.mpr hleft]
    rfl
  | _ :: _ :: rest =>
    rw [decide_eq_false (by simp only [Feed.left, List.length_cons]; omega)]
    rfl

/-- What is done at the end of a block: a flaw shows when there are more bytes, and decoding stops
when there are none. -/
def closeBlock (settled : Nat) (flawAt : Option Nat) (found : UInt32) : Decoder UInt32 := do
  if ← Decoder.isDrained then throw (.blockEnd settled flawAt)
  Decoder.require flawAt.isNone
  return found

theorem closeBlock_of_sound {s : Feed} (hs : s.Sound) (settled : Nat) (flawAt : Option Nat)
    (found : UInt32) : closeBlock settled flawAt found s =
      if s.left < 8 then .error (.blockEnd settled flawAt) s
      else match flawAt with
        | none => .ok found s
        | some _ => .error .corrupt s := by
  change EStateM.bind Decoder.isDrained _ s = _
  unfold EStateM.bind
  rw [isDrained_of_sound hs]
  by_cases h : s.left < 8
  · simp only [h, decide_true]
    rfl
  · simp only [h, decide_false]
    cases flawAt <;> rfl

theorem closeBlock_moves (settled : Nat) (flawAt : Option Nat) (found : UInt32) :
    Decoder.Moves 0 (closeBlock settled flawAt found) where
  ok {s a t} hs hr := by
    rw [closeBlock_of_sound hs] at hr
    split at hr
    · cases hr
    · split at hr
      · cases hr
        exact .refl hs
      · cases hr
  error {s h t} hs hr := by
    rw [closeBlock_of_sound hs] at hr
    split at hr
    · cases hr
      exact List.prefix_rfl
    · split at hr
      · cases hr
      · cases hr
        exact List.prefix_rfl

/-- With more bytes the last bits of a block at the end of the first ones are passed over. -/
theorem closeBlock_sync (settled : Nat) (flawAt : Option Nat) (found : UInt32) :
    Sync c l 0 8 (closeBlock settled flawAt found) (closeBlock settled flawAt found) where
  short := closeBlock_moves ..
  long := closeBlock_moves ..
  follows {s} hs _ _ := by
    have hmore : 0 < c.more.length := List.length_pos_iff.mpr c.more_ne
    have hleft : (s.extend c.more).left = s.left + 8 * c.more.length := Feed.left_extend hs
    have hlong : ¬(s.extend c.more).left < 8 := by omega
    rw [closeBlock_of_sound hs, closeBlock_of_sound (hs.extend c.more_ne), if_neg hlong]
    split
    · cases flawAt with
      | none => exact .passed found trivial List.prefix_rfl (by omega)
      | some needed => exact .corrupt _ _ _
    · cases flawAt with
      | none => exact .same found s
      | some needed => exact .corrupt _ _ _

theorem block_sync (level : Nat) (h : l ≤ l') : Sync c l 0 8 (block level l) (block level l') := by
  refine (bits_sync 32).andThen fun sum => (bits_sync 1).andThen fun isDithered =>
    (bits_sync 24).andThen fun origin => (Sync.require _).andThen fun _ =>
    readAlphabet_sync.andThen fun alphabet => (Sync.require _).andThen fun _ =>
    (bits_sync 3).andThen fun numCodes => (Sync.require _).andThen fun _ =>
    (bits_sync 15).andThen fun numSelectors => (Sync.require _).andThen fun _ =>
    (readSelectors_sync _ _ _ _).andThen fun selectors =>
    (readCodes_sync h _ _).andThen fun codes =>
    (Symbols.readAll_sync _ _ h _).andThen fun sorted => (Sync.require _).andThen fun _ => ?_
  refine .get fun s s' ho _ => ?_
  rw [ho]
  exact (Sync.forIn Sync.emit _).andThen fun _ => closeBlock_sync _ _ _

theorem blocks_sync (level : Nat) {total total' : Nat} (h : l ≤ l') (ht : l ≤ total)
    (hle : total ≤ total') (sum : UInt32) :
    Sync c l 8 0 (blocks level total l sum) (blocks level total' l' sum) := by
  refine Sync.of_limited (blocks level total) (blocks level total') (Nat.succ_pos total)
    (fun _ => rfl) (fun _ => rfl) ?_ h (Nat.le_succ_of_le ht) sum
  intro l l' hl ih sum
  refine (bits_sync 8).bind (fun b => (?_ : Sync c l 0 0 _ _)) (by omega) (Nat.zero_le _)
  split
  · refine (expect_sync _).andThen fun _ => ?_
    have hblock : Sync c l 0 8 (block level total) (block level total') :=
      (block_sync level hle).mono (Nat.le_of_lt_succ hl) (Nat.le_refl _) (Nat.le_refl _)
    exact (hblock.bind (fun found => ih _) (Nat.le_refl _) (Nat.le_refl _)).mono (Nat.le_refl _)
      (Nat.zero_le _) (Nat.le_refl _)
  · exact (expect_sync _).andThen fun _ => (bits_sync 32).andThen fun _ => .require _
  · exact .reject

theorem member_sync (h : l ≤ l') : Sync c l 0 0 (member l) (member l') := by
  refine (expect_sync _).andThen fun _ => (bits_sync 8).andThen fun digit =>
    (Sync.require _).andThen fun _ => ?_
  exact (blocks_sync _ h (Nat.le_refl _) h 0).andThen fun _ => .align

end Checkpoint.Bzip2
