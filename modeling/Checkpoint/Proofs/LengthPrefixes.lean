import Checkpoint.Proofs.Varints
import Checkpoint.Wire.Framing

/-! # Lengths in a stream

The length in front of a record is read from its stream byte by byte, and a varint in a buffer at a
position. Both read the same: the same number and up to the same place, and where one finds none the
other does not, for the same reason. Only the end of a stream is no fault, where a buffer is too
short. -/
namespace Checkpoint

/-- What is wrong with a length, when its groups are. -/
def RecordProblem.ofLength (record : String) : Varint.Fault → RecordProblem
  | .truncated => .truncatedLength record
  | .tooLong => .longLength record

namespace ByteStream

variable {record : String} {limit : Nat} {bytes : Bytes} {fault : Varint.Fault}

/-- Groups that do not end within reach are read as far as that. -/
theorem moreLength_of_fault (record : String) (h : Varint.decodeWithin limit bytes = .error fault) :
    moreLength record limit ⟨bytes, none⟩ =
      .error (.ofLength record fault) ⟨bytes.drop limit, none⟩ := by
  induction limit generalizing bytes with
  | zero => cases h; rfl
  | succ limit ih =>
    cases bytes with
    | nil => cases h; rfl
    | cons b tail =>
      have hnext : next ⟨b :: tail, none⟩ = .ok (some b) ⟨tail, none⟩ := rfl
      obtain ⟨hb, hrest⟩ := Varint.decodeWithin_cons_eq_error_iff.mp h
      rw [moreLength, bind_ok hnext]
      dsimp only
      rw [if_neg (Nat.not_lt.mpr hb)]
      exact bind_error (ih hrest)

theorem readLength_of_fault (record : String) (hne : bytes ≠ [])
    (h : Varint.decode bytes = .error fault) : readLength record ⟨bytes, none⟩ =
      .error (.ofLength record fault) ⟨bytes.drop Varint.maxBytes, none⟩ := by
  cases bytes with
  | nil => exact absurd rfl hne
  | cons b tail =>
    have hnext : next ⟨b :: tail, none⟩ = .ok (some b) ⟨tail, none⟩ := rfl
    obtain ⟨hb, hrest⟩ := Varint.decodeWithin_cons_eq_error_iff.mp h
    rw [readLength, bind_ok hnext]
    dsimp only
    rw [if_neg (Nat.not_lt.mpr hb)]
    exact bind_error (moreLength_of_fault record hrest)

/-- The stream of some bytes, standing at a position. -/
structure StandsAt (bytes : Bytes) (pos : Nat) (s : ByteStream) : Prop where
  le_length : pos ≤ bytes.length
  eq_drop : s = ⟨bytes.drop pos, none⟩

variable {s : ByteStream} {pos : Nat}

/-- A stream stands at one position only. -/
theorem StandsAt.unique {other : Nat} (h : StandsAt bytes pos s) (ho : StandsAt bytes other s) :
    pos = other := by
  have hu := congrArg (fun s => s.unread.length) (h.eq_drop.symm.trans ho.eq_drop)
  have := h.le_length
  have := ho.le_length
  simp only [List.length_drop] at hu
  omega

/-- How a length is read where a stream stands, beside the varint in the buffer. -/
inductive ReadsAlike (record : String) (bytes : Bytes) (pos : Nat) (s : ByteStream) : Prop
  | found {value next : Nat} {t : ByteStream} : pos < bytes.length →
      Varint.decodeAt bytes pos = .ok (value, next) → readLength record s = .ok (some value) t →
      StandsAt bytes next t → ReadsAlike record bytes pos s
  | ended : pos = bytes.length → Varint.decodeAt bytes pos = .error .truncated →
      readLength record s = .ok none s → ReadsAlike record bytes pos s
  | failed {fault : Varint.Fault} {t : ByteStream} : pos < bytes.length →
      Varint.decodeAt bytes pos = .error fault →
      readLength record s = .error (.ofLength record fault) t → ReadsAlike record bytes pos s

theorem StandsAt.readsAlike (h : StandsAt bytes pos s) (record : String) :
    ReadsAlike record bytes pos s := by
  obtain ⟨hpos, rfl⟩ := h
  cases hd : Varint.decodeAt bytes pos with
  | ok found =>
    obtain ⟨value, next⟩ := found
    obtain ⟨before, code, after, rfl, rfl, hs, rfl⟩ := Varint.decodeAt_iff.mp hd
    have hcode := List.length_pos_iff.mpr hs.1.ne_nil
    refine .found (t := ⟨after, none⟩) ?_ hd ?_ ⟨?_, ?_⟩
    · simp only [List.length_append]
      omega
    · rw [List.append_assoc, List.drop_left]
      exact readLength_of_decode (Varint.reads_decode.ok hs after)
    · simp
    · rw [← List.length_append, List.drop_left]
  | error fault =>
    rcases Nat.eq_or_lt_of_le hpos with rfl | hlt
    · refine .ended rfl ?_ ?_
      · rw [Varint.decodeAt, List.drop_length]
        rfl
      · rw [List.drop_length]
        rfl
    · have hne : bytes.drop pos ≠ [] := by simpa using hlt
      refine .failed hlt hd (readLength_of_fault record hne ?_)
      rw [Varint.decodeAt] at hd
      cases hw : Varint.decode (bytes.drop pos) with
      | ok found => rw [hw] at hd; cases hd
      | error cause => rw [hw] at hd; cases hd; rfl

/-- A length in a stream is read as the varint in the buffer is, from every position. The number and
the position after it are the same. The end of the stream is found exactly at the end of the buffer,
where a varint would be cut short. Everywhere else both fail or neither does, and both because there
are too many groups, or both because the bytes end inside them. -/
theorem readLength_agrees (record : String) (h : StandsAt bytes pos s) :
    (∀ value next, (∃ t, readLength record s = .ok (some value) t ∧ StandsAt bytes next t) ↔
      Varint.decodeAt bytes pos = .ok (value, next)) ∧
    ((∃ t, readLength record s = .ok none t) ↔ pos = bytes.length) ∧
    (pos = bytes.length → Varint.decodeAt bytes pos = .error .truncated) ∧
    ((∃ problem t, readLength record s = .error problem t) ↔
      pos < bytes.length ∧ ∃ fault, Varint.decodeAt bytes pos = .error fault) ∧
    ((∃ t, readLength record s = .error (.longLength record) t) ↔
      Varint.decodeAt bytes pos = .error .tooLong) ∧
    ((∃ t, readLength record s = .error (.truncatedLength record) t) ↔
      pos < bytes.length ∧ Varint.decodeAt bytes pos = .error .truncated) := by
  cases h.readsAlike record with
  | @found value next t hlt hd hr ht =>
    refine ⟨fun value' next' => ?_, ?_, ?_, ?_, ?_, ?_⟩
    · rw [hd, hr]
      constructor
      · rintro ⟨t', he, ht'⟩
        cases he
        rw [ht.unique ht']
      · intro he
        cases he
        exact ⟨t, rfl, ht⟩
    · simp [hr, Nat.ne_of_lt hlt]
    · simp [Nat.ne_of_lt hlt]
    · simp [hr, hd]
    · simp [hr, hd]
    · simp [hr, hd]
  | ended he hd hr =>
    subst he
    simp [hd, hr]
  | @failed fault t hlt hd hr =>
    have hne := Nat.ne_of_lt hlt
    cases fault <;> simp [hd, hr, hlt, hne, RecordProblem.ofLength]

/-- A length of two groups, then one that has no last group, then the end. -/
theorem readLength_agrees_twice :
    (∃ t, readLength "INode" ⟨[172, 2, 128], none⟩ = .ok (some 300) t ∧
      StandsAt [172, 2, 128] 2 t) ∧
    (∃ t, readLength "INode" ⟨[128], none⟩ = .error (.truncatedLength "INode") t) ∧
    ∃ t, readLength "INode" ⟨[], none⟩ = .ok none t := by
  have hfirst : StandsAt [172, 2, 128] 0 ⟨[172, 2, 128], none⟩ := ⟨by decide, rfl⟩
  have hsecond : StandsAt [172, 2, 128] 2 ⟨[128], none⟩ := ⟨by decide, rfl⟩
  have hend : StandsAt [172, 2, 128] 3 ⟨[], none⟩ := ⟨by decide, rfl⟩
  refine ⟨((readLength_agrees "INode" hfirst).1 300 2).mpr (by decide), ?_,
    (readLength_agrees "INode" hend).2.1.mpr rfl⟩
  obtain ⟨-, -, -, -, -, hshort⟩ := readLength_agrees "INode" hsecond
  exact hshort.mpr ⟨by decide, by decide⟩

end ByteStream

end Checkpoint
