import Checkpoint.Wire.Framing

/-! # Frames

A frame is a record as it stands in a stream: its length as a varint, then its body. A frame is read
back as its record whatever comes after it, and no proper part of a frame is read as a record, so a
stream can be cut into frames in one way only. -/
namespace Checkpoint

namespace Varint

theorem decodeWithin_append {limit value : Nat} {bytes left : Bytes}
    (h : decodeWithin limit bytes = .ok (value, left)) (rest : Bytes) :
    decodeWithin limit (bytes ++ rest) = .ok (value, left ++ rest) := by
  induction limit generalizing bytes value with
  | zero => simp [decodeWithin] at h
  | succ limit ih =>
    cases bytes with
    | nil => simp [decodeWithin] at h
    | cons b tail =>
      simp only [decodeWithin, List.cons_append] at h ⊢
      split at h
      · rename_i hb
        obtain ⟨rfl, rfl⟩ := Prod.mk.inj (Except.ok.inj h)
        rw [if_pos hb]
      · rename_i hb
        rw [if_neg hb]
        split at h
        · rename_i high tail' hh
          obtain ⟨rfl, rfl⟩ := Prod.mk.inj (Except.ok.inj h)
          rw [ih hh]
        · cases h

/-- What is decoded has been decoded from the bytes in front of what is left. -/
theorem exists_of_decodeWithin {limit value : Nat} {bytes rest : Bytes}
    (h : decodeWithin limit bytes = .ok (value, rest)) :
    ∃ taken, bytes = taken ++ rest ∧ decodeWithin limit taken = .ok (value, []) := by
  induction limit generalizing bytes value with
  | zero => simp [decodeWithin] at h
  | succ limit ih =>
    cases bytes with
    | nil => simp [decodeWithin] at h
    | cons b tail =>
      simp only [decodeWithin] at h
      split at h
      · rename_i hb
        obtain ⟨rfl, rfl⟩ := Prod.mk.inj (Except.ok.inj h)
        exact ⟨[b], rfl, by simp [decodeWithin, hb]⟩
      · rename_i hb
        split at h
        · rename_i high left hh
          obtain ⟨rfl, rfl⟩ := Prod.mk.inj (Except.ok.inj h)
          obtain ⟨taken, rfl, ht⟩ := ih hh
          exact ⟨b :: taken, rfl, by simp [decodeWithin, hb, ht]⟩
        · cases h

end Varint

namespace ByteStream

variable {α β : Type} {s t : ByteStream} {problem : RecordProblem}

theorem bind_ok {reader : Reader α} {next : α → Reader β} {a : α} (h : reader s = .ok a t) :
    (reader >>= next) s = next a t := by
  change EStateM.bind reader next s = _
  simp [EStateM.bind, h]

theorem bind_error {reader : Reader α} {next : α → Reader β} (h : reader s = .error problem t) :
    (reader >>= next) s = .error problem t := by
  change EStateM.bind reader next s = _
  simp [EStateM.bind, h]

variable {record : String} {fault : Option RecordProblem}

theorem moreLength_of_decodeWithin {limit value : Nat} {bytes rest : Bytes}
    (h : Varint.decodeWithin limit bytes = .ok (value, rest)) :
    moreLength record limit ⟨bytes, fault⟩ = .ok value ⟨rest, fault⟩ := by
  induction limit generalizing bytes value with
  | zero => simp [Varint.decodeWithin] at h
  | succ limit ih =>
    cases bytes with
    | nil => simp [Varint.decodeWithin] at h
    | cons b tail =>
      have hb : next ⟨b :: tail, fault⟩ = .ok (some b) ⟨tail, fault⟩ := rfl
      simp only [Varint.decodeWithin] at h
      rw [moreLength, bind_ok hb]
      dsimp only
      split at h
      · rename_i hb
        obtain ⟨rfl, rfl⟩ := Prod.mk.inj (Except.ok.inj h)
        rw [if_pos hb]
        rfl
      · rename_i hb
        rw [if_neg hb]
        split at h
        · rename_i high left hh
          obtain ⟨rfl, rfl⟩ := Prod.mk.inj (Except.ok.inj h)
          rw [bind_ok (ih hh)]
          rfl
        · cases h

theorem moreLength_of_error (record : String) (fault : Option RecordProblem) {limit : Nat}
    {bytes : Bytes} {cause : Varint.Fault} (h : Varint.decodeWithin limit bytes = .error cause) :
    ∃ problem s, moreLength record limit ⟨bytes, fault⟩ = .error problem s := by
  induction limit generalizing bytes cause with
  | zero => exact ⟨_, _, rfl⟩
  | succ limit ih =>
    cases bytes with
    | nil => cases fault <;> exact ⟨_, _, rfl⟩
    | cons b tail =>
      have hb : next ⟨b :: tail, fault⟩ = .ok (some b) ⟨tail, fault⟩ := rfl
      simp only [Varint.decodeWithin] at h
      rw [moreLength, bind_ok hb]
      dsimp only
      split at h
      · cases h
      · rename_i hb
        rw [if_neg hb]
        split at h
        · cases h
        · rename_i cause' hh
          obtain ⟨problem, s, he⟩ := ih hh
          exact ⟨problem, s, bind_error he⟩

theorem readLength_of_decode {size : Nat} {bytes rest : Bytes}
    (h : Varint.decode bytes = .ok (size, rest)) :
    readLength record ⟨bytes, fault⟩ = .ok (some size) ⟨rest, fault⟩ := by
  cases bytes with
  | nil => simp [Varint.decode, Varint.decodeWithin, Varint.maxBytes] at h
  | cons b tail =>
    have hb : next ⟨b :: tail, fault⟩ = .ok (some b) ⟨tail, fault⟩ := rfl
    simp only [Varint.decode, Varint.maxBytes, Varint.decodeWithin] at h
    rw [readLength, bind_ok hb]
    dsimp only
    split at h
    · rename_i hb
      obtain ⟨rfl, rfl⟩ := Prod.mk.inj (Except.ok.inj h)
      rw [if_pos hb]
      rfl
    · rename_i hb
      rw [if_neg hb]
      split at h
      · rename_i high left hh
        obtain ⟨rfl, rfl⟩ := Prod.mk.inj (Except.ok.inj h)
        exact bind_ok (moreLength_of_decodeWithin hh)
      · cases h

theorem readLength_of_error (record : String) (fault : Option RecordProblem) {bytes : Bytes}
    {cause : Varint.Fault} (hne : bytes ≠ [])
    (h : Varint.decode bytes = .error cause) :
    ∃ problem s, readLength record ⟨bytes, fault⟩ = .error problem s := by
  cases bytes with
  | nil => exact absurd rfl hne
  | cons b tail =>
    have hb : next ⟨b :: tail, fault⟩ = .ok (some b) ⟨tail, fault⟩ := rfl
    simp only [Varint.decode, Varint.maxBytes, Varint.decodeWithin] at h
    rw [readLength, bind_ok hb]
    dsimp only
    split at h
    · cases h
    · rename_i hb
      rw [if_neg hb]
      split at h
      · cases h
      · rename_i cause' hh
        obtain ⟨problem, s, he⟩ := moreLength_of_error record fault hh
        exact ⟨problem, s, bind_error he⟩

theorem read_append (body rest : Bytes) :
    read body.length ⟨body ++ rest, fault⟩ = .ok body ⟨rest, fault⟩ := by
  cases fault <;> simp [read]

end ByteStream

/-- `frame` is a length of at most the limit, then a body of that length that is read as `record`. -/
def Framed (schema : Schema) (record : Record) (frame : Bytes) : Prop :=
  ∃ length body, frame = length ++ body ∧ Varint.decode length = .ok (body.length, []) ∧
    body.length ≤ maxRecordBytes ∧ schema.parse body = .ok record

variable {schema : Schema} {record : Record} {frame : Bytes}

theorem Framed.ne_nil (h : Framed schema record frame) : frame ≠ [] := by
  obtain ⟨length, body, rfl, hl, -, -⟩ := h
  intro he
  rw [(List.append_eq_nil_iff.mp he).1] at hl
  cases hl

namespace ByteStream

/-- A frame is read back as its record, whatever comes after it. -/
theorem readRecord?_of_framed (h : Framed schema record frame) (rest : Bytes)
    (fault : Option RecordProblem) :
    readRecord? schema ⟨frame ++ rest, fault⟩ = .ok (some record) ⟨rest, fault⟩ := by
  obtain ⟨length, body, rfl, hl, hb, hp⟩ := h
  have hlen : readLength schema.name ⟨length ++ body ++ rest, fault⟩ =
      .ok (some body.length) ⟨body ++ rest, fault⟩ := by
    rw [List.append_assoc]
    exact readLength_of_decode (Varint.decodeWithin_append hl _)
  rw [readRecord?, bind_ok hlen]
  simp only [Nat.not_lt.mpr hb, if_false]
  rw [bind_ok (read_append body rest)]
  simp [hp, pure, EStateM.pure]

/-- What is read with a length in front of it is a frame, or the length or the body is at fault. -/
theorem readRecord?_of_decode {size : Nat} {bytes rest : Bytes}
    (h : Varint.decode bytes = .ok (size, rest)) :
    readRecord? schema ⟨bytes, none⟩ =
      if maxRecordBytes < size then .error (.oversized schema.name size) ⟨rest, none⟩
      else if (rest.take size).length ≠ size then
        .error (.shortBody schema.name (rest.take size).length size) ⟨rest.drop size, none⟩
      else match schema.parse (rest.take size) with
        | .ok record => .ok (some record) ⟨rest.drop size, none⟩
        | .error problem => .error problem ⟨rest.drop size, none⟩ := by
  rw [readRecord?, bind_ok (readLength_of_decode h)]
  dsimp only
  split
  · rfl
  · have hr : read size ⟨rest, none⟩ = .ok (rest.take size) ⟨rest.drop size, none⟩ := rfl
    change ((read size) >>= _) _ = _
    rw [bind_ok hr]
    split
    · rfl
    · cases hp : schema.parse (rest.take size) <;> rfl

/-- Only a frame is read as a record. -/
theorem framed_of_readRecord? {bytes : Bytes} {s : ByteStream}
    (h : readRecord? schema ⟨bytes, none⟩ = .ok (some record) s) :
    ∃ frame rest, bytes = frame ++ rest ∧ s = ⟨rest, none⟩ ∧ Framed schema record frame := by
  cases bytes with
  | nil => cases h
  | cons b tail =>
    cases hd : Varint.decode (b :: tail) with
    | error cause =>
      obtain ⟨problem, t, he⟩ :=
        readLength_of_error schema.name none (by simp) hd
      rw [readRecord?, bind_error he] at h
      cases h
    | ok read =>
      obtain ⟨size, rest⟩ := read
      rw [readRecord?_of_decode hd] at h
      obtain ⟨length, hb, hl⟩ := Varint.exists_of_decodeWithin hd
      split at h
      · cases h
      · rename_i hmax
        split at h
        · cases h
        · rename_i hlen
          have hlen : (rest.take size).length = size := Decidable.not_not.mp hlen
          split at h
          · rename_i found hp
            obtain ⟨rfl, rfl⟩ : found = record ∧ ⟨rest.drop size, none⟩ = s := by
              simpa using h
            refine ⟨length ++ rest.take size, rest.drop size, ?_, rfl, length, rest.take size, rfl,
              ?_, ?_, hp⟩
            · rw [hb, List.append_assoc, List.take_append_drop]
            · rw [hlen]; exact hl
            · omega
          · cases h

/-- There is no record only where there are no bytes. -/
theorem eq_nil_of_readRecord? {bytes : Bytes} {s : ByteStream}
    (h : readRecord? schema ⟨bytes, none⟩ = .ok none s) : bytes = [] ∧ s = ⟨[], none⟩ := by
  cases bytes with
  | nil => cases h; exact ⟨rfl, rfl⟩
  | cons b tail =>
    cases hd : Varint.decode (b :: tail) with
    | error cause =>
      obtain ⟨problem, t, he⟩ :=
        readLength_of_error schema.name none (by simp) hd
      rw [readRecord?, bind_error he] at h
      cases h
    | ok read =>
      rw [readRecord?_of_decode hd] at h
      split at h
      · cases h
      · split at h
        · cases h
        · split at h <;> cases h

/-- A frame that is cut short, but not before its first byte, cannot be read. -/
theorem readRecord?_cut {part : Bytes} (h : Framed schema record frame) (hp : part <+: frame)
    (hnil : part ≠ []) (hne : part ≠ frame) :
    ∃ problem s, readRecord? schema ⟨part, none⟩ = .error problem s := by
  cases hr : readRecord? schema ⟨part, none⟩ with
  | error problem s => exact ⟨problem, s, rfl⟩
  | ok found s =>
    cases found with
    | none => exact absurd (eq_nil_of_readRecord? hr).1 hnil
    | some other =>
      obtain ⟨frame', rest, rfl, -, h'⟩ := framed_of_readRecord? hr
      obtain ⟨left, rfl⟩ := hp
      have ha := readRecord?_of_framed h' (rest ++ left) none
      have hb := readRecord?_of_framed h [] none
      rw [List.append_nil, List.append_assoc, ha] at hb
      obtain ⟨-, rfl, rfl⟩ : other = record ∧ rest = [] ∧ left = [] := by simpa using hb
      exact absurd (by simp) hne

end ByteStream

end Checkpoint
