import Mathlib.Data.List.Forall2
import Checkpoint.Proofs.Unicode

/-! # Pieces of a byte string

The pieces into which bytes are cut lie one behind the other and cover all of them. Those that stand
for a character are its encoding, and at the start of the others no character is encoded. -/
namespace Checkpoint.Utf8

/-- The bytes of a piece. -/
def Segment : Option Char → Bytes → Prop
  | some c, bytes => bytes = String.utf8EncodeChar c
  | none, bytes => bytes ≠ [] ∧ ∀ c, ¬String.utf8EncodeChar c <+: bytes

/-! ## Characters by their bytes -/

section Encoded

variable {b second third fourth : UInt8}

theorem ofNat_eq {n : Nat} (h : n = b.toNat) : UInt8.ofNat n = b := by
  rw [h]
  exact UInt8.ofNat_toNat

theorem toNat_val_ofNat {n : Nat} (h : n.isValidChar) : (Char.ofNat n).val.toNat = n := by
  rw [Char.ofNat, dif_pos h]
  rfl

theorem encodeChar_one (h : b.toNat < 0x80) :
    String.utf8EncodeChar (Char.ofNat b.toNat) = [b] := by
  unfold String.utf8EncodeChar
  dsimp only
  rw [toNat_val_ofNat (.inl (by omega)), if_pos (by omega), ofNat_eq rfl]

theorem encodeChar_two (h : 0xC2 ≤ b.toNat) (h' : b.toNat < 0xE0) (hs : 0x80 ≤ second.toNat)
    (hs' : second.toNat ≤ 0xBF) :
    String.utf8EncodeChar (Char.ofNat (64 * (b.toNat - 0xC0) + second.toNat % 64)) =
      [b, second] := by
  unfold String.utf8EncodeChar
  dsimp only
  rw [toNat_val_ofNat (.inl (by omega)), if_neg (by omega), if_pos (by omega),
    ofNat_eq (b := b) (by omega), ofNat_eq (b := second) (by omega)]

theorem encodeChar_three (h : 0xE0 ≤ b.toNat) (h' : b.toNat < 0xF0)
    (hs : (if b.toNat = 0xE0 then 0xA0 else 0x80) ≤ second.toNat)
    (hs' : second.toNat ≤ if b.toNat = 0xED then 0x9F else 0xBF) (ht : 0x80 ≤ third.toNat)
    (ht' : third.toNat ≤ 0xBF) :
    String.utf8EncodeChar (Char.ofNat
      (64 * (64 * (b.toNat - 0xE0) + second.toNat % 64) + third.toNat % 64)) =
        [b, second, third] := by
  have hvalid : Nat.isValidChar
      (64 * (64 * (b.toNat - 0xE0) + second.toNat % 64) + third.toNat % 64) := by
    split_ifs at hs hs' <;> simp only [Nat.isValidChar] <;> omega
  have hlow : 0x7FF < 64 * (64 * (b.toNat - 0xE0) + second.toNat % 64) + third.toNat % 64 := by
    split_ifs at hs hs' <;> omega
  have hsecond : 0x80 ≤ second.toNat ∧ second.toNat ≤ 0xBF := by
    split_ifs at hs hs' <;> omega
  unfold String.utf8EncodeChar
  dsimp only
  rw [toNat_val_ofNat hvalid, if_neg (by omega), if_neg (by omega), if_pos (by omega),
    ofNat_eq (b := b) (by omega), ofNat_eq (b := second) (by omega),
    ofNat_eq (b := third) (by omega)]

theorem encodeChar_four (h : 0xF0 ≤ b.toNat) (h' : b.toNat ≤ 0xF4)
    (hs : (if b.toNat = 0xF0 then 0x90 else 0x80) ≤ second.toNat)
    (hs' : second.toNat ≤ if b.toNat = 0xF4 then 0x8F else 0xBF) (ht : 0x80 ≤ third.toNat)
    (ht' : third.toNat ≤ 0xBF) (hf : 0x80 ≤ fourth.toNat) (hf' : fourth.toNat ≤ 0xBF) :
    String.utf8EncodeChar (Char.ofNat (64 *
      (64 * (64 * (b.toNat - 0xF0) + second.toNat % 64) + third.toNat % 64) +
        fourth.toNat % 64)) = [b, second, third, fourth] := by
  have hsecond : 0x80 ≤ second.toNat ∧ second.toNat ≤ 0xBF := by
    split_ifs at hs hs' <;> omega
  have hrange : 0x10000 ≤ 64 * (64 * (64 * (b.toNat - 0xF0) + second.toNat % 64) +
        third.toNat % 64) + fourth.toNat % 64 ∧
      64 * (64 * (64 * (b.toNat - 0xF0) + second.toNat % 64) + third.toNat % 64) +
        fourth.toNat % 64 < 0x110000 := by
    split_ifs at hs hs' <;> omega
  unfold String.utf8EncodeChar
  dsimp only
  rw [toNat_val_ofNat (.inr (by omega)), if_neg (by omega), if_neg (by omega), if_neg (by omega),
    ofNat_eq (b := b) (by omega), ofNat_eq (b := second) (by omega),
    ofNat_eq (b := third) (by omega), ofNat_eq (b := fourth) (by omega)]

end Encoded

/-! ## Sequences that have been opened -/

/-- Whatever bytes come next as they may, a character is encoded by the bytes before and these. -/
def Completes : (more value lo hi : Nat) → (opened : Bytes) → Prop
  | 0, value, lo, hi, opened => ∀ b : UInt8, lo ≤ b.toNat → b.toNat ≤ hi →
    String.utf8EncodeChar (Char.ofNat (64 * value + b.toNat % 64)) = opened ++ [b]
  | more + 1, value, lo, hi, opened => ∀ b : UInt8, lo ≤ b.toNat → b.toNat ≤ hi →
    Completes more (64 * value + b.toNat % 64) 0x80 0xBF (opened ++ [b])

/-- The bytes have opened a sequence, and a character can come of it. -/
structure Opened (p : Partial) (opened : Bytes) : Prop where
  enters : ∀ found rest, cut found none (opened ++ rest) = cut found (some p) rest
  completes : Completes p.more p.value p.lo p.hi opened

variable {found : List (Option Char)} {p : Partial} {b : UInt8} {opened rest : Bytes}

/-- What a byte can mean where a sequence may begin. -/
theorem lead_cases (b : UInt8) :
    (∃ c, lead b.toNat = .single c ∧ String.utf8EncodeChar c = [b]) ∨
      (∃ p, lead b.toNat = .opens p ∧ Completes p.more p.value p.lo p.hi [b]) ∨
        lead b.toNat = .invalid := by
  by_cases hone : b.toNat < 0x80
  · exact .inl ⟨_, if_pos hone, encodeChar_one hone⟩
  refine .inr ?_
  by_cases hnone : b.toNat < 0xC2
  · refine .inr ?_
    rw [lead, if_neg hone, if_pos hnone]
  by_cases htwo : b.toNat < 0xE0
  · exact .inl ⟨_, lead_two (by omega) htwo,
      fun second hs hs' => encodeChar_two (by omega) htwo hs hs'⟩
  by_cases hthree : b.toNat < 0xF0
  · exact .inl ⟨_, lead_three (by omega) hthree, fun second hs hs' third ht ht' =>
      encodeChar_three (by omega) hthree hs hs' ht ht'⟩
  by_cases hfour : b.toNat ≤ 0xF4
  · exact .inl ⟨_, lead_four (by omega) hfour, fun second hs hs' third ht ht' fourth hf hf' =>
      encodeChar_four (by omega) hfour hs hs' ht ht' hf hf'⟩
  · refine .inr ?_
    rw [lead, if_neg hone, if_neg hnone, if_neg htwo, if_neg (by omega), if_neg (by omega),
      if_neg hthree, if_neg (by omega), if_neg (by omega), if_neg (by omega)]

theorem Opened.of_lead (h : lead b.toNat = .opens p)
    (hc : Completes p.more p.value p.lo p.hi [b]) : Opened p [b] :=
  ⟨fun _ _ => cut_opens h, hc⟩

/-- A sequence that goes on beyond the next byte. -/
theorem Opened.next (h : Opened p opened) {more : Nat} (hm : p.more = more + 1)
    (hl : p.lo ≤ b.toNat) (hh : b.toNat ≤ p.hi) :
    Opened ⟨64 * p.value + b.toNat % 64, 0x80, 0xBF, more⟩ (opened ++ [b]) := by
  obtain ⟨henters, hcompletes⟩ := h
  rw [hm] at hcompletes
  refine ⟨fun found rest => ?_, hcompletes b hl hh⟩
  rw [List.append_assoc, henters]
  exact cut_more hm hl hh

/-- The pieces that have been found stand before the others. -/
theorem cut_eq_append (found : List (Option Char)) (p? : Option Partial) (bytes : Bytes) :
    cut found p? bytes = found.reverse ++ cut [] p? bytes := by
  induction bytes generalizing found p? with
  | nil => cases p? <;> simp [cut]
  | cons b rest ih =>
    cases p? with
    | none =>
      rw [cut, cut]
      cases lead b.toNat with
      | single c => dsimp only; rw [ih (some c :: found), ih [some c]]; simp
      | opens p => exact ih found (some p)
      | invalid => dsimp only; rw [ih (none :: found), ih [none]]; simp
    | some p =>
      rw [cut, cut]
      split
      · cases p.more with
        | zero => dsimp only; rw [ih (_ :: found), ih [_]]; simp
        | succ more => exact ih found _
      · cases lead b.toNat with
        | single c => dsimp only; rw [ih (some c :: none :: found), ih [some c, none]]; simp
        | opens q => dsimp only; rw [ih (none :: found), ih [none]]; simp
        | invalid => dsimp only; rw [ih (none :: none :: found), ih [none, none]]; simp

/-- A byte that does not continue a sequence is read as if the sequence had not been. -/
theorem cut_breaks (h : ¬(p.lo ≤ b.toNat ∧ b.toNat ≤ p.hi)) :
    cut found (some p) (b :: rest) = cut (none :: found) none (b :: rest) := by
  rw [cut, cut, if_neg h]

/-! ## Segments -/

/-- Bytes that are cut as one piece that is ill-formed. -/
theorem segment_of_pieces {bytes : Bytes} (h : pieces bytes = [none]) : Segment none bytes := by
  refine ⟨?_, ?_⟩
  · rintro rfl
    cases h
  · rintro c ⟨rest, rfl⟩
    rw [pieces, cut_encodeChar, cut_eq_append] at h
    cases h

theorem Opened.segment (h : Opened p opened) : Segment none opened := by
  refine segment_of_pieces ?_
  have he := h.enters [] []
  rw [List.append_nil] at he
  rw [pieces, he]
  rfl

/-- Where the cutting stands: between two pieces, or behind the bytes that have opened a sequence. -/
def Stands : Option Partial → Bytes → Prop
  | none, opened => opened = []
  | some p, opened => Opened p opened

/-- What has been opened and what follows it is made of the segments of the pieces. -/
theorem exists_segments_cut (bytes : Bytes) (p? : Option Partial) (opened : Bytes)
    (h : Stands p? opened) : ∃ segments, opened ++ bytes = segments.flatten ∧
      List.Forall₂ Segment (cut [] p? bytes) segments := by
  induction bytes generalizing p? opened with
  | nil =>
    cases p? with
    | none =>
      obtain rfl : opened = [] := h
      exact ⟨[], rfl, .nil⟩
    | some p => exact ⟨[opened], by simp, .cons (Opened.segment h) .nil⟩
  | cons b rest ih =>
    -- a byte where a sequence may begin
    have hbegin : ∃ segments, b :: rest = segments.flatten ∧
        List.Forall₂ Segment (cut [] none (b :: rest)) segments := by
      rcases lead_cases b with ⟨c, hl, hc⟩ | ⟨p, hl, hc⟩ | hl
      · obtain ⟨segments, he, hs⟩ := ih none [] rfl
        refine ⟨[b] :: segments, congrArg (b :: ·) he, ?_⟩
        rw [cut, hl]
        dsimp only
        rw [cut_eq_append]
        exact .cons hc.symm hs
      · obtain ⟨segments, he, hs⟩ := ih (some p) [b] (Opened.of_lead hl hc)
        exact ⟨segments, he, by rwa [cut_opens hl]⟩
      · obtain ⟨segments, he, hs⟩ := ih none [] rfl
        have hbyte : pieces [b] = [none] := by
          rw [pieces, cut, hl]
          rfl
        refine ⟨[b] :: segments, congrArg (b :: ·) he, ?_⟩
        rw [cut, hl]
        dsimp only
        rw [cut_eq_append]
        exact .cons (segment_of_pieces hbyte) hs
    cases p? with
    | none =>
      obtain rfl : opened = [] := h
      exact hbegin
    | some p =>
      have hopened : Opened p opened := h
      by_cases hrange : p.lo ≤ b.toNat ∧ b.toNat ≤ p.hi
      · obtain ⟨hl, hh⟩ := hrange
        rcases hm : p.more with _ | more
        · obtain ⟨segments, he, hs⟩ := ih none [] rfl
          have hc := hopened.completes
          rw [hm] at hc
          refine ⟨(opened ++ [b]) :: segments, ?_, ?_⟩
          · rw [List.flatten_cons, ← he]
            simp
          · rw [cut_last hm hl hh, cut_eq_append]
            exact .cons (hc b hl hh).symm hs
        · obtain ⟨segments, he, hs⟩ := ih (some _) _ (hopened.next hm hl hh)
          refine ⟨segments, ?_, by rwa [cut_more hm hl hh]⟩
          rw [← he]
          simp
      · obtain ⟨segments, he, hs⟩ := hbegin
        refine ⟨opened :: segments, congrArg (opened ++ ·) he, ?_⟩
        rw [cut_breaks hrange, cut_eq_append]
        exact .cons hopened.segment hs

theorem exists_segments (bytes : Bytes) : ∃ segments, bytes = segments.flatten ∧
    List.Forall₂ Segment (pieces bytes) segments :=
  exists_segments_cut bytes none [] rfl

/-! ## What is read of bytes -/

/-- The pieces of a text stand for its characters. -/
theorem pieces_encode (text : String) : pieces (encode text) = text.toList.map some := by
  obtain ⟨cs, rfl⟩ : ∃ cs, text = String.ofList cs := ⟨text.toList, String.ofList_toList.symm⟩
  rw [encode_ofList, pieces, cut_encode, String.toList_ofList]
  rfl

theorem segments_of_characters {cs : List Char} {segments : List Bytes}
    (h : List.Forall₂ Segment (cs.map some) segments) :
    segments.flatten = cs.flatMap String.utf8EncodeChar := by
  induction cs generalizing segments with
  | nil =>
    cases h
    rfl
  | cons c cs ih =>
    cases h with
    | cons hc h => rw [List.flatten_cons, ih h, hc, List.flatMap_cons]

/-- Where no piece is ill-formed, all pieces stand for characters. -/
theorem exists_characters {found : List (Option Char)} (h : ∀ piece ∈ found, piece.isSome = true) :
    ∃ cs : List Char, found = cs.map some := by
  induction found with
  | nil => exact ⟨[], rfl⟩
  | cons piece rest ih =>
    obtain ⟨hpiece, hrest⟩ := List.forall_mem_cons.mp h
    obtain ⟨c, rfl⟩ := Option.isSome_iff_exists.mp hpiece
    obtain ⟨cs, rfl⟩ := ih hrest
    exact ⟨c :: cs, rfl⟩

/-- Bytes are read strictly exactly if they encode a text, and then as this text. -/
theorem decode?_eq_some_iff {bytes : Bytes} {text : String} :
    decode? bytes = some text ↔ encode text = bytes := by
  constructor
  · intro h
    rw [decode?] at h
    split at h
    · rename_i hall
      obtain ⟨cs, hcs⟩ := exists_characters (List.all_eq_true.mp hall)
      obtain ⟨segments, he, hs⟩ := exists_segments bytes
      rw [hcs] at h hs
      have ht : text = String.ofList cs := by
        rw [← Option.some.inj h]
        simp
      rw [ht, encode_ofList, he, segments_of_characters hs]
    · cases h
  · rintro rfl
    rw [decode?, pieces_encode]
    simp

/-- What is read of bytes strictly is also read of them with replacements. -/
theorem decodeLossy_of_decode? {bytes : Bytes} {text : String} (h : decode? bytes = some text) :
    decodeLossy bytes = text := by
  rw [← decode?_eq_some_iff.mp h, decodeLossy_encode]

/-- A character that is read of a segment: the one that it encodes, or U+FFFD if none is encoded at
its start. -/
def ReadAs (c : Char) (bytes : Bytes) : Prop :=
  bytes = String.utf8EncodeChar c ∨ c = '\uFFFD' ∧ Segment none bytes

theorem exists_segments_decodeLossy (bytes : Bytes) : ∃ segments, bytes = segments.flatten ∧
    List.Forall₂ ReadAs (decodeLossy bytes).toList segments := by
  obtain ⟨segments, he, hs⟩ := exists_segments bytes
  refine ⟨segments, he, ?_⟩
  rw [decodeLossy, String.toList_ofList, List.forall₂_map_left_iff]
  refine hs.imp fun piece segment h => ?_
  cases piece with
  | none => exact .inr ⟨rfl, h⟩
  | some c => exact .inl h

end Checkpoint.Utf8
