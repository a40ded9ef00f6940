import Mathlib.Tactic.SplitIfs
import Checkpoint.Text.Utf8

/-! # Texts read back

A text that has been encoded is decoded as itself: the bytes of every character are one piece, and
no piece is ill-formed. -/
namespace Checkpoint.Utf8

/-! ## Bytes of a text -/

theorem toList_loop (bytes : ByteArray) (i : Nat) (found : List UInt8) :
    ByteArray.toList.loop bytes i found = found.reverse ++ bytes.data.toList.drop i := by
  induction i, found using ByteArray.toList.loop.induct bytes with
  | case1 i found hlt ih =>
    have hi : i < bytes.data.toList.length := by simpa using hlt
    have hget : bytes.get! i = bytes.data.toList[i] := by
      show bytes.data[i]! = _
      rw [Array.getElem_toList]
      exact getElem!_pos bytes.data i (by simpa using hlt)
    rw [ByteArray.toList.loop, if_pos hlt, ih, List.drop_eq_getElem_cons hi, hget]
    simp
  | case2 i found hge =>
    have hl : bytes.data.toList.length ≤ i := by simpa using hge
    rw [ByteArray.toList.loop, if_neg hge, List.drop_eq_nil_of_le hl, List.append_nil]

/-- The bytes of a text are those of its characters, one after the other. -/
theorem encode_ofList (cs : List Char) :
    encode (String.ofList cs) = cs.flatMap String.utf8EncodeChar := by
  unfold encode
  rw [String.toUTF8_eq_toByteArray, String.toByteArray_ofList, List.utf8Encode, ByteArray.toList,
    toList_loop, List.data_toByteArray]
  simp

/-! ## Pieces -/

theorem lead_two {b : Nat} (h : 0xC2 ≤ b) (h' : b < 0xE0) :
    lead b = .opens ⟨b - 0xC0, 0x80, 0xBF, 0⟩ := by
  unfold lead
  rw [if_neg (by omega), if_neg (by omega), if_pos h']

/-- After the first byte of three, the second one shuts out overlong forms and surrogates. -/
theorem lead_three {b : Nat} (h : 0xE0 ≤ b) (h' : b < 0xF0) :
    lead b = .opens ⟨b - 0xE0, if b = 0xE0 then 0xA0 else 0x80,
      if b = 0xED then 0x9F else 0xBF, 1⟩ := by
  unfold lead
  rw [if_neg (by omega), if_neg (by omega), if_neg (by omega)]
  by_cases h0 : b = 0xE0
  · subst h0
    rfl
  · by_cases hd : b = 0xED
    · subst hd
      rfl
    · rw [if_neg h0, if_neg hd, if_pos h', if_neg h0, if_neg hd]

/-- After the first byte of four, the second one shuts out overlong forms and what is beyond the
last character. -/
theorem lead_four {b : Nat} (h : 0xF0 ≤ b) (h' : b ≤ 0xF4) :
    lead b = .opens ⟨b - 0xF0, if b = 0xF0 then 0x90 else 0x80,
      if b = 0xF4 then 0x8F else 0xBF, 2⟩ := by
  unfold lead
  rw [if_neg (by omega), if_neg (by omega), if_neg (by omega), if_neg (by omega),
    if_neg (by omega), if_neg (by omega)]
  by_cases h0 : b = 0xF0
  · subst h0
    rfl
  · by_cases hd : b = 0xF4
    · subst hd
      rfl
    · rw [if_neg h0, if_pos (by omega), if_neg h0, if_neg hd]

variable {found : List (Option Char)} {p : Partial} {b : UInt8} {rest : Bytes}

theorem cut_opens (h : lead b.toNat = .opens p) :
    cut found none (b :: rest) = cut found (some p) rest := by
  rw [cut, h]

/-- The last byte of a sequence. -/
theorem cut_last (hp : p.more = 0) (h : p.lo ≤ b.toNat) (h' : b.toNat ≤ p.hi) :
    cut found (some p) (b :: rest) =
      cut (some (Char.ofNat (64 * p.value + b.toNat % 64)) :: found) none rest := by
  rw [cut, if_pos ⟨h, h'⟩]
  dsimp only
  rw [hp]

theorem cut_more {more : Nat} (hp : p.more = more + 1) (h : p.lo ≤ b.toNat)
    (h' : b.toNat ≤ p.hi) : cut found (some p) (b :: rest) =
      cut found (some ⟨64 * p.value + b.toNat % 64, 0x80, 0xBF, more⟩) rest := by
  rw [cut, if_pos ⟨h, h'⟩]
  dsimp only
  rw [hp]

theorem toNat_ofNat_of_lt {n : Nat} (h : n < 256) : (UInt8.ofNat n).toNat = n := by
  rw [UInt8.toNat_ofNat']
  exact Nat.mod_eq_of_lt h

theorem cut_one {n : Nat} (h : n < 0x80) :
    cut found none (UInt8.ofNat n :: rest) = cut (some (Char.ofNat n) :: found) none rest := by
  have hb : (UInt8.ofNat n).toNat = n := toNat_ofNat_of_lt (by omega)
  rw [cut, hb, lead, if_pos h]

theorem cut_two {n : Nat} (h : 0x80 ≤ n) (h' : n < 0x800) :
    cut found none (UInt8.ofNat (n / 64 % 32 + 192) :: UInt8.ofNat (n % 64 + 128) :: rest) =
      cut (some (Char.ofNat n) :: found) none rest := by
  have hfirst : (UInt8.ofNat (n / 64 % 32 + 192)).toNat = n / 64 % 32 + 192 :=
    toNat_ofNat_of_lt (by omega)
  have hlast : (UInt8.ofNat (n % 64 + 128)).toNat = n % 64 + 128 := toNat_ofNat_of_lt (by omega)
  have hvalue : 64 * (n / 64 % 32 + 192 - 192) + (n % 64 + 128) % 64 = n := by omega
  rw [cut_opens (by rw [hfirst]; exact lead_two (by omega) (by omega)),
    cut_last rfl (by rw [hlast]; dsimp only; omega) (by rw [hlast]; dsimp only; omega), hlast]
  dsimp only
  rw [hvalue]

theorem cut_three {n : Nat} (h : 0x800 ≤ n) (h' : n < 0x10000) (hs : n < 0xD800 ∨ 0xDFFF < n) :
    cut found none (UInt8.ofNat (n / 4096 % 16 + 224) :: UInt8.ofNat (n / 64 % 64 + 128) ::
      UInt8.ofNat (n % 64 + 128) :: rest) = cut (some (Char.ofNat n) :: found) none rest := by
  have hfirst : (UInt8.ofNat (n / 4096 % 16 + 224)).toNat = n / 4096 % 16 + 224 :=
    toNat_ofNat_of_lt (by omega)
  have hnext : (UInt8.ofNat (n / 64 % 64 + 128)).toNat = n / 64 % 64 + 128 :=
    toNat_ofNat_of_lt (by omega)
  have hlast : (UInt8.ofNat (n % 64 + 128)).toNat = n % 64 + 128 := toNat_ofNat_of_lt (by omega)
  have hvalue : 64 * (64 * (n / 4096 % 16 + 224 - 224) + (n / 64 % 64 + 128) % 64) +
      (n % 64 + 128) % 64 = n := by omega
  rw [cut_opens (by rw [hfirst]; exact lead_three (by omega) (by omega)),
    cut_more rfl (by rw [hnext]; dsimp only; split_ifs <;> omega)
      (by rw [hnext]; dsimp only; split_ifs <;> omega), hnext,
    cut_last rfl (by rw [hlast]; dsimp only; omega) (by rw [hlast]; dsimp only; omega), hlast]
  dsimp only
  rw [hvalue]

theorem cut_four {n : Nat} (h : 0x10000 ≤ n) (h' : n < 0x110000) :
    cut found none (UInt8.ofNat (n / 262144 % 8 + 240) :: UInt8.ofNat (n / 4096 % 64 + 128) ::
      UInt8.ofNat (n / 64 % 64 + 128) :: UInt8.ofNat (n % 64 + 128) :: rest) =
        cut (some (Char.ofNat n) :: found) none rest := by
  have hfirst : (UInt8.ofNat (n / 262144 % 8 + 240)).toNat = n / 262144 % 8 + 240 :=
    toNat_ofNat_of_lt (by omega)
  have hsecond : (UInt8.ofNat (n / 4096 % 64 + 128)).toNat = n / 4096 % 64 + 128 :=
    toNat_ofNat_of_lt (by omega)
  have hnext : (UInt8.ofNat (n / 64 % 64 + 128)).toNat = n / 64 % 64 + 128 :=
    toNat_ofNat_of_lt (by omega)
  have hlast : (UInt8.ofNat (n % 64 + 128)).toNat = n % 64 + 128 := toNat_ofNat_of_lt (by omega)
  have hvalue : 64 * (64 * (64 * (n / 262144 % 8 + 240 - 240) + (n / 4096 % 64 + 128) % 64) +
      (n / 64 % 64 + 128) % 64) + (n % 64 + 128) % 64 = n := by omega
  rw [cut_opens (by rw [hfirst]; exact lead_four (by omega) (by omega)),
    cut_more rfl (by rw [hsecond]; dsimp only; split_ifs <;> omega)
      (by rw [hsecond]; dsimp only; split_ifs <;> omega), hsecond,
    cut_more rfl (by rw [hnext]; dsimp only; omega) (by rw [hnext]; dsimp only; omega), hnext,
    cut_last rfl (by rw [hlast]; dsimp only; omega) (by rw [hlast]; dsimp only; omega), hlast]
  dsimp only
  rw [hvalue]

/-- The bytes of a character are cut as one piece, which stands for the character. -/
theorem cut_encodeChar (found : List (Option Char)) (c : Char) (rest : Bytes) :
    cut found none (String.utf8EncodeChar c ++ rest) = cut (some c :: found) none rest := by
  have hvalue : c.val.toNat = c.toNat := rfl
  have hvalid : c.toNat < 0xD800 ∨ 0xDFFF < c.toNat ∧ c.toNat < 0x110000 := c.valid
  have hc : Char.ofNat c.toNat = c := Char.ofNat_toNat c
  unfold String.utf8EncodeChar
  dsimp only
  rw [hvalue]
  split
  · rw [List.singleton_append, cut_one (by omega), hc]
  · split
    · rw [List.cons_append, List.singleton_append, cut_two (by omega) (by omega), hc]
    · split
      · rw [List.cons_append, List.cons_append, List.singleton_append,
          cut_three (by omega) (by omega) (by omega), hc]
      · rw [List.cons_append, List.cons_append, List.cons_append, List.singleton_append,
          cut_four (by omega) (by omega), hc]

theorem cut_encode (found : List (Option Char)) (cs : List Char) :
    cut found none (cs.flatMap String.utf8EncodeChar) = found.reverse ++ cs.map some := by
  induction cs generalizing found with
  | nil => simp [cut]
  | cons c cs ih =>
    rw [List.flatMap_cons, cut_encodeChar, ih]
    simp

/-- A text is decoded as itself. -/
theorem decodeLossy_encode (text : String) : decodeLossy (encode text) = text := by
  obtain ⟨cs, rfl⟩ : ∃ cs, text = String.ofList cs := ⟨text.toList, String.ofList_toList.symm⟩
  unfold decodeLossy pieces
  rw [encode_ofList, cut_encode, List.reverse_nil, List.nil_append, List.map_map]
  exact congrArg String.ofList (List.map_id cs)

end Checkpoint.Utf8
