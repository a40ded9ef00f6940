import Checkpoint.Proofs.Encoding

/-! # Varints at a position

A number may be written in any number of groups that has room for it, up to ten. Whatever stands
around it in a buffer, it is read from its position as itself, and the position after it is found.
What is read has been written so, and nothing is read only where no group within reach is the
last. -/
namespace Checkpoint.Varint

/-- A number in a given number of groups, lowest first; those that it does not need are zero, and
what there is no room for is left out. -/
def encodeIn : (count : Nat) → Nat → Bytes
  | 0, _ => []
  | 1, n => [UInt8.ofNat (n % 128)]
  | count + 2, n => UInt8.ofNat (n % 128 + 128) :: encodeIn (count + 1) (n / 128)

variable {n count : Nat} {bytes code : Bytes}

/-- A group has seven bits. -/
theorem two_pow_seven_mul_succ (count : Nat) : 2 ^ (7 * (count + 1)) = 128 * 2 ^ (7 * count) := by
  rw [Nat.mul_succ, Nat.pow_add, Nat.mul_comm]

theorem Groups.lt (h : Groups n bytes) : n < 2 ^ (7 * bytes.length) := by
  induction h with
  | last hb => exact hb
  | @more b high rest hb _ ih =>
    have := b.toNat_lt
    rw [List.length_cons, two_pow_seven_mul_succ]
    omega

/-- Where there is room for a number, its groups are written. -/
theorem groups_encodeIn (hc : 0 < count) (h : n < 2 ^ (7 * count)) :
    Groups n (encodeIn count n) := by
  induction count, n using encodeIn.induct with
  | case1 n => cases hc
  | case2 n =>
    have hlow : n % 128 = n := Nat.mod_eq_of_lt h
    have hb : (UInt8.ofNat n).toNat = n := Utf8.toNat_ofNat_of_lt (by omega)
    have hg := @Groups.last (UInt8.ofNat n) (by omega)
    rw [hb] at hg
    rw [encodeIn, hlow]
    exact hg
  | case3 count n ih =>
    rw [two_pow_seven_mul_succ] at h
    have hb : (UInt8.ofNat (n % 128 + 128)).toNat = n % 128 + 128 :=
      Utf8.toNat_ofNat_of_lt (by omega)
    have hn : n % 128 + 128 - 128 + 128 * (n / 128) = n := by omega
    have hg := @Groups.more (UInt8.ofNat (n % 128 + 128)) _ _ (by omega)
      (ih (Nat.succ_pos count) (by omega))
    rw [hb, hn] at hg
    exact hg

/-- A number is written in so many groups in one way only. -/
theorem Groups.eq_encodeIn (h : Groups n bytes) : bytes = encodeIn bytes.length n := by
  induction h with
  | @last b hb => rw [List.length_singleton, encodeIn, Nat.mod_eq_of_lt hb, UInt8.ofNat_toNat]
  | @more b high rest hb hg ih =>
    obtain ⟨count, hc⟩ := Nat.exists_eq_add_one_of_ne_zero
      (fun he => hg.ne_nil (List.length_eq_zero_iff.mp he))
    have hlt := b.toNat_lt
    have hlow : (b.toNat - 128 + 128 * high) % 128 + 128 = b.toNat := by omega
    have hhigh : (b.toNat - 128 + 128 * high) / 128 = high := by omega
    rw [List.length_cons, hc, encodeIn, hlow, hhigh, UInt8.ofNat_toNat, ← hc, ← ih]

theorem groups_iff : Groups n bytes ↔
    0 < bytes.length ∧ n < 2 ^ (7 * bytes.length) ∧ bytes = encodeIn bytes.length n := by
  constructor
  · intro h
    exact ⟨List.length_pos_iff.mpr h.ne_nil, h.lt, h.eq_encodeIn⟩
  · rintro ⟨hc, hn, he⟩
    rw [he]
    exact groups_encodeIn hc hn

/-- The shortest bytes of a number are so many as have room for it. -/
theorem length_encode_le_iff (hc : 0 < count) :
    (encode n).length ≤ count ↔ n < 2 ^ (7 * count) := by
  constructor
  · intro h
    exact Nat.lt_of_lt_of_le (groups_encode n).lt
      (Nat.pow_le_pow_right (by decide) (Nat.mul_le_mul_left 7 h))
  · intro h
    obtain ⟨limit, rfl⟩ := Nat.exists_eq_add_one_of_ne_zero (Nat.pos_iff_ne_zero.mp hc)
    refine length_encode_le ?_
    rw [Nat.pow_mul] at h
    exact h

/-- The varints of a number are its shortest bytes and those with more groups, up to ten. -/
theorem spells_iff_encodeIn : Spells n code ↔
    (encode n).length ≤ code.length ∧ code.length ≤ maxBytes ∧ code = encodeIn code.length n := by
  have hpos : 0 < (encode n).length := List.length_pos_iff.mpr (groups_encode n).ne_nil
  unfold Spells
  rw [groups_iff]
  constructor
  · rintro ⟨⟨hc, hn, he⟩, hl⟩
    exact ⟨(length_encode_le_iff hc).mpr hn, hl, he⟩
  · rintro ⟨hm, hl, he⟩
    have hc := Nat.lt_of_lt_of_le hpos hm
    exact ⟨⟨hc, (length_encode_le_iff hc).mp hm, he⟩, hl⟩

/-! ## Positions -/

variable {pos value next : Nat}

/-- What is read at a position is a varint that stands there. -/
theorem decodeAt_iff : decodeAt bytes pos = .ok (value, next) ↔
    ∃ before code after, bytes = before ++ code ++ after ∧ before.length = pos ∧
      Spells value code ∧ next = pos + code.length := by
  unfold decodeAt
  constructor
  · intro h
    cases hd : decode (bytes.drop pos) with
    | error fault => rw [hd] at h; cases h
    | ok found =>
      obtain ⟨n, after⟩ := found
      rw [hd] at h
      obtain ⟨rfl, rfl⟩ := Prod.mk.inj (Except.ok.inj h)
      obtain ⟨code, hb, hs⟩ := (reads_decode _ _ _).mp hd
      have hlength := congrArg List.length hb
      have hpos := List.length_pos_iff.mpr hs.1.ne_nil
      rw [List.length_drop, List.length_append] at hlength
      refine ⟨bytes.take pos, code, after, ?_, ?_, hs, ?_⟩
      · rw [List.append_assoc, ← hb, List.take_append_drop]
      · rw [List.length_take]
        omega
      · omega
  · rintro ⟨before, code, after, rfl, rfl, hs, rfl⟩
    rw [List.append_assoc, List.drop_left, reads_decode.ok hs]
    simp only [Except.map, List.length_append]
    congr 2
    omega

theorem decodeWithin_cons_eq_error_iff {limit : Nat} {b : UInt8} {tail : Bytes} {fault : Fault} :
    decodeWithin (limit + 1) (b :: tail) = .error fault ↔
      128 ≤ b.toNat ∧ decodeWithin limit tail = .error fault := by
  rw [decodeWithin]
  by_cases hb : b.toNat < 128
  · simp [hb, Nat.not_le.mpr hb]
  · rw [if_neg hb]
    cases decodeWithin limit tail <;> simp [Nat.le_of_not_lt hb]

/-- Nothing is read exactly if all groups within reach go on, and why depends only on whether the
reach ends before the bytes do. -/
theorem decodeWithin_eq_error_iff {limit : Nat} {fault : Fault} :
    decodeWithin limit bytes = .error fault ↔ (∀ b ∈ bytes.take limit, 128 ≤ b.toNat) ∧
      fault = if bytes.length < limit then .truncated else .tooLong := by
  induction limit generalizing bytes with
  | zero => simp [decodeWithin, eq_comm]
  | succ limit ih =>
    cases bytes with
    | nil => simp [decodeWithin, eq_comm]
    | cons b tail =>
      rw [decodeWithin_cons_eq_error_iff, ih, List.take_succ_cons, List.forall_mem_cons,
        List.length_cons, and_assoc]
      simp only [Nat.add_lt_add_iff_right]

theorem decodeAt_eq_error_iff {fault : Fault} : decodeAt bytes pos = .error fault ↔
    (∀ b ∈ (bytes.drop pos).take maxBytes, 128 ≤ b.toNat) ∧
      fault = if bytes.length - pos < maxBytes then .truncated else .tooLong := by
  rw [← List.length_drop, ← decodeWithin_eq_error_iff]
  unfold decodeAt decode
  cases decodeWithin maxBytes (bytes.drop pos) <;> simp [Except.map]

/-- A position counted from the end is the start of a buffer that goes on at its own start. -/
theorem decodeBack_eq {back : Nat} (h : back ≤ bytes.length) : decodeBack bytes back =
    some ((decodeAt (bytes.drop (bytes.length - back) ++ bytes) 0).map
      fun (value, next) => (value, (next : Int) - back)) := by
  rw [decodeBack, if_neg (Nat.not_lt.mpr h)]
  dsimp only
  generalize bytes.drop (bytes.length - back) ++ bytes = ring
  rw [decodeAt, List.drop_zero]
  cases hd : decode ring with
  | error fault => rfl
  | ok found =>
    have hl := Nat.le_of_lt (length_lt_of_decode hd)
    simp [Except.map, Int.ofNat_sub hl]

/-- Varints are read exactly. The varints of a number are its shortest bytes and those that have
more groups, up to ten. In a buffer that holds one of them, whatever is around it, the number is
read at its position, and so is the position after it. What is read at a position has one to ten
bytes, which are in the buffer, and is the number that stands there in so many groups. Nothing is
read exactly if each of the first ten bytes from there on has its top bit set, as far as the buffer
goes; why depends on whether there are ten. Positions that are counted from the end are read in the
same way. -/
theorem decodeAt_exact :
    (∀ n < 2 ^ 70, Spells n (encode n) ∧ ∀ code : Bytes, Spells n code ↔
      (encode n).length ≤ code.length ∧ code.length ≤ 10 ∧ code = encodeIn code.length n) ∧
    (∀ (n : Nat) (before code after : Bytes), Spells n code →
      decodeAt (before ++ code ++ after) before.length = .ok (n, before.length + code.length)) ∧
    (∀ (bytes : Bytes) (pos value next : Nat), decodeAt bytes pos = .ok (value, next) →
      1 ≤ next - pos ∧ next - pos ≤ 10 ∧ next ≤ bytes.length ∧ value < 2 ^ (7 * (next - pos)) ∧
        bytes.slice pos (next - pos) = encodeIn (next - pos) value) ∧
    (∀ (bytes : Bytes) (pos : Nat) (fault : Fault), decodeAt bytes pos = .error fault ↔
      (∀ b ∈ (bytes.drop pos).take 10, 128 ≤ b.toNat) ∧
        fault = if bytes.length - pos < 10 then .truncated else .tooLong) ∧
    ∀ (bytes : Bytes) (back : Nat), back ≤ bytes.length → decodeBack bytes back =
      some ((decodeAt (bytes.drop (bytes.length - back) ++ bytes) 0).map
        fun (value, next) => (value, (next : Int) - back)) := by
  refine ⟨fun n hn => ⟨spells_encode hn, fun code => spells_iff_encodeIn⟩, ?_, ?_,
    fun bytes pos fault => decodeAt_eq_error_iff, fun bytes back => decodeBack_eq⟩
  · intro n before code after hs
    exact decodeAt_iff.mpr ⟨before, code, after, rfl, rfl, hs, rfl⟩
  · intro bytes pos value next h
    obtain ⟨before, code, after, rfl, rfl, hs, rfl⟩ := decodeAt_iff.mp h
    obtain ⟨hg, hl⟩ := hs
    obtain ⟨hc, hn, he⟩ := groups_iff.mp hg
    rw [Nat.add_sub_cancel_left]
    refine ⟨hc, hl, ?_, hn, ?_⟩
    · simp only [List.length_append]
      omega
    · rw [Bytes.slice, List.append_assoc, List.drop_left, List.take_left]
      exact he

/-- The number 300 in three groups, and the largest number of ten groups, each within a buffer. -/
theorem decodeAt_exact_padded :
    decodeAt ([255] ++ [172, 130, 0] ++ [7]) 1 = .ok (300, 4) ∧
    [172, 130, 0] = encodeIn 3 300 ∧
    decodeAt (encodeIn 10 (2 ^ 70 - 1)) 0 = .ok (2 ^ 70 - 1, 10) ∧
    decodeAt (List.replicate 10 255) 0 = .error .tooLong ∧
    decodeBack [1, 128] 1 = some (.ok (128, 1)) := by
  obtain ⟨hvarints, hread, hwritten, hfaults, hback⟩ := decodeAt_exact
  obtain ⟨-, h300⟩ := hvarints 300 (by decide)
  obtain ⟨-, hlast⟩ := hvarints (2 ^ 70 - 1) (by decide)
  have hpadded : Spells 300 [172, 130, 0] := (h300 _).mpr (by cbv)
  have hlargest : Spells (2 ^ 70 - 1) (encodeIn 10 (2 ^ 70 - 1)) := (hlast _).mpr (by cbv)
  have h4 := hread 300 [255] [172, 130, 0] [7] hpadded
  have hunending : ∀ b ∈ ((List.replicate 10 255 : Bytes).drop 0).take 10, 128 ≤ b.toNat := by
    intro b hb
    rw [List.eq_of_mem_replicate (List.mem_of_mem_drop (List.mem_of_mem_take hb))]
    decide
  exact ⟨h4, (hwritten _ _ _ _ h4).2.2.2.2, hread _ [] _ [] hlargest,
    (hfaults _ _ _).mpr ⟨hunending, rfl⟩, hback _ _ (by decide)⟩

end Checkpoint.Varint
