import Checkpoint.Proofs.Members

/-! # Steady decoders

A decompressor that runs a decoder again on all bytes of a member with every chunk is lawful if the
decoder is steady: what it has found in the first bytes of a member stays found when there are
more. -/
namespace Checkpoint.Decompressor

/-- A member has neither ended nor been found to be corrupt. -/
def Decoded.IsOpen : Decoded → Prop
  | unfinished _ | blockEnd .. => True
  | corrupt | finished .. => False

/-- What has been found in the first bytes stays found when there are more. -/
structure Steady (decode : Bytes → Decoded) : Prop where
  empty : ∀ {output size}, decode [] ≠ .finished output size
  size_le : ∀ {bytes output size}, decode bytes = .finished output size → size ≤ bytes.length
  take : ∀ {bytes output size}, decode bytes = .finished output size →
    decode (bytes.take size) = .finished output size
  append : ∀ {bytes output size} (more), decode bytes = .finished output size →
    decode (bytes ++ more) = .finished output size
  corrupt : ∀ {bytes} (more), decode bytes = .corrupt → decode (bytes ++ more) = .corrupt
  flaw : ∀ {bytes settled output flawAt more},
    decode bytes = .blockEnd settled output (some flawAt) → more ≠ [] →
    decode (bytes ++ more) = .corrupt
  output : ∀ bytes more, decode (bytes ++ more) ≠ .corrupt →
    (decode bytes).output <+: (decode (bytes ++ more)).output

/-! ## What has been delivered -/

theorem reach_le (delivered settled total : Nat) : reach delivered settled total ≤ total := by
  unfold reach
  split
  · exact Nat.min_le_left _ _
  · exact Nat.le_refl _

theorem le_reach {delivered total : Nat} (h : delivered ≤ total) (settled : Nat) :
    delivered ≤ reach delivered settled total := by
  unfold reach
  split
  · rename_i stop hr
    obtain ⟨piece, -, rfl⟩ := Option.map_eq_some_iff.mp hr
    exact Nat.le_min.mpr ⟨h, Nat.le_add_right _ _⟩
  · exact h

variable {decode : Bytes → Decoded} {before : List Bytes} {given chunk bytes output : Bytes}

theorem delivered_concat (decode : Bytes → Decoded) (before : List Bytes) (chunk : Bytes) :
    delivered decode (before ++ [chunk]).reverse =
      match decode (before.flatten ++ chunk) with
      | .blockEnd settled output _ =>
        reach (delivered decode before.reverse) settled output.length
      | found => found.output.length := by
  have hall : (chunk :: before.reverse).reverse.flatten = before.flatten ++ chunk := by
    rw [List.reverse_cons, List.reverse_reverse, List.flatten_concat]
  cases hd : decode (before.flatten ++ chunk) <;>
    simp only [List.reverse_concat, delivered, hall, hd]

/-- The output that has been given for the chunks of an open member. -/
structure Underway (decode : Bytes → Decoded) (before : List Bytes) (given : Bytes) : Prop where
  length : given.length = delivered decode before.reverse
  start : before = [] → given = []
  isOpen : before ≠ [] → (decode before.flatten).IsOpen
  output : before ≠ [] → given <+: (decode before.flatten).output

theorem Underway.given_prefix (h : Underway decode before given) (hs : Steady decode) (more : Bytes)
    (hn : decode (before.flatten ++ more) ≠ .corrupt) :
    given <+: (decode (before.flatten ++ more)).output := by
  by_cases hb : before = []
  · rw [h.start hb]
    exact List.nil_prefix
  · exact (h.output hb).trans (hs.output _ _ hn)

theorem Underway.prefix_of_finished (h : Underway decode before given) (hs : Steady decode)
    {size : Nat} (hd : decode (before.flatten ++ chunk) = .finished output size) :
    given <+: output := by
  have hstays := h.given_prefix hs chunk
  rw [hd] at hstays
  exact hstays (by simp)

/-- A prefix is completed by what comes after its length. -/
theorem append_drop_of_prefix (h : given <+: output) :
    given ++ output.drop given.length = output := by
  obtain ⟨rest, rfl⟩ := h
  rw [List.drop_left]

theorem Underway.more (h : Underway decode before given) (hs : Steady decode) {found : Bytes}
    (hf : ofDecoder decode before chunk = .more found) :
    Underway decode (before ++ [chunk]) (given ++ found) := by
  have hne : before ++ [chunk] ≠ [] := by simp
  unfold ofDecoder at hf
  dsimp only at hf
  rw [← h.length] at hf
  have hdelivered := delivered_concat decode before chunk
  rw [← h.length] at hdelivered
  have hstays := h.given_prefix hs chunk
  cases hd : decode (before.flatten ++ chunk) with
  | corrupt => rw [hd] at hf; cases hf
  | finished output size => rw [hd] at hf; cases hf
  | unfinished output =>
    rw [hd] at hf hdelivered hstays
    cases hf
    have hall : given ++ output.drop given.length = output :=
      append_drop_of_prefix (hstays (by simp))
    rw [hall]
    refine ⟨hdelivered.symm, fun he => absurd he hne, fun _ => ?_, fun _ => ?_⟩
    · rw [List.flatten_concat, hd]
      trivial
    · rw [List.flatten_concat, hd]
      exact List.prefix_rfl
  | blockEnd settled output flawAt =>
    rw [hd] at hf hdelivered hstays
    dsimp only at hf
    split at hf
    · cases hf
    · cases hf
      have hgiven : given <+: output := hstays (by simp)
      have hle := le_reach hgiven.length_le settled
      have hreach := reach_le given.length settled output.length
      have hall : given ++ (output.take (reach given.length settled output.length)).drop
          given.length = output.take (reach given.length settled output.length) := by
        refine append_drop_of_prefix (List.prefix_take_iff.mpr ⟨hgiven, hle⟩)
      rw [hall]
      refine ⟨?_, fun he => absurd he hne, fun _ => ?_, fun _ => ?_⟩
      · rw [List.length_take, Nat.min_eq_left hreach]
        exact hdelivered.symm
      · rw [List.flatten_concat, hd]
        trivial
      · rw [List.flatten_concat, hd]
        exact List.take_prefix _ _

theorem Underway.of_open (hs : Steady decode) (h : (ofDecoder decode).Open before given) :
    Underway decode before given := by
  induction h with
  | start =>
    exact ⟨rfl, fun _ => rfl, fun h => absurd rfl h, fun h => absurd rfl h⟩
  | more _ _ hf ih => exact ih.more hs hf

/-! ## Lawfulness -/

theorem ofDecoder_of_finished {size : Nat}
    (h : decode (before.flatten ++ chunk) = .finished output size) :
    ∃ hu, ofDecoder decode before chunk = .ended (output.drop (delivered decode before.reverse))
      (max 1 (size - before.flatten.length)) hu := by
  unfold ofDecoder
  dsimp only
  rw [h]
  exact ⟨_, rfl⟩

theorem finished_of_ended {found : Bytes} {used : Nat} {hu : before ≠ [] ∨ 0 < used}
    (h : ofDecoder decode before chunk = .ended found used hu) :
    ∃ output size, decode (before.flatten ++ chunk) = .finished output size ∧
      found = output.drop (delivered decode before.reverse) ∧
      used = max 1 (size - before.flatten.length) := by
  unfold ofDecoder at h
  dsimp only at h
  cases hd : decode (before.flatten ++ chunk) with
  | corrupt => rw [hd] at h; cases h
  | unfinished output => rw [hd] at h; cases h
  | blockEnd settled output flawAt =>
    rw [hd] at h
    dsimp only at h
    split at h <;> cases h
  | finished output size =>
    rw [hd] at h
    cases h
    exact ⟨output, size, rfl, rfl, rfl⟩

namespace Steady

theorem size_pos (hs : Steady decode) {size : Nat} (h : decode bytes = .finished output size) :
    0 < size := by
  rcases Nat.eq_zero_or_pos size with rfl | hpos
  · exact absurd (hs.take h) hs.empty
  · exact hpos

/-- The members are what is decoded to its last byte. -/
theorem member_iff (hs : Steady decode) :
    (ofDecoder decode).Member bytes output ↔ decode bytes = .finished output bytes.length := by
  constructor
  · rintro ⟨hpos, h⟩
    obtain ⟨all, size, hd, hout, hsize⟩ := finished_of_ended h
    have hlow := hs.size_pos hd
    have hl : bytes.length = size := by
      rw [hsize, List.flatten_nil, List.length_nil, Nat.sub_zero, Nat.max_eq_right hlow]
    rw [hl, hout]
    exact hd
  · intro h
    have hlow := hs.size_pos h
    have hall : decode (([] : List Bytes).flatten ++ bytes) = .finished output bytes.length := h
    obtain ⟨hu, he⟩ := ofDecoder_of_finished hall
    exact ⟨.inr hlow, he.trans (Fed.ended_congr rfl (Nat.max_eq_right hlow) _ _)⟩

/-- A member that ends in a chunk has not ended before it. -/
theorem lt_size (hs : Steady decode) (hu : Underway decode before given) {size : Nat}
    (h : decode (before.flatten ++ chunk) = .finished output size) :
    before.flatten.length < size := by
  refine Nat.lt_of_not_le fun hsize => ?_
  have htake := hs.take h
  rw [List.take_append_of_le_length hsize] at htake
  have hbefore := hs.append (before.flatten.drop size) htake
  rw [List.take_append_drop] at hbefore
  by_cases hb : before = []
  · subst hb
    exact hs.empty hbefore
  · have hopen := hu.isOpen hb
    rw [hbefore] at hopen
    exact hopen

/-- A decompressor that runs a steady decoder is lawful. -/
theorem lawful (hs : Steady decode) : (ofDecoder decode).Lawful where
  more {before given chunk bytes output} ho _ hm hp hne := by
    have hfin := hs.member_iff.mp hm
    obtain ⟨rest, rfl⟩ := hp
    have hrest : rest ≠ [] := fun he => hne (he ▸ (List.append_nil _).symm)
    unfold ofDecoder
    dsimp only
    cases hd : decode (before.flatten ++ chunk) with
    | corrupt =>
      rw [hs.corrupt rest hd] at hfin
      cases hfin
    | unfinished found => exact ⟨_, rfl⟩
    | blockEnd settled found flawAt =>
      cases flawAt with
      | none => exact ⟨_, rfl⟩
      | some flawAt =>
        rw [hs.flaw hd hrest] at hfin
        cases hfin
    | finished found size =>
      have hsize := hs.size_le hd
      rw [hs.append rest hd] at hfin
      cases hfin
      have hpos := List.length_pos_iff.mpr hrest
      simp only [List.length_append] at hsize
      omega
  ended {before given chunk bytes output} ho hm hb hne hp := by
    have hfin := hs.member_iff.mp hm
    obtain ⟨rest, hr⟩ := hp
    have hall : decode (before.flatten ++ chunk) = .finished output bytes.length :=
      hr ▸ hs.append rest hfin
    have hu := Underway.of_open hs ho
    have hlt := hs.lt_size hu hall
    obtain ⟨hused, he⟩ := ofDecoder_of_finished hall
    refine ⟨_, _, hused, he, ?_, ?_⟩
    · omega
    · rw [← hu.length]
      exact append_drop_of_prefix (hu.prefix_of_finished hs hall)
  complete {before given chunk found used hused} ho _ he := by
    obtain ⟨output, size, hall, rfl, rfl⟩ := finished_of_ended he
    have hu := Underway.of_open hs ho
    have hlt := hs.lt_size hu hall
    have hle := hs.size_le hall
    rw [List.length_append] at hle
    have hmax : max 1 (size - before.flatten.length) = size - before.flatten.length := by omega
    refine ⟨by omega, ?_⟩
    have htake : before.flatten ++ chunk.take (size - before.flatten.length) =
        (before.flatten ++ chunk).take size := by
      rw [List.take_append, List.take_of_length_le (Nat.le_of_lt hlt)]
    have hlength : ((before.flatten ++ chunk).take size).length = size := by
      rw [List.length_take, List.length_append]
      omega
    rw [hmax, htake, ← hu.length, append_drop_of_prefix (hu.prefix_of_finished hs hall)]
    refine hs.member_iff.mpr ?_
    rw [hlength]
    exact hs.take hall

end Steady

end Checkpoint.Decompressor
