import Checkpoint.Codec.Table
import Checkpoint.Proofs.Steadiness
import Checkpoint.Proofs.Unsorting

/-! # Codecs are lawful

The decoders of all codecs are steady, so that it does not matter to a compressed section how it is
divided into chunks. -/
namespace Checkpoint

/-! ## Ends between bytes -/

/-- All bits of the bytes so far have been read. -/
structure Feed.Between (s : Feed) : Prop extends s.Sound where
  used_eq : s.used = 0

namespace Decoder

instance : Inhabited Cut := ⟨⟨0, [0], by simp⟩⟩

variable {α β : Type} {k : Nat} {p : Decoder α} {f : α → Decoder β}

/-- A step that ends between two bytes. -/
structure Lands (p : Decoder α) : Prop where
  ok : ∀ {s a t}, s.Sound → p s = .ok a t → t.Between

/-- A step that starts and ends between two bytes. -/
structure Keeps (p : Decoder α) : Prop where
  ok : ∀ {s a t}, s.Between → p s = .ok a t → t.Between

/-- Where a step ends does not depend on what stands before it. -/
theorem Lands.of_bind (hp : Sync default 0 k 0 p p) (hf : ∀ a, Lands (f a)) :
    Lands (p >>= f) where
  ok hs h := by
    obtain ⟨a, t, ht, hu⟩ := exists_of_bind h
    exact (hf a).ok (hp.short.ok hs ht).sound hu

theorem Lands.bind (hp : Lands p) (hf : ∀ a, Keeps (f a)) : Lands (p >>= f) where
  ok hs h := by
    obtain ⟨a, t, ht, hu⟩ := exists_of_bind h
    exact (hf a).ok (hp.ok hs ht) hu

theorem Lands.reject_bind : Lands (Decoder.reject >>= f) where
  ok _ h := by cases h

theorem Lands.align : Lands align where
  ok {s a t} hs h := by
    have hm := Moves.align.ok hs h
    refine ⟨hm.sound, ?_⟩
    cases hu : s.used with
    | zero =>
      rw [align_of_used_eq_zero hu] at h
      cases h
      exact hu
    | succ used =>
      obtain ⟨input, _, passed, output⟩ := s
      subst hu
      cases input with
      | nil => exact absurd (hs.used_nil rfl) (Nat.succ_ne_zero used)
      | cons b rest => cases h; rfl

theorem Keeps.bind (hp : Keeps p) (hf : ∀ a, Keeps (f a)) : Keeps (p >>= f) where
  ok hs h := by
    obtain ⟨a, t, ht, hu⟩ := exists_of_bind h
    exact (hf a).ok (hp.ok hs ht) hu

theorem Keeps.require (b : Bool) : Keeps (require b) where
  ok hs h := by
    cases b with
    | false => cases h
    | true => cases h; exact hs

theorem Keeps.get {g : Feed → Decoder β} (hg : ∀ s, Keeps (g s)) : Keeps (get >>= g) where
  ok {s _ _} hs h := (hg s).ok hs h

theorem left_of_bit {order : BitOrder} {s t : Feed} {value : Nat} (hs : s.Sound)
    (h : bit order s = .ok value t) : t.left + 1 = s.left := by
  obtain ⟨input, used, passed, output⟩ := s
  have hu : used < 8 := hs.used_lt
  cases input with
  | nil => cases h
  | cons b rest =>
    simp only [bit] at h
    split at h
    · cases h
      simp only [Feed.left, List.length_cons]
      omega
    · cases h
      simp only [Feed.left, List.length_cons]
      omega

/-- Exactly the bits of a number are read. -/
theorem left_of_bits {order : BitOrder} {n : Nat} {s t : Feed} {value : Nat} (hs : s.Sound)
    (h : bits order n s = .ok value t) : t.left + n = s.left := by
  induction n generalizing s t value with
  | zero => cases h; rfl
  | succ n ih =>
    unfold bits at h
    obtain ⟨first, u, hfirst, h⟩ := exists_of_bind h
    obtain ⟨others, v, hothers, h⟩ := exists_of_bind h
    have hu : u.Sound := ((Moves.bit order).ok hs hfirst).sound
    have hone := left_of_bit hs hfirst
    have hrest := ih hu hothers
    have hv : v = t := by
      cases order
      · cases h; rfl
      · cases h; rfl
    subst hv
    omega

theorem Keeps.bits (order : BitOrder) (bytes : Nat) : Keeps (bits order (8 * bytes)) where
  ok {s value t} hs h := by
    have hsync : Sync default 0 (8 * bytes) 0 (Decoder.bits order (8 * bytes))
        (Decoder.bits order (8 * bytes)) := .bits order _
    have hsound : t.Sound := (hsync.short.ok hs.toSound h).sound
    refine ⟨hsound, ?_⟩
    have hleft := left_of_bits hs.toSound h
    have hlt := hsound.used_lt
    have hzero := hs.used_eq
    have hnil : t.input.length = 0 → t.used = 0 := fun hn =>
      hsound.used_nil (List.length_eq_zero_iff.mp hn)
    unfold Feed.left at hleft
    omega

/-! ## Steady decoders -/

/-- A decoder of members that goes on where it stopped, and ends between two bytes. -/
structure Continues (member : Nat → Decoder Unit) : Prop where
  follows : ∀ (bytes : Bytes) (c : Cut), c.size = bytes.length →
    Follows c 0 (member (8 * bytes.length + 1) { input := bytes })
      (member (8 * (bytes ++ c.more).length + 1) { input := bytes ++ c.more })
  lands : ∀ {bytes : Bytes} {t : Feed},
    member (8 * bytes.length + 1) { input := bytes } = .ok () t →
    t.used = 0 ∧ t.size = bytes.length
  empty : ∀ {t}, member 1 { input := [] } ≠ .ok () t

variable {member : Nat → Decoder Unit} {bytes output : Bytes} {size : Nat}

theorem exists_of_decode (h : decode member bytes = .finished output size) :
    ∃ t, member (8 * bytes.length + 1) { input := bytes } = .ok () t ∧ output = t.output.toList ∧
      size = t.passed := by
  unfold decode at h
  split at h
  · rename_i t ht
    cases h
    exact ⟨t, ht, rfl, rfl⟩
  all_goals cases h

theorem decode_of_ok {t : Feed} (h : member (8 * bytes.length + 1) { input := bytes } = .ok () t) :
    decode member bytes = .finished t.output.toList t.passed := by
  unfold decode
  rw [h]

theorem decode_of_corrupt {t : Feed}
    (h : member (8 * bytes.length + 1) { input := bytes } = .error .corrupt t) :
    decode member bytes = .corrupt := by
  unfold decode
  rw [h]

theorem exists_of_corrupt (h : decode member bytes = .corrupt) :
    ∃ t, member (8 * bytes.length + 1) { input := bytes } = .error .corrupt t := by
  unfold decode at h
  split at h
  · cases h
  · exact ⟨_, ‹_›⟩
  all_goals cases h

theorem exists_of_blockEnd {settled : Nat} {flawAt : Option Nat}
    (h : decode member bytes = .blockEnd settled output flawAt) :
    ∃ t, member (8 * bytes.length + 1) { input := bytes } =
      .error (.blockEnd settled flawAt) t := by
  unfold decode at h
  split at h
  any_goals cases h
  exact ⟨_, ‹_›⟩

theorem output_of_error {h : Halt} {t : Feed} (ho : h ≠ .corrupt)
    (hr : member (8 * bytes.length + 1) { input := bytes } = .error h t) :
    (decode member bytes).output = t.output.toList := by
  unfold decode
  rw [hr]
  cases h with
  | corrupt => exact absurd rfl ho
  | starved => rfl
  | blockEnd settled flawAt => rfl

namespace Continues

/-- What comes of more bytes, if there are more. -/
theorem follows_append (hm : Continues member) (bytes : Bytes) {more : Bytes} (hne : more ≠ [])
    {r : EStateM.Result Halt Feed Unit}
    (hr : member (8 * bytes.length + 1) { input := bytes } = r) :
    ∃ r', member (8 * (bytes ++ more).length + 1) { input := bytes ++ more } = r' ∧
      Follows ⟨bytes.length, more, hne⟩ 0 r r' :=
  ⟨_, rfl, hr ▸ hm.follows bytes ⟨bytes.length, more, hne⟩ rfl⟩

theorem decode_append (hm : Continues member) (more : Bytes)
    (h : decode member bytes = .finished output size) :
    decode member (bytes ++ more) = .finished output size := by
  by_cases hne : more = []
  · rw [hne, List.append_nil]
    exact h
  · obtain ⟨t, ht, rfl, rfl⟩ := exists_of_decode h
    obtain ⟨r, hr, hf⟩ := hm.follows_append bytes hne ht
    cases hf
    have hall := decode_of_ok hr
    exact hall

/-- A member that ends with all bytes of a feed does not stop before more of them. -/
theorem decode_take (hm : Continues member) (h : decode member bytes = .finished output size) :
    decode member (bytes.take size) = .finished output size := by
  obtain ⟨t, ht, rfl, rfl⟩ := exists_of_decode h
  obtain ⟨hused, hsize⟩ := hm.lands ht
  by_cases hne : bytes.drop t.passed = []
  · rw [List.take_of_length_le (List.drop_eq_nil_iff.mp hne)]
    exact h
  · obtain ⟨r, hr, hf⟩ := hm.follows_append (bytes.take t.passed) hne rfl
    rw [List.take_append_drop, ht] at hr
    generalize hshort : member (8 * (bytes.take t.passed).length + 1)
      { input := bytes.take t.passed } = short at hf
    cases hf with
    | same a s =>
      have hst : t = s.extend (bytes.drop t.passed) := (EStateM.Result.ok.inj hr).2
      have hout : s.output = t.output := (congrArg Feed.output hst).symm
      have hpassed : s.passed = t.passed := (congrArg Feed.passed hst).symm
      rw [decode_of_ok hshort, hout, hpassed]
    | corrupt h s s' => cases hr
    | stopped h ho hout => cases hr
    | @passed _ _ t' a ho hout hleft =>
      -- all bits of the member stand before those that are missing
      obtain rfl : t = t' := (EStateM.Result.ok.inj hr).2
      rw [List.length_drop, ← hsize, Feed.left, hused] at hleft
      unfold Feed.size at hleft
      omega

theorem decode_corrupt (hm : Continues member) (more : Bytes)
    (h : decode member bytes = .corrupt) : decode member (bytes ++ more) = .corrupt := by
  by_cases hne : more = []
  · rw [hne, List.append_nil]
    exact h
  · obtain ⟨t, ht⟩ := exists_of_corrupt h
    obtain ⟨r, hr, hf⟩ := hm.follows_append bytes hne ht
    cases hf with
    | corrupt => exact decode_of_corrupt hr
    | stopped _ ho _ => exact absurd ho id
    | passed _ ho _ _ => exact absurd ho id

/-- A flaw of a block shows at the latest with the next byte. -/
theorem decode_flaw (hm : Continues member) {settled flawAt : Nat} {more : Bytes}
    (h : decode member bytes = .blockEnd settled output (some flawAt)) (hne : more ≠ []) :
    decode member (bytes ++ more) = .corrupt := by
  obtain ⟨t, ht⟩ := exists_of_blockEnd h
  obtain ⟨r, hr, hf⟩ := hm.follows_append bytes hne ht
  cases hf with
  | corrupt => exact decode_of_corrupt hr
  | stopped _ ho _ => exact absurd ho id
  | passed _ ho _ _ => exact absurd ho id

theorem output_decode_prefix (hm : Continues member) (bytes more : Bytes)
    (hn : decode member (bytes ++ more) ≠ .corrupt) :
    (decode member bytes).output <+: (decode member (bytes ++ more)).output := by
  by_cases hne : more = []
  · have hall : bytes ++ more = bytes := by rw [hne, List.append_nil]
    exact hall.symm ▸ List.prefix_rfl
  · cases ht : member (8 * bytes.length + 1) { input := bytes } with
    | ok a t =>
      have hd : decode member bytes = .finished t.output.toList t.passed := decode_of_ok ht
      have hsame : decode member bytes = decode member (bytes ++ more) :=
        hd.trans (hm.decode_append more hd).symm
      exact hsame ▸ List.prefix_rfl
    | error h t =>
      obtain ⟨r, hr, hf⟩ := hm.follows_append bytes hne ht
      by_cases hh : h = .corrupt
      · rw [decode_of_corrupt (hh ▸ ht)]
        exact List.nil_prefix
      · rw [output_of_error hh ht]
        cases hf with
        | corrupt => exact absurd (decode_of_corrupt hr) hn
        | stopped h' _ hout =>
          have hh' : h' ≠ .corrupt := fun he => hn (decode_of_corrupt (he ▸ hr))
          rw [output_of_error hh' hr]
          exact hout
        | passed a _ hout _ =>
          rw [decode_of_ok hr]
          exact hout

/-- The decoder that a codec runs on the bytes from the start of a member on is steady. -/
theorem steady (hm : Continues member) : Decompressor.Steady (decode member) where
  empty := by
    intro output size h
    obtain ⟨t, ht, -⟩ := exists_of_decode h
    exact hm.empty ht
  size_le := by
    intro bytes output size h
    obtain ⟨t, ht, -, rfl⟩ := exists_of_decode h
    obtain ⟨-, hsize⟩ := hm.lands ht
    rw [← hsize]
    exact Nat.le_add_right _ _
  take := hm.decode_take
  append := hm.decode_append
  corrupt := hm.decode_corrupt
  flaw := hm.decode_flaw
  output := hm.output_decode_prefix

end Continues

end Decoder

/-! ## The codecs -/

namespace Decoder

/-- A decoder that may look back at the bytes of its feed continues if it reads them in step. -/
theorem Continues.of_sync {member : Nat → Decoder Unit} (memberFrom : Bytes → Nat → Decoder Unit)
    (hstart : ∀ limit s, member limit s = memberFrom s.input limit s)
    (hsync : ∀ {c : Cut} {l l' : Nat} {start start' : Bytes},
      (∀ n ≤ c.size, start.take n = start'.take n) → l ≤ l' →
        Sync c l 0 0 (memberFrom start l) (memberFrom start' l'))
    (hlands : ∀ start limit, Lands (memberFrom start limit))
    (hempty : ∀ t, member 1 { input := [] } ≠ .ok () t) : Continues member where
  follows bytes c hc := by
    have hs : Feed.Sound { input := bytes } := ⟨Nat.zero_lt_succ _, fun _ => rfl⟩
    have hstarts : ∀ n ≤ c.size, bytes.take n = (bytes ++ c.more).take n := fun n hn =>
      (List.take_append_of_le_length (hc ▸ hn)).symm
    have hlimit : 8 * bytes.length + 1 ≤ 8 * (bytes ++ c.more).length + 1 := by
      rw [List.length_append]
      omega
    rw [hstart, hstart]
    refine (hsync hstarts hlimit).follows hs ?_ (Nat.lt_succ_self _)
    exact (Nat.zero_add _).trans hc.symm
  lands {bytes t} h := by
    have hs : Feed.Sound { input := bytes } := ⟨Nat.zero_lt_succ _, fun _ => rfl⟩
    rw [hstart] at h
    have hmoves : Sync default (8 * bytes.length + 1) 0 0 (memberFrom bytes _)
        (memberFrom bytes _) := hsync (fun _ _ => rfl) (Nat.le_refl _)
    refine ⟨((hlands _ _).ok hs h).used_eq, ?_⟩
    exact (hmoves.short.ok hs h).size.trans (Nat.zero_add _)
  empty {t} := hempty t

end Decoder

theorem Deflate.member_lands (limit : Nat) : Decoder.Lands (Deflate.member limit) := by
  have hblocks : Decoder.Sync default 0 0 0 (blocks limit limit) (blocks limit limit) :=
    (blocks_sync (Nat.le_refl _) (Nat.le_refl _) (Nat.le_refl _)).mono (Nat.zero_le _)
      (Nat.le_refl _) (Nat.le_refl _)
  exact .of_bind hblocks fun _ => .align

theorem Zlib.member_lands (limit : Nat) : Decoder.Lands (Zlib.member limit) := by
  refine .of_bind (Deflate.bits_sync 8) fun method => .of_bind (Deflate.bits_sync 8) fun flags =>
    .of_bind (.require _) fun _ => ?_
  dsimp only
  split
  · exact .of_bind (Deflate.bits_sync 32) fun _ => .reject_bind
  · exact .bind (Deflate.member_lands limit) fun _ => .bind (.bits _ 4) fun sum =>
      .get fun s => .require _

theorem Gzip.memberFrom_lands (start : Bytes) (limit : Nat) :
    Decoder.Lands (Gzip.memberFrom start limit) := by
  have hheader : Decoder.Sync default 0 0 0 (headerFrom start limit) (headerFrom start limit) :=
    (headerFrom_sync (fun _ _ => rfl) (Nat.le_refl _)).mono (Nat.zero_le _) (Nat.le_refl _)
      (Nat.le_refl _)
  exact .of_bind hheader fun _ => .bind (Deflate.member_lands limit) fun _ =>
    .bind (.bits _ 4) fun sum => .get fun s => .bind (.require _) fun _ =>
    .bind (.bits _ 4) fun length => .get fun s => .require _

theorem Bzip2.member_lands (limit : Nat) : Decoder.Lands (Bzip2.member limit) := by
  have hblocks (level : Nat) : Decoder.Sync default 0 0 0 (blocks level limit limit 0)
      (blocks level limit limit 0) :=
    (blocks_sync level (Nat.le_refl _) (Nat.le_refl _) (Nat.le_refl _) 0).mono (Nat.zero_le _)
      (Nat.zero_le _) (Nat.le_refl _)
  exact .of_bind (expect_sync _) fun _ => .of_bind (bits_sync 8) fun digit =>
    .of_bind (.require _) fun _ => .of_bind (hblocks _) fun _ => .align

namespace Codec

theorem member_continues (codec : Codec) : Decoder.Continues codec.member := by
  cases codec with
  | bzip2 =>
    exact .of_sync (fun _ => Bzip2.member) (fun _ _ => rfl) (fun _ h => Bzip2.member_sync h)
      (fun _ => Bzip2.member_lands) (fun t h => by cases h)
  | zlib =>
    exact .of_sync (fun _ => Zlib.member) (fun _ _ => rfl) (fun _ h => Zlib.member_sync h)
      (fun _ => Zlib.member_lands) (fun t h => by cases h)
  | gzip =>
    exact .of_sync Gzip.memberFrom Gzip.member_of_start Gzip.memberFrom_sync
      Gzip.memberFrom_lands (fun t h => by cases h)

/-- The codecs are found by their names. -/
theorem choose_name (codec : Codec) :
    table.choose codec.name = .ok (.compressed codec.decompressor) := by
  have hname : codec.name.isEmpty = false := by cases codec <;> decide +kernel
  have hfind : all.find? (·.name == codec.name) = some codec := by cases codec <;> decide +kernel
  have htable : table codec.name = .compressed codec.decompressor := by
    unfold table
    rw [hname, hfind]
    rfl
  rw [CodecTable.choose, htable]

/-- For every codec it does not matter how members are divided into chunks. -/
theorem lawful (codec : Codec) : codec.decompressor.Lawful :=
  codec.member_continues.steady.lawful

end Codec

end Checkpoint
