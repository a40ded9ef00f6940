import Checkpoint.Proofs.Container
import Checkpoint.Proofs.Questions

/-! # The form of a container

Which byte strings are containers whose summary can be read, said without reading them, and what the
summary is then. The other byte strings are refused, each for the first of the conditions that it
does not meet. -/
namespace Checkpoint

/-! ## The length of the summary -/

/-- Four bytes that stand for `n` as a signed word, most significant byte first. -/
def Bytes.SignedWord (word : Bytes) (n : Int) : Prop :=
  ∃ a b c d : UInt8, word = [a, b, c, d] ∧ -0x80000000 ≤ n ∧ n < 0x80000000 ∧
    (0x100000000 : Int) ∣
      a.toNat * 0x1000000 + b.toNat * 0x10000 + c.toNat * 0x100 + d.toNat - n

theorem Bytes.bigEndian_four (a b c d : UInt8) : bigEndian [a, b, c, d] =
    a.toNat * 0x1000000 + b.toNat * 0x10000 + c.toNat * 0x100 + d.toNat := by
  simp only [bigEndian, List.foldl_cons, List.foldl_nil]
  omega

theorem Bytes.signedWord_iff {word : Bytes} {n : Int} (h : word.length = 4) :
    word.SignedWord n ↔ n = signedWord 32 (bigEndian word) := by
  obtain ⟨a, b, c, d, rfl⟩ : ∃ a b c d, word = [a, b, c, d] :=
    ⟨_, _, _, _, List.eq_getElem_of_length_eq_four word h⟩
  have ha := a.toNat_lt
  have hb := b.toNat_lt
  have hc := c.toNat_lt
  have hd := d.toNat_lt
  have hword : (1 <<< 32 : Nat) = 0x100000000 := rfl
  rw [bigEndian_four, signedWord, hword]
  constructor
  · intro ⟨a', b', c', d', he, hlo, hhi, hdvd⟩
    simp only [List.cons.injEq, and_true] at he
    obtain ⟨rfl, rfl, rfl, rfl⟩ := he
    split <;> omega
  · intro hn
    refine ⟨a, b, c, d, rfl, ?_⟩
    split at hn <;> omega

namespace Summary

variable {image : Bytes} {length : Int} {record : Record}

/-! ## Conditions -/

/-- The image has room for a magic word and a length, and the magic word stands at its start. -/
def Recognized (image : Bytes) : Prop := 12 ≤ image.length ∧ magic <+: image

/-- The last four bytes of the image are a length, and there are so many bytes between the magic word
and them. -/
structure Sized (image : Bytes) (length : Int) : Prop where
  recognized : Recognized image
  word : Bytes.SignedWord (image.drop (image.length - 4)) length
  pos : 0 < length
  le : length ≤ image.length - 12

/-- The bytes in front of the last four that are set aside for the summary. -/
def block (image : Bytes) (length : Int) : Bytes :=
  Bytes.slice image (image.length - 4 - length.toNat) length.toNat

/-- The bytes set aside for the summary are not too many, and they start with a frame of it. -/
structure Holds (image : Bytes) (length : Int) (record : Record) : Prop where
  sized : Sized image length
  le_max : length ≤ 64 * 1024 * 1024
  framed : ∃ frame rest, block image length = frame ++ rest ∧ Framed schema record frame

/-- The section that a record describes lies in the image before the summary. -/
def LiesBefore (image : Bytes) (length : Int) (s : Record) : Prop :=
  0 ≤ s.int 3 ∧ 0 ≤ s.int 2 ∧ s.int 3 + s.int 2 ≤ image.length - 4 - length

/-- The image is a container; `record` is its summary and has `length` bytes set aside for it. -/
structure Accepted (image : Bytes) (length : Int) (record : Record) : Prop where
  holds : Holds image length record
  ondiskVersion : record.int 1 = 1
  layoutVersion : record.int 2 ≤ -51
  lie_before : ∀ s ∈ record.records 4, LiesBefore image length s

/-- The image is no container, since the conditions before a certain one are met and that one is
not. -/
inductive Refused (image : Bytes) : FormatProblem → Prop
  | unrecognized : ¬Recognized image → Refused image .unrecognized
  | summaryLength {length : Int} : Recognized image →
      Bytes.SignedWord (image.drop (image.length - 4)) length →
      ¬(0 < length ∧ length ≤ image.length - 12) → Refused image (.summaryLength length)
  | summaryTooLarge {length : Int} : Sized image length → 64 * 1024 * 1024 < length →
      Refused image (.summaryTooLarge length)
  | corruptSummary {length : Int} {problem : RecordProblem} {s : ByteStream} :
      Sized image length → length ≤ 64 * 1024 * 1024 →
      ByteStream.readRecord? schema ⟨block image length, none⟩ = .error problem s →
      Refused image (.corruptSummary problem)
  | fileVersion {length : Int} {record : Record} : Holds image length record →
      record.int 1 ≠ 1 → Refused image (.fileVersion (record.int 1))
  | layoutVersion {length : Int} {record : Record} : Holds image length record →
      record.int 1 = 1 → -51 < record.int 2 → Refused image (.layoutVersion (record.int 2))
  | sectionOutside {length : Int} {record s : Record} {before after : List Record} :
      Holds image length record → record.int 1 = 1 → record.int 2 ≤ -51 →
      record.records 4 = before ++ s :: after → (∀ t ∈ before, LiesBefore image length t) →
      ¬LiesBefore image length s →
      Refused image (.sectionOutside (s.text 1) (s.int 3) (s.int 2))

/-! ## Steps of reading -/

/-- The length that the last four bytes say. -/
def declaredLength (image : Bytes) : Int :=
  signedWord 32 (Bytes.bigEndian (image.drop (image.length - 4)))

theorem checkMagic_of_recognized (h : Recognized image) : checkMagic image = .ok () := by
  have htake : image.take magic.length = magic := (List.prefix_iff_eq_take.mp h.2).symm
  have hsize : ¬image.length < magic.length + lengthBytes := Nat.not_lt.mpr h.1
  rw [checkMagic, if_neg hsize, if_neg (not_not_intro htake)]

theorem checkMagic_of_not_recognized (h : ¬Recognized image) :
    checkMagic image = .error .unrecognized := by
  rw [checkMagic]
  by_cases hl : image.length < magic.length + lengthBytes
  · rw [if_pos hl]
  · rw [if_neg hl]
    split
    · rfl
    · rename_i htake
      have hm : magic <+: image := Decidable.not_not.mp htake ▸ List.take_prefix _ _
      exact absurd ⟨Nat.not_lt.mp hl, hm⟩ h

theorem signedWord_declaredLength (h : Recognized image) :
    Bytes.SignedWord (image.drop (image.length - 4)) length ↔ length = declaredLength image := by
  refine Bytes.signedWord_iff ?_
  have hl := h.1
  rw [List.length_drop]
  omega

theorem sized_iff (h : Recognized image) : Sized image length ↔
    length = declaredLength image ∧ 0 < length ∧ length ≤ image.length - 12 := by
  constructor
  · intro hs
    exact ⟨(signedWord_declaredLength h).mp hs.word, hs.pos, hs.le⟩
  · intro ⟨hw, hp, hl⟩
    exact ⟨h, (signedWord_declaredLength h).mpr hw, hp, hl⟩

theorem read_of_not_recognized (h : ¬Recognized image) : read image = .error .unrecognized := by
  rw [read, checkMagic_of_not_recognized h]
  rfl

/-- A recognized image is read by way of its last four bytes. -/
theorem read_of_recognized (h : Recognized image) : read image =
    if declaredLength image ≤ 0 ∨ (image.length : Int) - 12 < declaredLength image then
      .error (.summaryLength (declaredLength image))
    else if 64 * 1024 * 1024 < declaredLength image then
      .error (.summaryTooLarge (declaredLength image))
    else ofBytes (block image (declaredLength image)) >>= fun summary =>
      summary.check (image.length - 4 - (declaredLength image).toNat : Nat) := by
  have hl := h.1
  have hbound : ((image.length - lengthBytes : Nat) : Int) - magic.length =
      (image.length : Int) - 12 := by
    have hm : magic.length = 8 := rfl
    have hb : lengthBytes = 4 := rfl
    omega
  rw [read, checkMagic_of_recognized h]
  change (if declaredLength image ≤ 0 ∨
      ((image.length - lengthBytes : Nat) : Int) - magic.length < declaredLength image then
    .error (.summaryLength (declaredLength image))
    else if 64 * 1024 * 1024 < declaredLength image then
      .error (.summaryTooLarge (declaredLength image))
    else ofBytes (block image (declaredLength image)) >>= fun summary =>
      summary.check (image.length - 4 - (declaredLength image).toNat : Nat)) = _
  rw [hbound]

theorem Sized.read_eq (h : Sized image length) (hmax : length ≤ 64 * 1024 * 1024) :
    read image = ofBytes (block image length) >>= fun summary =>
      summary.check (image.length - 4 - length) := by
  obtain ⟨rfl, hp, hl⟩ := (sized_iff h.recognized).mp h
  have hlimit : ((image.length - 4 - (declaredLength image).toNat : Nat) : Int) =
      image.length - 4 - declaredLength image := by
    omega
  rw [read_of_recognized h.recognized, if_neg (by omega), if_neg (by omega), hlimit]

theorem Sized.block_ne_nil (h : Sized image length) : block image length ≠ [] := by
  have hp := h.pos
  have hl := h.le
  have hlen : (block image length).length ≠ 0 := by
    rw [block, Bytes.length_slice]
    omega
  exact List.ne_nil_of_length_pos (Nat.pos_of_ne_zero hlen)

/-- What comes after the frame of the record does not matter. -/
theorem ofBytes_of_framed {frame : Bytes} (h : Framed schema record frame) (rest : Bytes) :
    ofBytes (frame ++ rest) = .ok (ofRecord record) := by
  rw [ofBytes, ByteStream.readRecord?_of_framed h]

theorem framed_of_ofBytes {bytes : Bytes} {summary : Summary} (h : ofBytes bytes = .ok summary) :
    ∃ record, summary = ofRecord record ∧
      ∃ frame rest, bytes = frame ++ rest ∧ Framed schema record frame := by
  rw [ofBytes] at h
  split at h
  · cases h
  · cases h
  · rename_i record s hr
    obtain ⟨frame, rest, hb, -, hf⟩ := ByteStream.framed_of_readRecord? hr
    exact ⟨record, (Except.ok.inj h).symm, frame, rest, hb, hf⟩

theorem problem_of_ofBytes {bytes : Bytes} {cause : FormatProblem} (hne : bytes ≠ [])
    (h : ofBytes bytes = .error cause) : ∃ problem s, cause = .corruptSummary problem ∧
      ByteStream.readRecord? schema ⟨bytes, none⟩ = .error problem s := by
  rw [ofBytes] at h
  split at h
  · rename_i problem s hr
    exact ⟨problem, s, (Except.error.inj h).symm, hr⟩
  · rename_i s hr
    exact absurd (ByteStream.eq_nil_of_readRecord? hr).1 hne
  · cases h

theorem Holds.read_eq (h : Holds image length record) :
    read image = (ofRecord record).check (image.length - 4 - length) := by
  obtain ⟨frame, rest, hb, hf⟩ := h.framed
  rw [h.sized.read_eq h.le_max, hb, ofBytes_of_framed hf]
  rfl

theorem sectionFits_iff (image : Bytes) (length : Int) (s : Record) :
    SectionFits (image.length - 4 - length) (sectionOfRecord s) ↔ LiesBefore image length s :=
  Iff.rfl

/-- Of the sections, those that do not fit are looked for in their order. -/
theorem find?_sections (image : Bytes) (length : Int) (record : Record) (entry : SectionEntry) :
    (ofRecord record).sections.find? (fun entry => ¬SectionFits (image.length - 4 - length) entry) =
      some entry ↔ ∃ before s after, record.records 4 = before ++ s :: after ∧
        (∀ t ∈ before, LiesBefore image length t) ∧ ¬LiesBefore image length s ∧
          entry = sectionOfRecord s := by
  change ((record.records 4).map sectionOfRecord).find? _ = some entry ↔ _
  rw [List.find?_map, Option.map_eq_some_iff]
  simp only [List.find?_eq_some_iff_append, Function.comp_apply, sectionFits_iff, decide_not,
    Bool.not_not, decide_eq_true_eq, Bool.not_eq_true', decide_eq_false_iff_not]
  constructor
  · intro ⟨s, ⟨hs, before, after, he, hb⟩, hentry⟩
    exact ⟨before, s, after, he, hb, hs, hentry.symm⟩
  · intro ⟨before, s, after, he, hb, hs, hentry⟩
    exact ⟨s, ⟨hs, before, after, he, hb⟩, hentry.symm⟩

/-! ## Acceptance and refusal -/

theorem Accepted.read_eq (h : Accepted image length record) :
    read image = .ok (ofRecord record) := by
  have hv : ¬(ofRecord record).ondiskVersion ≠ fileVersion := not_not_intro h.ondiskVersion
  have hl : ¬firstLayout < (ofRecord record).layoutVersion := Int.not_lt.mpr h.layoutVersion
  rw [h.holds.read_eq, check, if_neg hv, if_neg hl]
  split
  · rename_i entry hf
    obtain ⟨before, s, after, he, -, hs, -⟩ := (find?_sections image length record entry).mp hf
    have hmem : s ∈ record.records 4 := he ▸ List.mem_append_right _ List.mem_cons_self
    exact absurd (h.lie_before s hmem) hs
  · rfl

theorem Refused.read_eq {cause : FormatProblem} (h : Refused image cause) :
    read image = .error cause := by
  cases h with
  | unrecognized h => exact read_of_not_recognized h
  | summaryLength hr hw hl =>
    obtain rfl := (signedWord_declaredLength hr).mp hw
    rw [read_of_recognized hr, if_pos (by omega)]
  | summaryTooLarge hs hmax =>
    obtain ⟨rfl, hp, hl⟩ := (sized_iff hs.recognized).mp hs
    rw [read_of_recognized hs.recognized, if_neg (by omega), if_pos hmax]
  | corruptSummary hs hmax hr =>
    rw [hs.read_eq hmax, ofBytes, hr]
    rfl
  | fileVersion h hv =>
    rw [h.read_eq, check, if_pos (show (ofRecord _).ondiskVersion ≠ Summary.fileVersion from hv)]
    rfl
  | @layoutVersion length record h hv hl =>
    have hv' : ¬(ofRecord record).ondiskVersion ≠ Summary.fileVersion := not_not_intro hv
    have hl' : firstLayout < (ofRecord record).layoutVersion := hl
    rw [h.read_eq, check, if_neg hv', if_pos hl']
    rfl
  | @sectionOutside length record s before after h hv hl he hb hs =>
    have hv' : ¬(ofRecord record).ondiskVersion ≠ Summary.fileVersion := not_not_intro hv
    have hl' : ¬firstLayout < (ofRecord record).layoutVersion := Int.not_lt.mpr hl
    have hf := (find?_sections image length record _).mpr ⟨before, s, after, he, hb, hs, rfl⟩
    rw [h.read_eq, check, if_neg hv', if_neg hl', hf]
    rfl

/-- There is no third case. -/
theorem accepted_or_refused (image : Bytes) :
    (∃ length record, Accepted image length record) ∨ ∃ cause, Refused image cause := by
  by_cases hr : Recognized image
  · have hw : Bytes.SignedWord (image.drop (image.length - 4)) (declaredLength image) :=
      (signedWord_declaredLength hr).mpr rfl
    by_cases hl : 0 < declaredLength image ∧ declaredLength image ≤ image.length - 12
    · have hs : Sized image (declaredLength image) := ⟨hr, hw, hl.1, hl.2⟩
      by_cases hmax : declaredLength image ≤ 64 * 1024 * 1024
      · cases ho : ofBytes (block image (declaredLength image)) with
        | error cause =>
          obtain ⟨problem, s, -, hp⟩ := problem_of_ofBytes hs.block_ne_nil ho
          exact .inr ⟨_, .corruptSummary hs hmax hp⟩
        | ok summary =>
          obtain ⟨record, -, hf⟩ := framed_of_ofBytes ho
          have h : Holds image (declaredLength image) record := ⟨hs, hmax, hf⟩
          by_cases hv : record.int 1 = 1
          · by_cases hlayout : record.int 2 ≤ -51
            · cases hfind : (ofRecord record).sections.find? (fun entry =>
                  ¬SectionFits (image.length - 4 - declaredLength image) entry) with
              | none =>
                refine .inl ⟨_, record, h, hv, hlayout, fun s hs => ?_⟩
                have hfits := List.find?_eq_none.mp hfind _ (List.mem_map_of_mem hs)
                exact (sectionFits_iff _ _ s).mp (by simpa using hfits)
              | some entry =>
                obtain ⟨before, s, after, he, hb, hs, -⟩ := (find?_sections _ _ _ _).mp hfind
                exact .inr ⟨_, .sectionOutside h hv hlayout he hb hs⟩
            · exact .inr ⟨_, .layoutVersion h hv (Int.not_le.mp hlayout)⟩
          · exact .inr ⟨_, .fileVersion h hv⟩
      · exact .inr ⟨_, .summaryTooLarge hs (Int.not_le.mp hmax)⟩
    · exact .inr ⟨_, .summaryLength hr hw hl⟩
  · exact .inr ⟨_, .unrecognized hr⟩

/-- The summary of an image is read exactly if the image is a container, and is then what the record
says: the versions, the name of the codec and the sections in their order. Every other image is
refused, for the first condition that it does not meet. The record has every attribute that it is
asked for, each with a value of the kind that is expected, so reading it cannot go wrong in any other
way. -/
theorem read_iff (image : Bytes) :
    (∀ summary, read image = .ok summary ↔ ∃ length record, Accepted image length record ∧
      summary =
        { ondiskVersion := record.int 1
          layoutVersion := record.int 2
          codec := record.text 3
          sections := (record.records 4).map fun s => ⟨s.text 1, s.int 3, s.int 2⟩ }) ∧
    (∀ cause, read image = .error cause ↔ Refused image cause) ∧
    ∀ length record, Holds image length record →
      Summary.question.ask record = .ok (ofRecord record) := by
  refine ⟨fun summary => ⟨fun h => ?_, ?_⟩, fun cause => ⟨fun h => ?_, Refused.read_eq⟩, ?_⟩
  · obtain ⟨length, record, ha⟩ | ⟨cause, hr⟩ := accepted_or_refused image
    · rw [ha.read_eq] at h
      exact ⟨length, record, ha, (Except.ok.inj h).symm⟩
    · rw [hr.read_eq] at h
      cases h
  · intro ⟨length, record, ha, hs⟩
    rw [ha.read_eq, hs]
    rfl
  · obtain ⟨length, record, ha⟩ | ⟨other, hr⟩ := accepted_or_refused image
    · rw [ha.read_eq] at h
      cases h
    · rw [hr.read_eq] at h
      exact Except.error.inj h ▸ hr
  · intro length record h
    obtain ⟨frame, rest, -, size, body, -, -, -, hp⟩ := h.framed
    exact Summary.question.answered (LayoutOf.typed_of_parse hp)

end Summary

end Checkpoint
