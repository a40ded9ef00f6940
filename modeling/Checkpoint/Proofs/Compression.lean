import Mathlib.Data.List.Forall2
import Checkpoint.Proofs.Codecs
import Checkpoint.Proofs.Faults
import Checkpoint.Proofs.Likeness
import Checkpoint.Proofs.Members
import Checkpoint.Proofs.Strict

/-! # Compressed images

Compression is transparent: an image is converted as the one that holds what its sections expand to.
And it is checked: a strict conversion succeeds only if every known section is made of complete
members, so that no section can be cut inside a member or have other bytes behind its members. -/
namespace Checkpoint

/-! ## The same payloads -/

namespace Session

/-- Sections of the same names and streams, one by one, are so in each kind. -/
theorem streams_eq_of_forall₂ {streamOf streamOf' : SectionEntry → ByteStream}
    {table table' : List SectionEntry} (kind : SectionKind)
    (h : List.Forall₂ (fun entry entry' => entry.name = entry'.name ∧
      (entry.kind.isSome → streamOf entry = streamOf' entry')) table table') :
    streams streamOf (table.filter (·.kind == some kind)) =
      streams streamOf' (table'.filter (·.kind == some kind)) := by
  induction h with
  | nil => rfl
  | @cons entry entry' rest rest' he _ ih =>
    obtain ⟨hn, hs⟩ := he
    have hk : entry.kind = entry'.kind := congrArg SectionKind.ofName? hn
    by_cases hkind : entry.kind = some kind
    · have hs : streamOf entry = streamOf' entry' := hs (by rw [hkind]; rfl)
      have hkind' : entry'.kind = some kind := hk ▸ hkind
      rw [List.filter_cons_of_pos (by simp [hkind]), List.filter_cons_of_pos (by simp [hkind'])]
      exact congrArg₂ List.cons (Prod.ext hn hs) ih
    · have hkind' : entry'.kind ≠ some kind := hk ▸ hkind
      rw [List.filter_cons_of_neg (by simpa using hkind),
        List.filter_cons_of_neg (by simpa using hkind')]
      exact ih

/-- A compressed image is converted as the image that holds what its sections expand to: with the
same document, records, warnings and outcome. -/
theorem visit_alike_of_expands {settings : Settings} {d : Decompressor} {plain packed : Bytes}
    {summary summary' : Summary} (hd : d.Lawful) (hr : Summary.read plain = .ok summary)
    (hr' : Summary.read packed = .ok summary')
    (hc : settings.codecs.choose summary.codec = .ok .stored)
    (hc' : settings.codecs.choose summary'.codec = .ok (.compressed d))
    (hl : summary.layoutVersion = summary'.layoutVersion)
    (hs : List.Forall₂ (fun entry entry' => entry.name = entry'.name ∧
      (entry.kind.isSome → d.Expands (entry'.stored packed) (entry.stored plain)))
      summary.sections summary'.sections) (session : Session) :
    (session.visit settings plain).Alike (session.visit settings packed) := by
  refine visit_alike hr hr' hl hc hc' (fun kind => streams_eq_of_forall₂ kind ?_) session
  refine hs.imp fun entry entry' he => ⟨he.1, fun hk => ?_⟩
  have hcontent : Decompressor.content d (entry'.stored packed) = ⟨entry.stored plain, none⟩ :=
    (Decompressor.content_eq_iff hd).mpr (he.2 hk)
  exact hcontent.symm

end Session

/-- `smallImage` with its sections compressed, the first one in two members. -/
def packedImage : Bytes :=
  [72, 68, 70, 83, 73, 77, 71, 49, 120, 1, 1, 10, 0, 245, 255, 4, 8, 1, 16, 1, 15, 8, 2, 16, 1, 1,
   138, 0, 73, 120, 1, 1, 11, 0, 244, 255, 42, 9, 33, 237, 1, 1, 0, 0, 1, 0, 0, 10, 212, 1, 69,
   120, 1, 1, 10, 0, 245, 255, 4, 8, 1, 16, 2, 4, 8, 2, 16, 3, 1, 91, 0, 65, 120, 1, 1, 9, 0, 246,
   255, 2, 8, 1, 5, 8, 1, 18, 1, 97, 1, 69, 0, 142, 107, 8, 1, 16, 196, 255, 255, 255, 255, 255,
   255, 255, 255, 1, 26, 42, 111, 114, 103, 46, 97, 112, 97, 99, 104, 101, 46, 104, 97, 100, 111,
   111, 112, 46, 105, 111, 46, 99, 111, 109, 112, 114, 101, 115, 115, 46, 68, 101, 102, 97, 117,
   108, 116, 67, 111, 100, 101, 99, 34, 11, 10, 5, 73, 78, 79, 68, 69, 16, 43, 24, 8, 34, 15, 10,
   9, 73, 78, 79, 68, 69, 95, 68, 73, 82, 16, 21, 24, 51, 34, 18, 10, 12, 83, 84, 82, 73, 78, 71,
   95, 84, 65, 66, 76, 69, 16, 20, 24, 72, 0, 0, 0, 108]

def packedSummary : Summary where
  ondiskVersion := 1
  layoutVersion := -60
  codec := Codec.zlib.name
  sections := [⟨"INODE", 8, 43⟩, ⟨"INODE_DIR", 51, 21⟩, ⟨"STRING_TABLE", 72, 20⟩]

theorem read_packedImage : Summary.read packedImage = .ok packedSummary := by decide +kernel

namespace Session

theorem visit_alike_of_expands_packedImage :
    (({} : Session).visit {} smallImage).Alike (({} : Session).visit {} packedImage) := by
  have hd := Codec.lawful .zlib
  refine visit_alike_of_expands hd read_smallImage read_packedImage rfl (Codec.choose_name .zlib)
    rfl (.cons ⟨rfl, fun _ => ?_⟩ (.cons ⟨rfl, fun _ => ?_⟩ (.cons ⟨rfl, fun _ => ?_⟩ .nil))) {}
  all_goals
    refine (Decompressor.content_eq_iff hd).mp ?_
    decide +kernel

end Session

/-! ## Complete members -/

namespace Decompressor

variable {d : Decompressor} {members : List Bytes} {bytes source more : Bytes}

/-- A member that ends with its last byte. -/
def Complete (d : Decompressor) (bytes : Bytes) : Prop := ∃ output, d.Member bytes output

/-- Nothing but complete members, one after the other. -/
def Whole (d : Decompressor) (source : Bytes) : Prop :=
  ∃ members : List Bytes, (∀ bytes ∈ members, d.Complete bytes) ∧ members.flatten = source

theorem whole_iff_expands : d.Whole source ↔ ∃ payload, d.Expands source payload := by
  constructor
  · rintro ⟨members, hall, rfl⟩
    induction members with
    | nil => exact ⟨[], .nil⟩
    | cons bytes members ih =>
      obtain ⟨⟨output, hm⟩, hall⟩ := List.forall_mem_cons.mp hall
      obtain ⟨payload, hx⟩ := ih hall
      exact ⟨output ++ payload, .member hm hx⟩
  · rintro ⟨payload, hx⟩
    induction hx with
    | nil => exact ⟨[], by simp, rfl⟩
    | @member bytes output rest others hm _ ih =>
      obtain ⟨members, hall, rfl⟩ := ih
      exact ⟨bytes :: members, List.forall_mem_cons.mpr ⟨⟨output, hm⟩, hall⟩, rfl⟩

/-- A section is nothing but complete members exactly if its stream has an end. -/
theorem Lawful.whole_iff (hd : d.Lawful) : d.Whole source ↔ (content d source).fault = none := by
  rw [whole_iff_expands]
  constructor
  · rintro ⟨payload, hx⟩
    rw [(content_eq_iff hd).mpr hx]
  · intro hf
    rcases hc : content d source with ⟨payload, fault⟩
    rw [hc] at hf
    obtain rfl : fault = none := hf
    exact ⟨payload, (content_eq_iff hd).mp hc⟩

theorem Complete.ne_nil (h : d.Complete bytes) : bytes ≠ [] := by
  obtain ⟨output, hm⟩ := h
  exact hm.ne_nil

theorem Complete.unique (hd : d.Lawful) {bytes' : Bytes} (h : d.Complete bytes)
    (h' : d.Complete bytes') (hp : bytes <+: source) (hp' : bytes' <+: source) :
    bytes = bytes' := by
  obtain ⟨output, hm⟩ := h
  obtain ⟨output', hm'⟩ := h'
  exact (hd.member_unique hm hm' hp hp').1

/-- Members that some members start with are the first of them. -/
theorem Whole.exists_take (hd : d.Lawful) (hall : ∀ bytes ∈ members, d.Complete bytes)
    (h : d.Whole source) (hp : source <+: members.flatten) :
    ∃ k, source = (members.take k).flatten := by
  obtain ⟨firsts, hfirsts, rfl⟩ := h
  induction firsts generalizing members with
  | nil => exact ⟨0, rfl⟩
  | cons first firsts ih =>
    obtain ⟨hf, hfs⟩ := List.forall_mem_cons.mp hfirsts
    rw [List.flatten_cons] at hp ⊢
    cases members with
    | nil => exact absurd (List.append_eq_nil_iff.mp (List.prefix_nil.mp hp)).1 hf.ne_nil
    | cons bytes members =>
      obtain ⟨hb, hbs⟩ := List.forall_mem_cons.mp hall
      rw [List.flatten_cons] at hp
      obtain rfl : first = bytes :=
        hf.unique hd hb ((List.prefix_append _ _).trans hp) (List.prefix_append _ _)
      obtain ⟨k, hk⟩ := ih hbs hfs ((List.prefix_append_right_inj _).mp hp)
      exact ⟨k + 1, by rw [hk]; rfl⟩

/-- What stands behind members among members is members. -/
theorem Whole.of_append (hd : d.Lawful) (h : d.Whole source) (hm : d.Whole (source ++ more)) :
    d.Whole more := by
  obtain ⟨members, hall, hflat⟩ := hm
  obtain ⟨k, hk⟩ := h.exists_take hd hall (hflat ▸ List.prefix_append _ _)
  refine ⟨members.drop k, fun bytes hb => hall bytes (List.mem_of_mem_drop hb), ?_⟩
  have hsplit : source ++ (members.drop k).flatten = source ++ more := by
    rw [hk, ← List.flatten_append, List.take_append_drop, ← hk]
    exact hflat
  exact List.append_cancel_left hsplit

end Decompressor

/-! ## Strict conversion of compressed images -/

/-- Sections that are read to their ends have streams without a fault. -/
theorem Copied.fault_eq_none {streamOf : SectionEntry → ByteStream} {entries : List SectionEntry}
    {strings after : Option StringTable} {written : List Markup}
    (h : Copied streamOf entries strings written after) :
    ∀ entry ∈ entries, entry.kind.isSome → (streamOf entry).fault = none := by
  induction h with
  | nil => simp
  | skipped hk _ ih =>
    refine List.forall_mem_cons.mpr ⟨fun h => ?_, ih⟩
    rw [hk] at h
    cases h
  | @read entry rest kind strings between after written others count hk hr _ ih =>
    refine List.forall_mem_cons.mpr ⟨fun _ => ?_, ih⟩
    exact ((SectionKind.composed strings kind).regular.ok hr).1.symm

/-- One of the known sections of the image, which has a codec of that decompressor, is stored as
these bytes. -/
def Settings.Holds (settings : Settings) (d : Decompressor) (image bytes : Bytes) : Prop :=
  ∃ summary entry, Summary.read image = .ok summary ∧
    settings.codecs.choose summary.codec = .ok (.compressed d) ∧ entry ∈ summary.sections ∧
    entry.kind.isSome ∧ entry.stored image = bytes

namespace Session

variable {settings : Settings} {d : Decompressor} {image bytes : Bytes} {session : Session}

/-- A known section of an image that is strictly converted is nothing but complete members. -/
theorem whole_of_visit (hs : settings.strict = true) (hd : d.Lawful)
    (h : settings.Holds d image bytes) (hok : (session.visit settings image).failure = none) :
    d.Whole bytes := by
  obtain ⟨summary, entry, hr, hc, he, hk, rfl⟩ := h
  rw [session.visit_of_read settings hr hc] at hok
  have hmain := (Visit.done_of_andThen hok).1.failure
  obtain ⟨written, after, hcopied⟩ := copied_of_visitEntries hs _ (Visit.done_of_andThen hmain).2
  exact hd.whole_iff.mpr (hcopied.fault_eq_none entry (SectionEntry.mem_visitOrder.mpr he) hk)

/-- Where a strict conversion succeeds, the known sections are complete members one after the other.
So it does not succeed for an image in which a section has been cut but between its members, or has
bytes behind it that are not members themselves. -/
theorem visit_members (hs : settings.strict = true) (hd : d.Lawful)
    (h : settings.Holds d image bytes) (hok : (session.visit settings image).failure = none) :
    d.Whole bytes ∧ ∀ members : List Bytes, (∀ member ∈ members, d.Complete member) →
      members.flatten = bytes →
      (∀ n cut, n < bytes.length → (∀ k, n ≠ (members.take k).flatten.length) →
        settings.Holds d cut (bytes.take n) →
        ∀ session : Session, (session.visit settings cut).failure ≠ none) ∧
      ∀ extra padded, ¬d.Whole extra → settings.Holds d padded (bytes ++ extra) →
        ∀ session : Session, (session.visit settings padded).failure ≠ none := by
  have hwhole := whole_of_visit hs hd h hok
  refine ⟨hwhole, fun members hall hflat => ⟨?_, ?_⟩⟩
  · intro n cut hn hbetween hcut session hz
    have hw := whole_of_visit hs hd hcut hz
    obtain ⟨k, hk⟩ := hw.exists_take hd hall (hflat ▸ List.take_prefix n bytes)
    have hl : n = (members.take k).flatten.length := by
      rw [← hk, List.length_take]
      omega
    exact hbetween k hl
  · intro extra padded hextra hpadded session hz
    exact hextra (hwhole.of_append hd (whole_of_visit hs hd hpadded hz))

end Session

/-- The members of its section of inodes. -/
def packedInodes : List Bytes :=
  [[120, 1, 1, 10, 0, 245, 255, 4, 8, 1, 16, 1, 15, 8, 2, 16, 1, 1, 138, 0, 73],
   [120, 1, 1, 11, 0, 244, 255, 42, 9, 33, 237, 1, 1, 0, 0, 1, 0, 0, 10, 212, 1, 69]]

theorem complete_packedInodes :
    ∀ member ∈ packedInodes, Codec.zlib.decompressor.Complete member := by
  have hfirst : Codec.zlib.decompressor.Member
      [120, 1, 1, 10, 0, 245, 255, 4, 8, 1, 16, 1, 15, 8, 2, 16, 1, 1, 138, 0, 73]
      [4, 8, 1, 16, 1, 15, 8, 2, 16, 1] := by decide +kernel
  have hsecond : Codec.zlib.decompressor.Member
      [120, 1, 1, 11, 0, 244, 255, 42, 9, 33, 237, 1, 1, 0, 0, 1, 0, 0, 10, 212, 1, 69]
      [42, 9, 33, 237, 1, 1, 0, 0, 1, 0, 0] := by decide +kernel
  exact List.forall_mem_cons.mpr ⟨⟨_, hfirst⟩, List.forall_mem_cons.mpr ⟨⟨_, hsecond⟩, by simp⟩⟩

/-- The image with another length of the section of inodes. -/
theorem holds_packedImage {n : UInt8} (length : Int) (stored : Bytes)
    (hr : Summary.read (packedImage.set 160 n) = .ok { packedSummary with
      sections := [⟨"INODE", 8, length⟩, ⟨"INODE_DIR", 51, 21⟩, ⟨"STRING_TABLE", 72, 20⟩] })
    (hs : SectionEntry.stored ⟨"INODE", 8, length⟩ (packedImage.set 160 n) = stored) :
    ({} : Settings).Holds Codec.zlib.decompressor (packedImage.set 160 n) stored :=
  ⟨_, _, hr, Codec.choose_name .zlib, List.mem_cons_self,
    congrArg Option.isSome (SectionKind.ofName?_name .inode), hs⟩

namespace Session

/-- The section of inodes can neither be cut by a byte nor go on for one. -/
theorem visit_members_packedImage :
    Codec.zlib.decompressor.Whole packedInodes.flatten ∧
      (({} : Session).visit {} (packedImage.set 160 42)).failure ≠ none ∧
      (({} : Session).visit {} (packedImage.set 160 44)).failure ≠ none := by
  have hd := Codec.lawful .zlib
  have hall : ({} : Settings).Holds Codec.zlib.decompressor packedImage packedInodes.flatten :=
    holds_packedImage (n := 43) 43 _ (by decide +kernel) (by decide +kernel)
  have hok : (({} : Session).visit {} packedImage).failure = none := by decide +kernel
  have hcut : ({} : Settings).Holds Codec.zlib.decompressor (packedImage.set 160 42)
      (packedInodes.flatten.take 42) :=
    holds_packedImage 42 _ (by decide +kernel) (by decide +kernel)
  have hpadded : ({} : Settings).Holds Codec.zlib.decompressor (packedImage.set 160 44)
      (packedInodes.flatten ++ [120]) :=
    holds_packedImage 44 _ (by decide +kernel) (by decide +kernel)
  have hextra : ¬Codec.zlib.decompressor.Whole [120] := by
    rw [hd.whole_iff]
    decide +kernel
  have hbetween : ∀ k, 42 ≠ (packedInodes.take k).flatten.length := by
    intro k
    match k with
    | 0 => decide
    | 1 => decide
    | k + 2 =>
      have hk : packedInodes.length ≤ k + 2 := Nat.le_add_left 2 k
      rw [List.take_of_length_le hk]
      decide
  obtain ⟨hwhole, hmembers⟩ := visit_members rfl hd hall hok
  obtain ⟨hcuts, hpads⟩ := hmembers packedInodes complete_packedInodes rfl
  exact ⟨hwhole, hcuts 42 _ (by decide) hbetween hcut {}, hpads [120] _ hextra hpadded {}⟩

end Session

end Checkpoint
