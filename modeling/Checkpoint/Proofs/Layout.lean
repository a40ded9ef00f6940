import Checkpoint.Proofs.Likeness
import Checkpoint.Proofs.Strict

/-! # Layout

Where the sections of an image stand does not matter to its conversion, nor in which order the
summary lists sections of different names, nor what other sections and bytes there are. -/
namespace Checkpoint

/-- The sections of known kinds by their names and bytes, in the order of the summary. -/
def Summary.known (summary : Summary) (image : Bytes) : List (String × Bytes) :=
  (summary.sections.filter (·.kind.isSome)).map fun entry => (entry.name, entry.stored image)

/-- The stream that is made of the bytes of a section. -/
def CodecChoice.unpack (choice : CodecChoice) (stored : Bytes) : ByteStream :=
  match choice with
  | compressed decompressor => Decompressor.content decompressor stored
  | CodecChoice.stored | unsupported => ⟨stored, none⟩

/-- A section is read from its own bytes, and from nothing else of the image. -/
theorem CodecChoice.stream_eq_unpack (choice : CodecChoice) (image : Bytes) (entry : SectionEntry) :
    choice.stream image entry = choice.unpack (entry.stored image) := rfl

namespace SectionEntry

/-- The known sections of one name are those of one kind. -/
theorem filter_known (kind : SectionKind) (table : List SectionEntry) :
    (table.filter (·.kind.isSome)).filter (·.name == kind.name) =
      table.filter (·.kind == some kind) := by
  rw [List.filter_filter]
  refine List.filter_congr fun entry _ => ?_
  by_cases hk : entry.kind = some kind
  · have hn : entry.name = kind.name := kind_eq_some_iff.mp hk
    rw [hk, hn, beq_self_eq_true, beq_self_eq_true]
    rfl
  · have hn : entry.name ≠ kind.name := fun hn => hk (kind_eq_some_iff.mpr hn)
    rw [beq_false_of_ne hn, beq_false_of_ne hk]
    rfl

end SectionEntry

/-- The streams of a kind of section follow from the names and bytes of the known sections. -/
theorem Summary.streams_eq_known (summary : Summary) (image : Bytes) (codec : CodecChoice)
    (kind : SectionKind) :
    Session.streams (codec.stream image) (summary.sections.filter (·.kind == some kind)) =
      ((summary.known image).filter (·.1 == kind.name)).map
        fun (name, stored) => (name, codec.unpack stored) := by
  unfold Summary.known Session.streams
  rw [List.filter_map, List.map_map, ← SectionEntry.filter_known]
  exact List.map_congr_left fun entry _ =>
    congrArg (Prod.mk entry.name) (codec.stream_eq_unpack image entry)

/-- Two images of one codec and layout version, in which the known sections of each name hold the
same bytes in the same order, are converted alike: they give the same document, records, warnings
and outcome. -/
theorem Session.visit_alike_of_known {settings : Settings} {image image' : Bytes}
    {summary summary' : Summary} (hr : Summary.read image = .ok summary)
    (hr' : Summary.read image' = .ok summary') (hc : summary.codec = summary'.codec)
    (hl : summary.layoutVersion = summary'.layoutVersion)
    (hk : ∀ name : String, (summary.known image).filter (·.1 == name) =
      (summary'.known image').filter (·.1 == name)) (session : Session) :
    (session.visit settings image).Alike (session.visit settings image') := by
  cases hz : settings.codecs.choose summary.codec with
  | error cause =>
    have hz' : settings.codecs.choose summary'.codec = .error cause := hc ▸ hz
    simp only [visit, hr, hr', hz, hz']
    exact .refl _
  | ok codec =>
    have hz' : settings.codecs.choose summary'.codec = .ok codec := hc ▸ hz
    refine visit_alike hr hr' hl hz hz' (fun kind => ?_) session
    rw [Summary.streams_eq_known, Summary.streams_eq_known, hk]

/-- The sections of `smallImage` in another order, with a gap, and with a section of an unknown name
that shares bytes with the others. -/
def movedImage : Bytes :=
  [72, 68, 70, 83, 73, 77, 71, 49, 2, 8, 1, 5, 8, 1, 18, 1, 97, 255, 255, 4, 8, 1, 16, 2, 4, 8, 2,
   16, 3, 4, 8, 1, 16, 1, 15, 8, 2, 16, 1, 42, 9, 33, 237, 1, 1, 0, 0, 1, 0, 0, 76, 8, 1, 16, 196,
   255, 255, 255, 255, 255, 255, 255, 255, 1, 34, 15, 10, 9, 73, 78, 79, 68, 69, 95, 68, 73, 82, 16,
   10, 24, 19, 34, 11, 10, 5, 83, 80, 65, 82, 69, 16, 9, 24, 15, 34, 18, 10, 12, 83, 84, 82, 73, 78,
   71, 95, 84, 65, 66, 76, 69, 16, 9, 24, 8, 34, 11, 10, 5, 73, 78, 79, 68, 69, 16, 21, 24, 29, 0,
   0, 0, 77]

def movedSummary : Summary where
  ondiskVersion := 1
  layoutVersion := -60
  codec := ""
  sections := [⟨"INODE_DIR", 19, 10⟩, ⟨"SPARE", 15, 9⟩, ⟨"STRING_TABLE", 8, 9⟩, ⟨"INODE", 29, 21⟩]

theorem read_movedImage : Summary.read movedImage = .ok movedSummary := by decide +kernel

theorem known_movedImage : movedSummary.known movedImage =
    [("INODE_DIR", [4, 8, 1, 16, 2, 4, 8, 2, 16, 3]),
     ("STRING_TABLE", [2, 8, 1, 5, 8, 1, 18, 1, 97]),
     ("INODE", [4, 8, 1, 16, 1, 15, 8, 2, 16, 1, 42, 9, 33, 237, 1, 1, 0, 0, 1, 0, 0])] := by
  decide

theorem known_smallImage : smallSummary.known smallImage =
    [("INODE", [4, 8, 1, 16, 1, 15, 8, 2, 16, 1, 42, 9, 33, 237, 1, 1, 0, 0, 1, 0, 0]),
     ("INODE_DIR", [4, 8, 1, 16, 2, 4, 8, 2, 16, 3]),
     ("STRING_TABLE", [2, 8, 1, 5, 8, 1, 18, 1, 97])] := by
  decide

/-- Sections of one name keep their order under any order of the names. -/
theorem filter_known_movedImage (name : String) :
    (smallSummary.known smallImage).filter (·.1 == name) =
      (movedSummary.known movedImage).filter (·.1 == name) := by
  rw [known_smallImage, known_movedImage]
  by_cases h₁ : name = "INODE"
  · subst h₁
    decide
  · by_cases h₂ : name = "INODE_DIR"
    · subst h₂
      decide
    · simp [List.filter_cons, Ne.symm h₁, Ne.symm h₂]

theorem Session.visit_alike_of_known_movedImage :
    (({} : Session).visit {} smallImage).Alike (({} : Session).visit {} movedImage) :=
  visit_alike_of_known read_smallImage read_movedImage rfl rfl filter_known_movedImage {}

end Checkpoint
