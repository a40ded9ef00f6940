import Checkpoint.Proofs.Documents

/-! # Well-formed documents

A visit writes a well-formed document exactly if it ends without a failure, whatever the image holds,
however it is read and whatever earlier images have left. -/
namespace Checkpoint

open Markup (Nested Open)

namespace Visit

/-- Nested pieces have been written, or the elements that a failure left are open. -/
def Balanced (visit : Visit) : Prop :=
  match visit.failure with
  | none => Nested visit.written
  | some _ => Open visit.written

theorem Balanced.nested {visit : Visit} (h : visit.Balanced) (hf : visit.failure = none) :
    Nested visit.written := by
  rwa [Balanced, hf] at h

theorem balanced_of_written_nil {visit : Visit} (h : visit.written = []) : visit.Balanced := by
  rw [Balanced, h]
  split
  · exact .nil
  · exact .nested .nil

theorem Balanced.andThen {first : Visit} {next : Session → Visit} (hf : first.Balanced)
    (hn : ∀ session, (next session).Balanced) : (first.andThen next).Balanced := by
  rw [Visit.andThen]
  split
  · exact hf
  · rename_i hz
    have hf := hf.nested hz
    have hm := hn first.session
    rw [Balanced] at hm ⊢
    dsimp only
    split
    · rename_i he
      rw [he] at hm
      exact .append hf hm
    · rename_i he
      rw [he] at hm
      exact .append hf hm

end Visit

namespace Session

variable {settings : Settings} {streamOf : SectionEntry → ByteStream}

theorem written_close (entry : SectionEntry) (count : Nat) (rest : ByteStream) (session : Session) :
    (session.close settings entry count rest).written = [] := by
  rw [close]
  split
  · rfl
  · split <;> rfl
  · rfl

theorem balanced_visitKnown (entry : SectionEntry) (kind : SectionKind) (session : Session) :
    (session.visitKnown settings streamOf entry kind).Balanced := by
  have hb := SectionKind.emits session.strings kind (streamOf entry)
  rcases hr : (kind.scribe session.strings).run (streamOf entry) with ⟨written, outcome, rest⟩
  rw [hr] at hb
  simp only [visitKnown, hr]
  cases outcome with
  | error problem =>
    -- what has been written is open already, before the failure is recorded
    change Open (written ++ [])
    rw [List.append_nil]
    exact hb
  | ok read =>
    have hw : ({ session, events := [.started entry], written } : Visit).Balanced := hb
    exact hw.andThen fun session => Visit.balanced_of_written_nil (written_close ..)

theorem balanced_visitEntry (entry : SectionEntry) (session : Session) :
    (session.visitEntry settings streamOf entry).Balanced := by
  rw [visitEntry]
  split
  · exact Nested.nil
  · exact balanced_visitKnown ..

/-- The sections of an image, one after the other, close what they open, unless one of them fails. -/
theorem balanced_visitEntries (settings : Settings) (streamOf : SectionEntry → ByteStream)
    (entries : List SectionEntry) (session : Session) :
    (session.visitEntries settings streamOf entries).Balanced := by
  induction entries generalizing session with
  | nil => exact Nested.nil
  | cons entry rest ih => exact (balanced_visitEntry entry session).andThen ih

end Session

theorem Summary.markup_eq (summary : Summary) (revision : String) :
    ∃ version, Nested version ∧ summary.markup revision = Markup.begun version :=
  ⟨_, .element .version (.append (.append (.number .layoutVersion) (.number .onDiskVersion))
    (.field .oivRevision)), rfl⟩

/-- A visit that has written `pieces` before it ended, with `failure` if it has failed. -/
inductive Ending : Option Failure → List Markup → Prop
  | whole {inside} : Nested inside → Ending none (Markup.whole inside)
  | refused {failure} : Ending (some failure) []
  | begun {failure inside} : Open inside → Ending (some failure) (Markup.begun inside)

/-- How a visit can end, and what it has written then. -/
theorem Session.ending_visit (session : Session) (settings : Settings) (image : Bytes) :
    Ending (session.visit settings image).failure (session.visit settings image).written := by
  rw [Session.visit]
  split
  · exact .refused
  split
  · exact .refused
  · rename_i summary _ _ codec _
    obtain ⟨version, hv, hm⟩ := summary.markup_eq settings.revision
    have hb := balanced_visitEntries settings (codec.stream image)
      (SectionEntry.visitOrder summary.sections) session
    rcases hx : session.visitEntries settings (codec.stream image)
      (SectionEntry.visitOrder summary.sections) with ⟨written, events, last, failure⟩
    rw [hx] at hb
    simp only [Visit.andThen, hx, hm]
    cases failure with
    | none =>
      have hw := Ending.whole (hv.append hb)
      simpa [Markup.whole, Markup.begun] using hw
    | some failure =>
      have hw : Ending (some failure) (Markup.begun (version ++ written)) := .begun (.append hv hb)
      simpa [Markup.begun] using hw

theorem Xml.WellFormed.infix {document : String} (h : Xml.WellFormed document) :
    "</fsimage>".toList <:+: document.toList := by
  obtain ⟨-, content, rfl, -⟩ := h
  have ht : "</fsimage>\n".toList = "</fsimage>".toList ++ ['\n'] := by decide
  rw [String.toList_append, ht]
  exact ⟨_, _, List.append_assoc ..⟩

theorem Ending.wellFormed_iff {failure : Option Failure} {written : List Markup}
    (h : Ending failure written) :
    (failure = none ↔ Xml.WellFormed (Markup.renderAll written)) ∧
    (failure = none ∨ Markup.renderAll written = "" ∨
      Xml.Unfinished (Markup.renderAll written)) := by
  cases h with
  | whole h => exact ⟨⟨fun _ => h.wellFormed, fun _ => rfl⟩, .inl rfl⟩
  | refused =>
    refine ⟨⟨nofun, fun hw => ?_⟩, .inr (.inl rfl)⟩
    have hi := hw.infix
    rw [Markup.renderAll_nil, String.toList_empty, List.infix_nil] at hi
    exact absurd hi (by decide)
  | begun h =>
    exact ⟨⟨nofun, fun hw => absurd hw.infix h.unfinished.2.2.1⟩, .inr (.inr h.unfinished)⟩

/-- A document is well-formed exactly if the conversion has succeeded. If it has not, the document is
empty or the start of a well-formed one. -/
theorem Session.visit_wellFormed_iff (session : Session) (settings : Settings) (image : Bytes) :
    ((session.visit settings image).failure = none ↔
      Xml.WellFormed (session.visit settings image).document) ∧
    ((session.visit settings image).failure = none ∨
      (session.visit settings image).document = "" ∨
      Xml.Unfinished (session.visit settings image).document) :=
  (session.ending_visit settings image).wellFormed_iff

end Checkpoint
