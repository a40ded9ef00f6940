import Checkpoint.Proofs.Strict
import Checkpoint.Proofs.WellFormed

/-! # Readable documents

Whatever texts an image holds, its document shows a plain scanner the tags and texts that were asked
for and no others. -/
namespace Checkpoint

open Markup (Nested Row)

/-- After the declaration a scanner sees the tags and texts that were asked for, in order. A text
between tags is that of a field, escaped, or a line break that was asked for. -/
def Visit.Readable (visit : Visit) : Prop :=
  ∃ content pieces, visit.document = Xml.declaration ++ content ∧
    visit.written = .verbatim Xml.declaration :: pieces ∧
    Xml.scan content = some (pieces.flatMap Markup.tokens) ∧
    ∀ before raw after, pieces.flatMap Markup.tokens = before ++ .text raw :: after →
      Markup.Placed pieces before raw after

theorem Markup.Nested.row_whole {inside : List Markup} (h : Nested inside) :
    Row (.opening "fsimage" :: inside ++ [.closing "fsimage" true]) :=
  (Row.opening isName_fsimage h.row).append (.closing isName_fsimage .nil)

namespace Session

variable {session : Session} {settings : Settings} {image : Bytes}

/-- A visit without a failure has written a declaration, and then a row. -/
theorem row_visit (h : (session.visit settings image).failure = none) :
    ∃ pieces, Row pieces ∧
      (session.visit settings image).written = .verbatim Xml.declaration :: pieces ∧
      (session.visit settings image).document = Xml.declaration ++ Markup.renderAll pieces := by
  have he := session.ending_visit settings image
  rw [h] at he
  rw [Visit.document]
  generalize (session.visit settings image).written = written at he
  cases he with
  | whole hn => exact ⟨_, hn.row_whole, rfl, Markup.renderAll_cons ..⟩

/-- A document shows what was asked for and no text in an image can change that, so that two
conversions write the same document only if they ask for the same tags and texts. -/
theorem visit_readable (h : (session.visit settings image).failure = none) :
    (session.visit settings image).Readable ∧
    ∀ (other : Session) (settings' : Settings) (image' : Bytes),
      (other.visit settings' image').failure = none →
      (other.visit settings' image').document = (session.visit settings image).document →
      Markup.visible (other.visit settings' image').written =
        Markup.visible (session.visit settings image).written := by
  obtain ⟨pieces, hr, hw, hd⟩ := row_visit h
  refine ⟨⟨_, pieces, hd, hw, hr.scan, fun _ _ _ hs => hr.placed hs⟩, ?_⟩
  intro other settings' image' ho he
  obtain ⟨others, hor, how, hod⟩ := row_visit ho
  rw [hod, hd] at he
  have hv := hor.visible_eq hr ((String.append_right_inj _).mp he)
  rw [how, hw]
  exact congrArg (Markup.verbatim Xml.declaration :: ·) hv

/-- A lenient conversion that forgives nothing writes what the strict one writes. -/
theorem visit_readable_smallImage : (convert {} smallImage).failure = none ∧
    (convert {} smallImage).Readable ∧
    Markup.visible (convert { strict := false } smallImage).written =
      Markup.visible (convert {} smallImage).written := by
  have hs : (convert {} smallImage).failure = none := by decide +kernel
  obtain ⟨hr, hv⟩ := visit_readable hs
  exact ⟨hs, hr, hv {} { strict := false } smallImage (by decide +kernel) (by decide +kernel)⟩

end Session

end Checkpoint
