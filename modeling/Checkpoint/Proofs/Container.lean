import Checkpoint.Proofs.Grammar

/-! # Containers that can be read

What is known of the summary of an image once it has been read: there is only one file version, and
the sections lie inside the image. A section is of a known kind if it has the name of one. -/
namespace Checkpoint

namespace Summary

variable {image : Bytes} {summary : Summary} {entry : SectionEntry}

theorem ok_of_bind {ε α β : Type} {first : Except ε α} {next : α → Except ε β} {b : β}
    (h : (first >>= next) = .ok b) : ∃ a, first = .ok a ∧ next a = .ok b := by
  cases first with
  | error problem => cases h
  | ok a => exact ⟨a, rfl, h⟩

theorem fits_of_check {limit : Int} {checked : Summary} (h : summary.check limit = .ok checked) :
    checked = summary ∧ ∀ entry ∈ summary.sections, SectionFits limit entry := by
  rw [check] at h
  split at h
  · cases h
  · split at h
    · cases h
    · split at h
      · cases h
      · rename_i hf
        cases h
        exact ⟨rfl, by simpa using hf⟩

/-- The sections of an image lie inside it. -/
theorem fits_of_read (h : Summary.read image = .ok summary) :
    ∃ limit : Nat, limit ≤ image.length ∧ ∀ entry ∈ summary.sections, SectionFits limit entry := by
  rw [Summary.read] at h
  obtain ⟨-, -, h⟩ := ok_of_bind h
  dsimp only at h
  split at h
  · cases h
  · split at h
    · cases h
    · obtain ⟨found, -, h⟩ := ok_of_bind h
      obtain ⟨rfl, hf⟩ := fits_of_check h
      exact ⟨_, by omega, hf⟩

theorem ondiskVersion_of_check {limit : Int} {checked : Summary}
    (h : summary.check limit = .ok checked) : summary.ondiskVersion = fileVersion := by
  by_cases hv : summary.ondiskVersion = fileVersion
  · exact hv
  · rw [check, if_pos hv] at h
    cases h

/-- All images that can be read have the same file version. -/
theorem ondiskVersion_of_read (h : Summary.read image = .ok summary) :
    summary.ondiskVersion = fileVersion := by
  rw [Summary.read] at h
  obtain ⟨-, -, h⟩ := ok_of_bind h
  dsimp only at h
  split at h
  · cases h
  · split at h
    · cases h
    · obtain ⟨found, -, h⟩ := ok_of_bind h
      obtain ⟨rfl, -⟩ := fits_of_check h
      exact ondiskVersion_of_check h

theorem length_stored (h : Summary.read image = .ok summary) (he : entry ∈ summary.sections) :
    (entry.stored image).length = entry.length.toNat := by
  obtain ⟨limit, hl, hf⟩ := fits_of_read h
  obtain ⟨ho, hn, hs⟩ := hf entry he
  rw [SectionEntry.stored, Bytes.length_slice]
  omega

end Summary

namespace SectionEntry

theorem kind_eq_some_iff {entry : SectionEntry} {kind : SectionKind} :
    entry.kind = some kind ↔ entry.name = kind.name := by
  constructor
  · intro h
    have hn := List.find?_some h
    exact (beq_iff_eq.mp hn).symm
  · intro h
    rw [SectionEntry.kind, h]
    exact SectionKind.ofName?_name kind

end SectionEntry

end Checkpoint
