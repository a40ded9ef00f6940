import Checkpoint.Proofs.Delimited
import Checkpoint.Proofs.Grammar

/-! # Silent transcribers

A transcriber that reads nothing writes the same on every stream, and fails on every stream or on
none. Inodes are written by such transcribers: what they need besides the record is in the string
table, and they succeed exactly if it resolves their names. -/
namespace Checkpoint

namespace Transcriber

variable {τ α : Type} {t u : Transcriber τ Unit} {p q : Prop}

/-- `t` leaves the stream as it is, and succeeds exactly if `p` holds. -/
def Silent (t : Transcriber τ Unit) (p : Prop) : Prop :=
  ∃ written outcome, (∀ s, t.run s = ⟨written, outcome, s⟩) ∧ (outcome = .ok () ↔ p)

/-- What a silent transcriber writes. -/
def output (t : Transcriber τ Unit) : List τ := (t.run ⟨[], none⟩).written

namespace Silent

theorem congr (ht : t.Silent p) (h : p ↔ q) : t.Silent q := by
  obtain ⟨written, outcome, hr, hp⟩ := ht
  exact ⟨written, outcome, hr, hp.trans h⟩

theorem takes_iff (ht : t.Silent p) {taken : Bytes} {written : List τ} :
    t.Takes taken written () ↔ taken = [] ∧ written = t.output ∧ p := by
  obtain ⟨w, outcome, hr, hp⟩ := ht
  rw [output, hr]
  constructor
  · intro h
    have h := (hr _).symm.trans h.run
    simp only [Transcript.mk.injEq, ByteStream.mk.injEq] at h
    exact ⟨h.2.2.1, h.1.symm, hp.mp h.2.1⟩
  · rintro ⟨rfl, rfl, h⟩ rest
    rw [hr, hp.mpr h]
    rfl

theorem delimited (ht : t.Silent p) : t.Delimited where
  takes {bytes written a s} h := by
    obtain ⟨w, outcome, hr, hp⟩ := ht
    rw [hr] at h
    cases h
    exact ⟨[], bytes, rfl, rfl, fun rest => hr _⟩
  short h hp hne := by
    obtain ⟨rfl, -, -⟩ := ht.takes_iff.mp h
    exact absurd (List.prefix_nil.mp hp) hne

theorem write (items : List τ) : (write items).Silent True :=
  ⟨items, .ok (), fun _ => rfl, by simp⟩

theorem fail (problem : Problem) : (fail problem : Transcriber τ Unit).Silent False :=
  ⟨[], .error problem, fun _ => rfl, by simp⟩

theorem bind (ht : t.Silent p) (hu : u.Silent q) : (t >>= fun _ => u).Silent (p ∧ q) := by
  obtain ⟨w, outcome, hr, hp⟩ := ht
  obtain ⟨w', outcome', hr', hq⟩ := hu
  cases outcome with
  | error problem =>
    have hn : ¬p := fun h => nomatch hp.mpr h
    exact ⟨w, .error problem, fun s => run_bind_error (hr s), by simp [hn]⟩
  | ok _ =>
    refine ⟨w ++ w', outcome', fun s => ?_, by rw [hq]; exact (and_iff_right (hp.mp rfl)).symm⟩
    rw [run_bind_ok (hr s), hr']
    rfl

theorem element {body : Scribe Unit} (hb : body.Silent p) (tag : String) (newline : Bool) :
    (Scribe.element tag newline body).Silent p := by
  obtain ⟨w, outcome, hr, hp⟩ := hb
  cases outcome with
  | error problem => exact ⟨_, _, fun s => run_element_error (hr s), by simp [← hp]⟩
  | ok _ => exact ⟨_, _, fun s => run_element_ok (hr s), by simp [← hp]⟩

theorem found (tag : String) (text : Except RecordProblem String) :
    (Scribe.found tag text).Silent (∃ s, text = .ok s) := by
  cases text with
  | ok s => exact (write _).congr (by simp)
  | error problem => exact (fail _).congr (by simp)

theorem forEach {body : α → Transcriber τ Unit} {r : α → Prop} {elements : List α}
    (hb : ∀ a ∈ elements, (body a).Silent (r a)) :
    (forEach elements body).Silent (∀ a ∈ elements, r a) := by
  induction elements with
  | nil => exact (write []).congr (by simp)
  | cons a rest ih =>
    rw [forEach_cons]
    refine ((hb a (by simp)).bind (ih fun b hr => hb b (by simp [hr]))).congr ?_
    simp

end Silent

end Transcriber

end Checkpoint
