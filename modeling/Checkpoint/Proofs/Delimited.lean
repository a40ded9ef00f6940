import Checkpoint.Proofs.Transcription

/-! # Delimited transcribers

A delimited transcriber knows by itself where to stop: what it has taken from the front of a stream it
takes from every stream that starts so, and it fails on every stream that ends earlier, with no more
written than on the whole. Sections that declare how many records they have are read by such
transcribers; a loop to the end of the stream is not one, but each of its rounds is. -/
namespace Checkpoint

/-- The problems of records that are malformed or missing. -/
def Problem.IsMalformed : Problem → Prop
  | malformed _ | count _ => True
  | format _ | unknownDiffType _ | stringTableNotLoaded => False

/-- What comes before a cut of two parts ends within the first, or is the first and what comes before
a cut of the second. -/
theorem cut_append {τ : Type} {first second part : List τ} (h : part <+: first ++ second) :
    part <+: first ∧ part ≠ first ∨ ∃ more, part = first ++ more ∧ more <+: second := by
  rcases List.prefix_or_prefix_of_prefix h (List.prefix_append first second) with hp | ⟨more, rfl⟩
  · by_cases he : part = first
    · exact .inr ⟨[], by simp [he], List.nil_prefix⟩
    · exact .inl ⟨hp, he⟩
  · exact .inr ⟨more, rfl, (List.prefix_append_right_inj first).mp h⟩

namespace Transcriber

variable {τ α β : Type} {t : Transcriber τ α} {next : α → Transcriber τ β}
  {taken part : Bytes} {written : List τ}

/-- On a stream that starts with `taken`, `t` writes `written`, gives `a` and leaves the rest. -/
def Takes (t : Transcriber τ α) (taken : Bytes) (written : List τ) (a : α) : Prop :=
  ∀ rest, t.run ⟨taken ++ rest, none⟩ = ⟨written, .ok a, ⟨rest, none⟩⟩

/-- On a stream that ends after `part`, `t` fails with no more written than `written`. -/
def FallsShort (t : Transcriber τ α) (part : Bytes) (written : List τ) : Prop :=
  ∃ before problem s, t.run ⟨part, none⟩ = ⟨before, .error problem, s⟩ ∧ before <+: written ∧
    problem.IsMalformed

/-- `t` knows by itself where to stop. -/
structure Delimited (t : Transcriber τ α) : Prop where
  takes : ∀ {bytes written a s}, t.run ⟨bytes, none⟩ = ⟨written, .ok a, s⟩ →
    ∃ taken rest, bytes = taken ++ rest ∧ s = ⟨rest, none⟩ ∧ t.Takes taken written a
  short : ∀ {taken written a part}, t.Takes taken written a → part <+: taken → part ≠ taken →
    t.FallsShort part written

theorem Takes.run {a : α} (h : t.Takes taken written a) :
    t.run ⟨taken, none⟩ = ⟨written, .ok a, ⟨[], none⟩⟩ := by
  simpa using h []

/-- A delimited transcriber takes a stream as a whole if it leaves nothing of it. -/
theorem Delimited.takes_iff_run (ht : t.Delimited) {bytes : Bytes} {a : α} :
    t.Takes bytes written a ↔ t.run ⟨bytes, none⟩ = ⟨written, .ok a, ⟨[], none⟩⟩ := by
  refine ⟨Takes.run, fun h => ?_⟩
  obtain ⟨taken, rest, rfl, hs, hk⟩ := ht.takes h
  obtain rfl : rest = [] := by simpa using hs.symm
  simpa using hk

theorem takes_pure {a b : α} :
    (pure a : Transcriber τ α).Takes taken written b ↔ taken = [] ∧ written = [] ∧ a = b := by
  constructor
  · intro h
    have h := h.run
    simp only [run_pure, Transcript.mk.injEq, Except.ok.injEq, ByteStream.mk.injEq] at h
    exact ⟨h.2.2.1, h.1.symm, h.2.1⟩
  · rintro ⟨rfl, rfl, rfl⟩ rest
    rfl

theorem takes_write {items : List τ} :
    (write items).Takes taken written () ↔ taken = [] ∧ written = items := by
  constructor
  · intro h
    have h := h.run
    simp only [run_write, Transcript.mk.injEq, ByteStream.mk.injEq] at h
    exact ⟨h.2.2.1, h.1.symm⟩
  · rintro ⟨rfl, rfl⟩ rest
    rfl

theorem not_takes_fail {problem : Problem} {a : α} :
    ¬(fail problem : Transcriber τ α).Takes taken written a := by
  intro h
  simpa using h.run

theorem Takes.bind {first second : Bytes} {before after : List τ} {a : α} {b : β}
    (hf : t.Takes first before a) (hn : (next a).Takes second after b) :
    (t >>= next).Takes (first ++ second) (before ++ after) b := by
  intro rest
  have hf := hf (second ++ rest)
  rw [List.append_assoc, run_bind_ok hf, hn rest]
  rfl

theorem Delimited.pure (a : α) : (pure a : Transcriber τ α).Delimited where
  takes {bytes written b s} h := by
    rw [run_pure] at h
    cases h
    exact ⟨[], bytes, rfl, rfl, fun rest => rfl⟩
  short h hp hne := by
    obtain ⟨rfl, -, -⟩ := takes_pure.mp h
    exact absurd (List.prefix_nil.mp hp) hne

theorem Delimited.write (items : List τ) : (write items).Delimited where
  takes {bytes written b s} h := by
    rw [run_write] at h
    cases h
    exact ⟨[], bytes, rfl, rfl, fun rest => rfl⟩
  short h hp hne := by
    obtain ⟨rfl, -⟩ := takes_write.mp h
    exact absurd (List.prefix_nil.mp hp) hne

theorem Delimited.fail (problem : Problem) : (fail problem : Transcriber τ α).Delimited where
  takes h := by simp at h
  short h := absurd h not_takes_fail

/-- What a chain takes is what its steps take, one after the other. -/
theorem takes_bind (ht : t.Delimited) (hn : ∀ a, (next a).Delimited) {b : β} :
    (t >>= next).Takes taken written b ↔ ∃ first before a second after,
      taken = first ++ second ∧ written = before ++ after ∧
        t.Takes first before a ∧ (next a).Takes second after b := by
  constructor
  · intro h
    obtain ⟨before, a, mid, after, hf, hs, rfl⟩ := run_bind_eq_ok h.run
    obtain ⟨first, rest, rfl, rfl, hk⟩ := ht.takes hf
    exact ⟨first, before, a, rest, after, rfl, rfl, hk, (hn a).takes_iff_run.mpr hs⟩
  · rintro ⟨first, before, a, second, after, rfl, rfl, hf, hs⟩
    exact hf.bind hs

theorem Delimited.bind (ht : t.Delimited) (hn : ∀ a, (next a).Delimited) :
    (t >>= next).Delimited where
  takes h := by
    obtain ⟨before, a, mid, after, hf, hs, rfl⟩ := run_bind_eq_ok h
    obtain ⟨first, rest, rfl, rfl, hk⟩ := ht.takes hf
    obtain ⟨second, rest, rfl, rfl, hl⟩ := (hn a).takes hs
    exact ⟨first ++ second, rest, by simp, rfl, hk.bind hl⟩
  short {taken written b part} h hp hne := by
    obtain ⟨first, before, a, second, after, rfl, rfl, hf, hs⟩ := (takes_bind ht hn).mp h
    -- the stream ends within the first step, or before the second has taken all it takes
    rcases cut_append hp with ⟨hq, he⟩ | ⟨more, rfl, hq⟩
    · obtain ⟨w, problem, s, hr, hw, hm⟩ := ht.short hf hq he
      exact ⟨w, problem, s, run_bind_error hr, hw.trans (List.prefix_append ..), hm⟩
    · obtain ⟨w, problem, s, hr, hw, hm⟩ := (hn a).short hs hq fun he => hne (by rw [he])
      refine ⟨before ++ w, problem, s, ?_, (List.prefix_append_right_inj _).mpr hw, hm⟩
      rw [run_bind_ok (hf more), hr]
      rfl

theorem Delimited.discard (ht : t.Delimited) : (discard t : Transcriber τ Unit).Delimited :=
  .bind ht fun _ => .pure ()

theorem takes_discard (ht : t.Delimited) :
    (discard t : Transcriber τ Unit).Takes taken written () ↔ ∃ a, t.Takes taken written a := by
  refine (takes_bind ht fun _ => .pure ()).trans ⟨?_, ?_⟩
  · rintro ⟨first, before, a, second, after, rfl, rfl, hf, hs⟩
    obtain ⟨rfl, rfl, -⟩ := takes_pure.mp hs
    exact ⟨a, by simpa using hf⟩
  · rintro ⟨a, h⟩
    exact ⟨taken, written, a, [], [], by simp, by simp, h, takes_pure.mpr ⟨rfl, rfl, rfl⟩⟩

section Records

variable {schema : Schema} {missing : Problem} {record : Record}

theorem Takes.nextRecord (h : Framed schema record taken) :
    (nextRecord schema missing : Transcriber τ Record).Takes taken [] record := by
  intro rest
  rw [run_nextRecord, ByteStream.readRecord?_of_framed h]

theorem framed_of_run_nextRecord {bytes : Bytes} {s : ByteStream}
    (h : (nextRecord schema missing : Transcriber τ Record).run ⟨bytes, none⟩ =
      ⟨written, .ok record, s⟩) :
    ∃ frame rest, bytes = frame ++ rest ∧ s = ⟨rest, none⟩ ∧ written = [] ∧
      Framed schema record frame := by
  rw [run_nextRecord] at h
  split at h
  · rename_i found u hr
    cases h
    obtain ⟨frame, rest, hb, hs, hf⟩ := ByteStream.framed_of_readRecord? hr
    exact ⟨frame, rest, hb, hs, rfl, hf⟩
  · cases h
  · cases h

theorem takes_nextRecord :
    (nextRecord schema missing : Transcriber τ Record).Takes taken written record ↔
      written = [] ∧ Framed schema record taken := by
  constructor
  · intro h
    obtain ⟨frame, rest, rfl, hs, hw, hf⟩ := framed_of_run_nextRecord h.run
    obtain rfl : rest = [] := by simpa using hs.symm
    exact ⟨hw, by simpa using hf⟩
  · rintro ⟨rfl, hf⟩
    exact .nextRecord hf

theorem Delimited.nextRecord (hm : missing.IsMalformed) :
    (nextRecord schema missing : Transcriber τ Record).Delimited where
  takes h := by
    obtain ⟨frame, rest, hb, hs, rfl, hf⟩ := framed_of_run_nextRecord h
    exact ⟨frame, rest, hb, hs, .nextRecord hf⟩
  short {taken written record part} h hp hne := by
    obtain ⟨rfl, hf⟩ := takes_nextRecord.mp h
    by_cases hnil : part = []
    · subst hnil
      exact ⟨[], missing, ⟨[], none⟩, rfl, List.nil_prefix, hm⟩
    · obtain ⟨problem, s, he⟩ := ByteStream.readRecord?_cut hf hp hnil hne
      refine ⟨[], problem, s, ?_, List.nil_prefix, trivial⟩
      rw [run_nextRecord, he]

theorem Delimited.readHeader (schema : Schema) :
    (ofReader (ByteStream.readHeader schema) : Transcriber τ Record).Delimited := by
  rw [ofReader_readHeader]
  exact .nextRecord trivial

theorem takes_readHeader :
    (ofReader (ByteStream.readHeader schema) : Transcriber τ Record).Takes taken written record ↔
      written = [] ∧ Framed schema record taken := by
  rw [ofReader_readHeader, takes_nextRecord]

theorem Delimited.countedInto {declared : Int} {body : Record → Transcriber τ Unit}
    (hb : ∀ record, (body record).Delimited) (left found : Nat) :
    (countedInto schema declared body left found []).Delimited := by
  induction left generalizing found with
  | zero => exact .pure found
  | succ left ih =>
    rw [countedInto_succ]
    exact .bind (.nextRecord trivial) fun record => .bind (hb record) fun _ => ih (found + 1)

theorem Delimited.counted {declared : Int} {body : Record → Transcriber τ Unit}
    (hb : ∀ record, (body record).Delimited) : (counted schema declared body).Delimited :=
  .countedInto hb declared.toNat 0

end Records

theorem Delimited.element {tag : String} {newline : Bool} {body : Scribe α}
    (hb : body.Delimited) : (Scribe.element tag newline body).Delimited :=
  .bind (.write _) fun _ => .bind hb fun a => .bind (.write _) fun _ => .pure a

theorem takes_element {tag : String} {newline : Bool} {body : Scribe α} (hb : body.Delimited)
    {written : List Markup} {a : α} :
    (Scribe.element tag newline body).Takes taken written a ↔
      ∃ inside, written = Markup.element tag newline inside ∧ body.Takes taken inside a := by
  rw [(Delimited.element hb).takes_iff_run]
  constructor
  · intro h
    rcases hr : body.run ⟨taken, none⟩ with ⟨inside, outcome, s⟩
    cases outcome with
    | error problem => rw [run_element_error hr] at h; cases h
    | ok b =>
      rw [run_element_ok hr] at h
      cases h
      exact ⟨inside, rfl, hb.takes_iff_run.mpr hr⟩
  · rintro ⟨inside, rfl, h⟩
    exact run_element_ok h.run

end Transcriber

end Checkpoint
