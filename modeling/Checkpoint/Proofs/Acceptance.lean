import Checkpoint.Proofs.Names
import Checkpoint.Proofs.Rounds

/-! # Acceptance

What streams a transcriber takes to their end, leaving aside what it writes. The scribes of sections
are chains of a few steps; each step has one lemma here that says what it accepts. -/
namespace Checkpoint.Transcriber

variable {τ α β γ : Type} {t u : Transcriber τ α} {next : α → Transcriber τ β} {taken : Bytes}

/-- `t` takes `taken`, whatever it writes then and gives back. -/
def Accepts (t : Transcriber τ α) (taken : Bytes) : Prop :=
  ∃ written a, t.Takes taken written a

theorem Accepts.exists_run (h : t.Accepts taken) :
    ∃ written a, t.run ⟨taken, none⟩ = ⟨written, .ok a, ⟨[], none⟩⟩ := by
  obtain ⟨written, a, h⟩ := h
  exact ⟨written, a, h.run⟩

theorem Delimited.accepts_of_run (ht : t.Delimited) {written : List τ} {a : α}
    (h : t.run ⟨taken, none⟩ = ⟨written, .ok a, ⟨[], none⟩⟩) : t.Accepts taken :=
  ⟨written, a, ht.takes_iff_run.mpr h⟩

theorem accepts_bind (ht : t.Delimited) (hn : ∀ a, (next a).Delimited) :
    (t >>= next).Accepts taken ↔ ∃ first before a second,
      taken = first ++ second ∧ t.Takes first before a ∧ (next a).Accepts second := by
  constructor
  · rintro ⟨written, b, h⟩
    obtain ⟨first, before, a, second, after, rfl, rfl, hf, hs⟩ := (takes_bind ht hn).mp h
    exact ⟨first, before, a, second, rfl, hf, after, b, hs⟩
  · rintro ⟨first, before, a, second, rfl, hf, after, b, hs⟩
    exact ⟨before ++ after, b, hf.bind hs⟩

theorem accepts_bind_pure (ht : t.Delimited) {f : α → β} :
    (t >>= fun a => pure (f a)).Accepts taken ↔ t.Accepts taken := by
  rw [accepts_bind ht fun a => .pure (f a)]
  constructor
  · rintro ⟨first, before, a, second, rfl, hf, after, b, hs⟩
    obtain ⟨rfl, -, -⟩ := takes_pure.mp hs
    exact ⟨before, a, by simpa using hf⟩
  · rintro ⟨written, a, h⟩
    exact ⟨taken, written, a, [], by simp, h, [], f a, fun rest => rfl⟩

theorem accepts_discard (ht : t.Delimited) :
    (discard t : Transcriber τ Unit).Accepts taken ↔ t.Accepts taken :=
  accepts_bind_pure ht

theorem accepts_write_bind {items : List τ} {t : Transcriber τ β} (ht : t.Delimited) :
    (write items >>= fun _ => t).Accepts taken ↔ t.Accepts taken := by
  rw [accepts_bind (.write items) fun _ => ht]
  constructor
  · rintro ⟨first, before, a, second, rfl, hf, hs⟩
    obtain ⟨rfl, -⟩ := takes_write.mp hf
    exact hs
  · intro h
    exact ⟨[], items, (), taken, rfl, fun rest => rfl, h⟩

/-- Two steps one after the other accept what can be split between them. -/
theorem accepts_seq {t : Transcriber τ Unit} {u : Transcriber τ β} (ht : t.Delimited)
    (hu : u.Delimited) : (t >>= fun _ => u).Accepts taken ↔
      ∃ first second, taken = first ++ second ∧ t.Accepts first ∧ u.Accepts second := by
  rw [accepts_bind ht fun _ => hu]
  constructor
  · rintro ⟨first, before, a, second, he, hf, hs⟩
    exact ⟨first, second, he, ⟨before, a, hf⟩, hs⟩
  · rintro ⟨first, second, he, ⟨before, a, hf⟩, hs⟩
    exact ⟨first, before, a, second, he, hf, hs⟩

theorem accepts_element {tag : String} {newline : Bool} {body : Scribe α} (hb : body.Delimited) :
    (Scribe.element tag newline body).Accepts taken ↔ body.Accepts taken := by
  constructor
  · rintro ⟨written, a, h⟩
    obtain ⟨inside, -, h⟩ := (takes_element hb).mp h
    exact ⟨inside, a, h⟩
  · rintro ⟨inside, a, h⟩
    exact ⟨_, a, (takes_element hb).mpr ⟨inside, rfl, h⟩⟩

/-- A section with a header is accepted if what follows the header is. -/
theorem accepts_header {schema : Schema} {next : Record → Scribe β}
    (hn : ∀ header, (next header).Delimited) :
    (Scribe.header schema >>= next).Accepts taken ↔
      ∃ header, Led schema header (next header).Accepts taken := by
  rw [Scribe.header, accepts_bind (.readHeader schema) hn]
  constructor
  · rintro ⟨first, before, header, second, rfl, hf, hs⟩
    exact ⟨header, first, second, rfl, (takes_readHeader.mp hf).2, hs⟩
  · rintro ⟨header, first, second, rfl, hf, hs⟩
    exact ⟨first, [], header, second, rfl, takes_readHeader.mpr ⟨rfl, hf⟩, hs⟩

section Counted

variable {schema : Schema} {body : Record → Transcriber τ Unit} {spells : γ → Bytes → Prop}
  {markup : γ → List τ}

theorem Rounds.accepts_counted (hr : Rounds schema body spells markup) {declared : Int} :
    (counted schema declared body).Accepts taken ↔
      ∃ xs, xs.length = declared.toNat ∧ Spelled spells xs taken := by
  constructor
  · rintro ⟨written, n, h⟩
    obtain ⟨-, xs, hl, hs, -⟩ := hr.takes_counted.mp h
    exact ⟨xs, hl, hs⟩
  · rintro ⟨xs, hl, hs⟩
    exact ⟨_, _, hr.takes_counted.mpr ⟨rfl, xs, hl, hs, rfl⟩⟩

/-- Rounds that read nothing beyond their record. -/
theorem Rounds.silent {p : Record → Prop} (hb : ∀ record, (body record).Silent (p record)) :
    Rounds schema body (fun record bytes => Framed schema record bytes ∧ p record)
      (fun record => (body record).output) where
  delimited record := (hb record).delimited
  takes {taken written} := by
    constructor
    · rintro ⟨record, first, rest, rfl, hf, ht⟩
      obtain ⟨rfl, hw, hp⟩ := (hb record).takes_iff.mp ht
      exact ⟨record, by simpa using ⟨hf, hp⟩, hw⟩
    · rintro ⟨record, ⟨hf, hp⟩, rfl⟩
      exact ⟨record, taken, [], by simp, hf, (hb record).takes_iff.mpr ⟨rfl, rfl, hp⟩⟩

/-- Rounds that only write something for their record. -/
theorem Rounds.write (markup : Record → List τ) :
    Rounds schema (fun record => write (markup record)) (Framed schema) markup where
  delimited record := .write _
  takes {taken written} := by
    constructor
    · rintro ⟨record, first, rest, rfl, hf, ht⟩
      obtain ⟨rfl, hw⟩ := takes_write.mp ht
      exact ⟨record, by simpa using hf, hw⟩
    · rintro ⟨record, hf, rfl⟩
      exact ⟨record, taken, [], by simp, hf, takes_write.mpr ⟨rfl, rfl⟩⟩

/-- Rounds of the things of one type are rounds of those of another that are spelled alike. -/
theorem Rounds.map {δ : Type} {spells' : δ → Bytes → Prop} {markup' : δ → List τ} (f : γ → δ)
    (hr : Rounds schema body spells markup) (hm : ∀ x, markup' (f x) = markup x)
    (hs : ∀ y bytes, spells' y bytes ↔ ∃ x, y = f x ∧ spells x bytes) :
    Rounds schema body spells' markup' where
  delimited := hr.delimited
  takes {taken written} := by
    rw [hr.takes]
    constructor
    · rintro ⟨x, hx, rfl⟩
      exact ⟨f x, (hs _ _).mpr ⟨x, rfl, hx⟩, (hm x).symm⟩
    · rintro ⟨y, hy, rfl⟩
      obtain ⟨x, rfl, hx⟩ := (hs _ _).mp hy
      exact ⟨x, hx, hm x⟩

end Counted

end Checkpoint.Transcriber
