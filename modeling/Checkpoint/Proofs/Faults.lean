import Checkpoint.Proofs.Composition
import Checkpoint.Proofs.Sections

/-! # Faults of streams

A stream can have a fault after its bytes in place of an end. A section that is read without meeting
the fault is read as if there were none, the fault stays in front, and what has been read is spelled
as the grammar says. -/
namespace Checkpoint

namespace ByteStream

variable {α β : Type}

/-- Where the reader succeeds, it leaves the fault in front and would do the same without it. -/
def IgnoresFault (reader : Reader α) : Prop :=
  ∀ (s t : ByteStream) (a : α), reader s = .ok a t →
    t.fault = s.fault ∧ reader ⟨s.unread, none⟩ = .ok a ⟨t.unread, none⟩

theorem exists_of_bind {reader : Reader α} {next : α → Reader β} {s u : ByteStream} {b : β}
    (h : (reader >>= next) s = .ok b u) : ∃ a t, reader s = .ok a t ∧ next a t = .ok b u := by
  cases hr : reader s with
  | error problem t => rw [bind_error hr] at h; cases h
  | ok a t => rw [bind_ok hr] at h; exact ⟨a, t, rfl, h⟩

namespace IgnoresFault

theorem pure (a : α) : IgnoresFault (pure a : Reader α) := by
  intro s t b h
  cases h
  exact ⟨rfl, rfl⟩

theorem throw (problem : RecordProblem) : IgnoresFault (throw problem : Reader α) := by
  intro s t a h
  cases h

theorem throw_bind (problem : RecordProblem) (next : α → Reader β) :
    IgnoresFault (MonadExcept.throw problem >>= next) := by
  intro s t a h
  cases h

theorem bind {reader : Reader α} {next : α → Reader β} (hr : IgnoresFault reader)
    (hn : ∀ a, IgnoresFault (next a)) : IgnoresFault (reader >>= next) := by
  intro s u b h
  obtain ⟨a, t, hf, hs⟩ := exists_of_bind h
  obtain ⟨hft, hf⟩ := hr s t a hf
  obtain ⟨hfu, hs⟩ := hn a t u b hs
  refine ⟨hfu.trans hft, ?_⟩
  rw [bind_ok hf]
  exact hs

theorem next : IgnoresFault next := by
  intro s t a h
  obtain ⟨unread, fault⟩ := s
  cases unread with
  | cons b rest => cases h; exact ⟨rfl, rfl⟩
  | nil =>
    cases fault with
    | none => cases h; exact ⟨rfl, rfl⟩
    | some problem => cases h

theorem read (n : Nat) : IgnoresFault (read n) := by
  intro s t a h
  obtain ⟨unread, fault⟩ := s
  cases fault with
  | none => cases h; exact ⟨rfl, rfl⟩
  | some problem =>
    simp only [ByteStream.read] at h
    split at h
    · cases h; exact ⟨rfl, rfl⟩
    · cases h

theorem moreLength (record : String) (limit : Nat) : IgnoresFault (moreLength record limit) := by
  induction limit with
  | zero => exact .throw _
  | succ limit ih =>
    refine .bind .next fun found => ?_
    cases found with
    | none => exact .throw _
    | some b =>
      dsimp only
      split
      · exact .pure _
      · exact .bind ih fun _ => .pure _

theorem readLength (record : String) : IgnoresFault (readLength record) := by
  refine .bind .next fun found => ?_
  cases found with
  | none => exact .pure none
  | some b =>
    dsimp only
    split
    · exact .pure _
    · exact .bind (.moreLength _ _) fun _ => .pure _

theorem readRecord? (schema : Schema) : IgnoresFault (readRecord? schema) := by
  refine .bind (.readLength _) fun found => ?_
  cases found with
  | none => exact .pure none
  | some size =>
    dsimp only
    split
    · exact .throw_bind _ _
    · refine .bind (.read size) fun body => ?_
      split
      · exact .throw_bind _ _
      · cases schema.parse body with
        | ok record => exact .pure _
        | error problem => exact .throw _

end IgnoresFault

section Record

variable {schema : Schema} {record : Record} {s t : ByteStream}

/-- What is read as a record is a frame, whatever is met behind the bytes of the stream. -/
theorem exists_frame_of_readRecord? (h : readRecord? schema s = .ok (some record) t) :
    ∃ frame, s = ⟨frame ++ t.unread, t.fault⟩ ∧ Framed schema record frame := by
  obtain ⟨hfault, h⟩ := IgnoresFault.readRecord? schema s t _ h
  obtain ⟨frame, rest, hs, ht, hf⟩ := framed_of_readRecord? h
  obtain rfl : t.unread = rest := congrArg unread ht
  obtain ⟨unread, fault⟩ := s
  exact ⟨frame, by rw [hfault, ← hs], hf⟩

/-- The end is found only where there are neither bytes nor a fault. -/
theorem eq_end_of_readRecord? (h : readRecord? schema s = .ok none t) :
    s = ⟨[], none⟩ ∧ t = ⟨[], none⟩ := by
  obtain ⟨hfault, hn⟩ := IgnoresFault.readRecord? schema s t _ h
  obtain ⟨unread, fault⟩ := s
  obtain rfl : unread = [] := (eq_nil_of_readRecord? hn).1
  cases fault with
  | none => exact ⟨rfl, by cases h; rfl⟩
  | some problem => cases h

end Record

end ByteStream

namespace Transcriber

/-- Where `t` succeeds, it leaves the fault of the stream in front and would do the same without it;
where it fails, it is because of the records or for want of a string table. -/
structure Regular (strings : Option StringTable) {τ α : Type} (t : Transcriber τ α) : Prop where
  ok : ∀ {s u written a}, t.run s = ⟨written, .ok a, u⟩ →
    u.fault = s.fault ∧ t.run ⟨s.unread, none⟩ = ⟨written, .ok a, ⟨u.unread, none⟩⟩
  error : ∀ {s u written problem}, t.run s = ⟨written, .error problem, u⟩ → problem.MetWith strings

namespace Regular

variable {strings : Option StringTable} {τ α β : Type}

theorem pure (a : α) : Regular strings (pure a : Transcriber τ α) where
  ok h := by rw [run_pure] at h; cases h; exact ⟨rfl, rfl⟩
  error h := by rw [run_pure] at h; cases h

theorem write (items : List τ) : Regular strings (write items) where
  ok h := by rw [run_write] at h; cases h; exact ⟨rfl, rfl⟩
  error h := by rw [run_write] at h; cases h

theorem fail {problem : Problem} (hp : problem.MetWith strings) :
    Regular strings (fail problem : Transcriber τ α) where
  ok h := by rw [run_fail] at h; cases h
  error h := by rw [run_fail] at h; cases h; exact hp

theorem ofReader {reader : Reader α} (hr : ByteStream.IgnoresFault reader) :
    Regular strings (ofReader reader : Transcriber τ α) where
  ok {s u written a} h := by
    rw [run_ofReader] at h
    cases hs : reader s with
    | error problem t => rw [hs] at h; cases h
    | ok b t =>
      rw [hs] at h
      cases h
      obtain ⟨hf, hn⟩ := hr s u a hs
      refine ⟨hf, ?_⟩
      rw [run_ofReader, hn]
  error {s u written problem} h := by
    rw [run_ofReader] at h
    cases hs : reader s with
    | error cause t => rw [hs] at h; cases h; exact trivial
    | ok b t => rw [hs] at h; cases h

theorem bind {first : Transcriber τ α} {next : α → Transcriber τ β} (hf : Regular strings first)
    (hn : ∀ a, Regular strings (next a)) : Regular strings (first >>= next) where
  ok {s u written b} h := by
    obtain ⟨before, a, mid, after, hr, hs, rfl⟩ := run_bind_eq_ok h
    obtain ⟨hfm, hr⟩ := hf.ok hr
    obtain ⟨hfu, hs⟩ := (hn a).ok hs
    refine ⟨hfu.trans hfm, ?_⟩
    rw [run_bind_ok hr, hs]
    rfl
  error {s u written problem} h := by
    rcases hr : first.run s with ⟨before, outcome, mid⟩
    cases outcome with
    | error cause =>
      rw [run_bind_error hr] at h
      cases h
      exact hf.error hr
    | ok a =>
      rcases hs : (next a).run mid with ⟨after, outcome, last⟩
      rw [run_bind_ok hr, hs] at h
      cases h
      exact (hn a).error hs

theorem sized {step : Nat → Transcriber τ α} (hs : ∀ n, Regular strings (step n)) :
    Regular strings fun s => step s.unread.length s where
  ok h := (hs _).ok h
  error h := (hs _).error h

theorem gather {σ : Type} {step : Transcriber σ α} (result : List σ → α → β)
    (hs : Regular strings step) : Regular strings (gather result step : Transcriber τ β) where
  ok {s u written b} h := by
    rcases hr : step.run s with ⟨listed, outcome, t⟩
    rw [Transcriber.run, Transcriber.gather, hr] at h
    cases outcome with
    | error problem => cases h
    | ok a =>
      cases h
      obtain ⟨hf, hn⟩ := hs.ok hr
      refine ⟨hf, ?_⟩
      rw [Transcriber.run, Transcriber.gather, hn]
      rfl
  error {s u written problem} h := by
    rcases hr : step.run s with ⟨listed, outcome, t⟩
    rw [Transcriber.run, Transcriber.gather, hr] at h
    cases outcome with
    | error cause => cases h; exact hs.error hr
    | ok a => cases h

end Regular

theorem Composed.regular {strings : Option StringTable} {τ α : Type} {t : Transcriber τ α}
    (h : Composed strings t) : Regular strings t := by
  induction h with
  | pure a => exact .pure a
  | write items => exact .write items
  | fail hp => exact .fail hp
  | record schema => exact .ofReader (.readRecord? schema)
  | bind _ _ hf hn => exact .bind hf hn
  | sized _ hs => exact .sized hs
  | gather result _ hs => exact .gather result hs

end Transcriber

namespace SectionKind

variable {names : Option NameTable} {strings after : Option StringTable} {kind : SectionKind}
  {s u : ByteStream} {written : List Markup} {count : Nat}

/-- What is read of a section, whatever follows it, is spelled as the grammar says. -/
theorem spelled_of_run (hd : NameTable.DescribesAny names strings)
    (h : (kind.scribe strings).run s = ⟨written, .ok (count, after), u⟩) :
    ∃ taken known, s.unread = taken ++ u.unread ∧ kind.Admits names known taken ∧
      NameTable.DescribesAny known after := by
  obtain ⟨-, h⟩ := (composed strings kind).regular.ok h
  cases hk : kind.isOpen with
  | false =>
    obtain ⟨taken, rest, hs, hu, ht⟩ := (scribe_delimited hd hk).takes h
    obtain ⟨known, ha, hn⟩ := admits_of_readsTo hd ⟨written, count, ht.run⟩
    obtain rfl : u.unread = rest := by simpa using hu
    exact ⟨taken, known, hs, ha, hn⟩
  | true =>
    obtain ⟨tag, newline, schema, body, hr, hscribe⟩ := scribe_open hk
    have hend : u.unread = [] := by
      rw [hscribe] at h
      obtain ⟨he, -⟩ := run_of_keep h
      rcases hl : (Transcriber.untilEnd schema body).run ⟨s.unread, none⟩ with ⟨inside, outcome, t⟩
      cases outcome with
      | error problem => rw [Transcriber.run_element_error hl] at he; cases he
      | ok n =>
        obtain ⟨-, -, -, -, rfl⟩ := hr.spelled_of_untilEnd hl
        rw [Transcriber.run_element_ok hl] at he
        simpa using congrArg (fun run => run.stream.unread) he.symm
    rw [hend] at h ⊢
    obtain ⟨known, ha, hn⟩ := admits_of_readsTo hd ⟨written, count, h⟩
    exact ⟨s.unread, known, by simp, ha, hn⟩

end SectionKind

end Checkpoint
