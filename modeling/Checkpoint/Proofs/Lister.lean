import Checkpoint.Proofs.Acceptance

/-! # Reading the string table

The string table is read by a transcriber that lists its entries; the table is what is made of the
list. It knows what the records of the section make known. -/
namespace Checkpoint

open Transcriber

variable {bytes : Bytes}

namespace StringTable

/-- Reads a table as `load` does, but lists its entries. -/
def lister : Transcriber (Nat × String) Nat := do
  let header ← Transcriber.ofReader (ByteStream.readHeader schema)
  discard <| entries (header.int 1).toNat
  return (header.int 1).toNat

/-- What is made of a list of entries. -/
def counted (listed : List (Nat × String)) (bound : Nat) : Nat × StringTable :=
  ((ofList bound listed).size, ofList bound listed)

theorem run_scribe (s : ByteStream) : StringTable.scribe.run s =
    ⟨[], (lister.run s).outcome.map (counted (lister.run s).written), (lister.run s).stream⟩ := by
  have hn := @run_ofReader (Nat × String) Record s (ByteStream.readHeader schema)
  change Transcript.mk [] ((load s).1.map fun table => (table.size, table)) (load s).2 = _
  rw [lister]
  simp only [load]
  cases hr : ByteStream.readHeader schema s with
  | error problem t => rw [hr] at hn; rw [run_bind_error hn]; rfl
  | ok header t =>
    rw [hr] at hn
    rw [run_bind_ok hn]
    dsimp only
    rcases he : (entries (header.int 1).toNat).run t with ⟨written, outcome, u⟩
    cases outcome with
    | error problem => rw [run_bind_error (run_discard_error he)]; rfl
    | ok _ => rw [run_bind_ok (run_discard_ok he)]; simp [Except.map, Transcript.after, counted]

/-- What a record has to be, to be listed as an entry. -/
def Fits (bound : Nat) (entry : Record) : Prop := 0 ≤ entry.int 1 ∧ entry.int 1 ≤ bound

theorem entry_of_fits {bound : Nat} {r : Record} (h : Fits bound r) :
    entry bound r = .ok ((r.int 1).toNat, r.text 2) := if_pos h

theorem entry_of_not_fits {bound : Nat} {r : Record} (h : ¬Fits bound r) :
    entry bound r = .error (.malformed (.entryIdOutside (r.int 1) bound)) := if_neg h

theorem entry_silent (bound : Nat) (r : Record) : (do
    Transcriber.write [← entry bound r] : Transcriber (Nat × String) Unit).Silent
      (Fits bound r) := by
  by_cases h : Fits bound r
  · rw [entry_of_fits h]
    exact (Silent.write _).congr (by simp [h])
  · rw [entry_of_not_fits h]
    exact (Silent.fail _).congr (by simp [h])

theorem output_entry {bound : Nat} {r : Record} (h : Fits bound r) : (do
    Transcriber.write [← entry bound r] : Transcriber (Nat × String) Unit).output =
      [((r.int 1).toNat, r.text 2)] := by
  rw [entry_of_fits h]
  rfl

theorem entries_delimited (bound : Nat) : (entries bound).Delimited :=
  .counted fun r => (entry_silent bound r).delimited

theorem takes_entries {bound n : Nat} {listed : List (Nat × String)} :
    (entries bound).Takes bytes listed n ↔ n = bound ∧ ∃ rows, rows.length = bound ∧
      (∀ r ∈ rows, Fits bound r) ∧ Spelled (Framed entrySchema) rows bytes ∧
        listed = rows.map fun r => ((r.int 1).toNat, r.text 2) := by
  rw [entries, (Rounds.silent (entry_silent bound)).takes_counted]
  simp only [spelled_and, Int.toNat_natCast]
  refine and_congr_right fun _ => ?_
  have hm : ∀ rows : List Record, (∀ r ∈ rows, Fits bound r) →
      (rows.flatMap fun r => (do
        Transcriber.write [← entry bound r] : Transcriber (Nat × String) Unit).output) =
          rows.map fun r => ((r.int 1).toNat, r.text 2) := by
    intro rows hf
    rw [List.flatMap_congr fun r hr => output_entry (hf r hr), List.map_eq_flatMap]
  constructor
  · rintro ⟨rows, hl, ⟨hs, hf⟩, rfl⟩
    exact ⟨rows, hl, hf, hs, hm rows hf⟩
  · rintro ⟨rows, hl, hf, hs, rfl⟩
    exact ⟨rows, hl, ⟨hs, hf⟩, (hm rows hf).symm⟩

theorem lister_delimited : lister.Delimited :=
  .bind (.readHeader schema) fun _ => .bind (.discard (entries_delimited _)) fun _ => .pure _

/-- What is listed of a section, and the bound it declares. -/
theorem takes_lister {listed : List (Nat × String)} {bound : Nat} :
    lister.Takes bytes listed bound ↔ ∃ header rows,
      (SectionContent.stringTable header rows).Spells bytes ∧ bound = (header.int 1).toNat ∧
        listed = rows.map fun r => ((r.int 1).toNat, r.text 2) := by
  rw [lister, takes_bind (.readHeader schema) fun _ =>
    .bind (.discard (entries_delimited _)) fun _ => .pure _]
  constructor
  · rintro ⟨first, before, header, second, after, rfl, rfl, hf, hs⟩
    obtain ⟨rfl, hframe⟩ := takes_readHeader.mp hf
    obtain ⟨middle, during, u, rest, last, rfl, rfl, he, hp⟩ :=
      (takes_bind (.discard (entries_delimited _)) fun _ => .pure _).mp hs
    obtain ⟨rfl, rfl, rfl⟩ := takes_pure.mp hp
    obtain ⟨n, he⟩ := (takes_discard (entries_delimited _)).mp he
    obtain ⟨-, rows, hl, hr, hrows, rfl⟩ := takes_entries.mp he
    exact ⟨header, rows, ⟨first, middle, by simp, hframe, hl, hr, hrows⟩, rfl, by simp⟩
  · rintro ⟨header, rows, ⟨first, rest, rfl, hf, hl, hr, hs⟩, rfl, rfl⟩
    refine ⟨first, [], header, rest, _, rfl, rfl, takes_readHeader.mpr ⟨rfl, hf⟩, ?_⟩
    have he := takes_entries.mpr ⟨rfl, rows, hl, hr, hs, rfl⟩
    exact (takes_bind (.discard (entries_delimited _)) fun _ => .pure _).mpr ⟨rest, _, (), [], [],
      by simp, by simp, (takes_discard (entries_delimited _)).mpr ⟨_, he⟩,
      takes_pure.mpr ⟨rfl, rfl, rfl⟩⟩

theorem takes_of_lister {listed : List (Nat × String)} {bound : Nat}
    (h : lister.Takes bytes listed bound) :
    StringTable.scribe.Takes bytes [] (counted listed bound) := by
  intro rest
  rw [run_scribe, h rest]
  rfl

theorem lister_of_run {s : ByteStream} {written : List Markup} {r : Nat × StringTable}
    {t : ByteStream} (h : StringTable.scribe.run s = ⟨written, .ok r, t⟩) :
    ∃ listed bound, lister.run s = ⟨listed, .ok bound, t⟩ ∧ written = [] ∧
      r = counted listed bound := by
  rw [run_scribe] at h
  rcases hl : lister.run s with ⟨listed, outcome, u⟩
  rw [hl] at h
  cases outcome with
  | error problem => cases h
  | ok bound => cases h; exact ⟨listed, bound, rfl, rfl, rfl⟩

theorem scribe_delimited : StringTable.scribe.Delimited where
  takes h := by
    obtain ⟨listed, bound, hl, rfl, rfl⟩ := lister_of_run h
    obtain ⟨taken, rest, rfl, rfl, ht⟩ := lister_delimited.takes hl
    exact ⟨taken, rest, rfl, rfl, takes_of_lister ht⟩
  short {taken written r part} h hp hne := by
    obtain ⟨listed, bound, hl, rfl, rfl⟩ := lister_of_run h.run
    obtain ⟨before, problem, s, hs, -, hm⟩ :=
      lister_delimited.short (lister_delimited.takes_iff_run.mpr hl) hp hne
    refine ⟨[], problem, s, ?_, List.nil_prefix, hm⟩
    rw [run_scribe, hs]
    rfl

theorem describes_counted (header : Record) (rows : List Record) :
    (NameTable.ofRecords header rows).Describes
      (counted (rows.map fun r => ((r.int 1).toNat, r.text 2)) (header.int 1).toNat).2 := by
  have h := NameTable.describes_ofList (header.int 1).toNat
    (rows.map fun r => ((r.int 1).toNat, r.text 2))
  rw [List.map_map] at h
  exact h

/-- The section is spelled as the grammar says, and the table knows what it makes known. -/
theorem takes_scribe {written : List Markup} {size : Nat} {table : StringTable}
    (h : StringTable.scribe.Takes bytes written (size, table)) : written = [] ∧
      ∃ header rows, (SectionContent.stringTable header rows).Spells bytes ∧
        (NameTable.ofRecords header rows).Describes table := by
  obtain ⟨listed, bound, hl, rfl, hc⟩ := lister_of_run h.run
  obtain ⟨header, rows, hs, rfl, rfl⟩ :=
    takes_lister.mp (lister_delimited.takes_iff_run.mpr hl)
  obtain ⟨-, rfl⟩ := Prod.mk.inj hc
  exact ⟨rfl, header, rows, hs, describes_counted header rows⟩

theorem exists_takes_scribe {header : Record} {rows : List Record}
    (h : (SectionContent.stringTable header rows).Spells bytes) :
    ∃ size table, StringTable.scribe.Takes bytes [] (size, table) ∧
      (NameTable.ofRecords header rows).Describes table := by
  exact ⟨_, _, takes_of_lister (takes_lister.mpr ⟨header, rows, h, rfl, rfl⟩),
    describes_counted header rows⟩

end StringTable

end Checkpoint
