import Checkpoint.Proofs.Acceptance

/-! # Groups

What is written for the groups of sections that declare no count, and that such a section is made of
rounds, one for each of its groups. -/
namespace Checkpoint

open Transcriber

namespace Group

/-- What is written for a diff of a directory and its created list. -/
def diffMarkup (diff : Record × List Record) : List Markup :=
  Markup.element "dirDiff" true
    ((DirectoryDiff.ofRecord diff.1).markup ++
      diff.2.flatMap fun r => (CreatedEntry.ofRecord r).markup)

/-- What an entry says itself, before its diffs. -/
def countMarkup (entry : Record) : List Markup :=
  Markup.number "inodeId" (DiffEntry.ofRecord entry).inodeId ++
    Markup.number "count" (DiffEntry.ofRecord entry).numDiffs

/-- What is written for a group. -/
def markup : Group → List Markup
  | reference record => (InodeReference.ofRecord record).markup
  | links record => (DirectoryLinks.ofRecord record).markup
  | openFile record => (OpenFile.ofRecord record).markup
  | fileDiffs entry diffs => Markup.element "fileDiffEntry" false
      (countMarkup entry ++ diffs.flatMap fun r => (FileDiff.ofRecord r).markup)
  | directoryDiffs entry diffs => Markup.element "dirDiffEntry" false
      (countMarkup entry ++ diffs.flatMap diffMarkup)

/-- The spelling of a group that stands in sections of a kind. -/
def SpellsIn (kind : SectionKind) (group : Group) (bytes : Bytes) : Prop :=
  group.kind = kind ∧ group.Spells bytes

theorem reference_rounds : Rounds InodeReference.schema
    (fun r => Transcriber.write (InodeReference.ofRecord r).markup)
    (SpellsIn .inodeReference) markup := by
  refine (Rounds.write _).map reference (fun r => rfl) fun group bytes => ?_
  cases group <;> simp [SpellsIn, kind, Spells]

theorem links_rounds : Rounds DirectoryLinks.schema
    (fun r => Transcriber.write (DirectoryLinks.ofRecord r).markup)
    (SpellsIn .inodeDir) markup := by
  refine (Rounds.write _).map links (fun r => rfl) fun group bytes => ?_
  cases group <;> simp [SpellsIn, kind, Spells]

theorem openFile_rounds : Rounds OpenFile.schema
    (fun r => Transcriber.write (OpenFile.ofRecord r).markup)
    (SpellsIn .filesUnderConstruction) markup := by
  refine (Rounds.write _).map openFile (fun r => rfl) fun group bytes => ?_
  cases group <;> simp [SpellsIn, kind, Spells]

end Group

/-! ## Diffs -/

/-- Something is written, and as many things follow as are declared. -/
theorem takes_write_counted {γ : Type} {schema : Schema} {body : Record → Scribe Unit}
    {spells : γ → Bytes → Prop} {markup : γ → List Markup} (hr : Rounds schema body spells markup)
    {tag : String} {newline : Bool} {items written : List Markup} {declared : Int} {taken : Bytes} :
    (Scribe.element tag newline do
      Transcriber.write items
      discard <| Transcriber.counted schema declared body).Takes taken written () ↔
        ∃ xs, xs.length = declared.toNat ∧ Spelled spells xs taken ∧
          written = Markup.element tag newline (items ++ xs.flatMap markup) := by
  have hc : (Transcriber.counted schema declared body).Delimited := .counted hr.delimited
  rw [takes_element (.bind (.write _) fun _ => .discard hc)]
  constructor
  · rintro ⟨inside, rfl, h⟩
    obtain ⟨first, before, u, second, after, rfl, rfl, hw, hk⟩ :=
      (takes_bind (.write _) fun _ => .discard hc).mp h
    obtain ⟨rfl, rfl⟩ := takes_write.mp hw
    obtain ⟨n, hk⟩ := (takes_discard hc).mp hk
    obtain ⟨-, xs, hl, hs, rfl⟩ := hr.takes_counted.mp hk
    exact ⟨xs, hl, by simpa using hs, rfl⟩
  · rintro ⟨xs, hl, hs, rfl⟩
    have hk := hr.takes_counted.mpr ⟨rfl, xs, hl, hs, rfl⟩
    exact ⟨_, rfl, (takes_bind (.write _) fun _ => .discard hc).mpr ⟨[], items, (), taken, _, rfl,
      rfl, takes_write.mpr ⟨rfl, rfl⟩, (takes_discard hc).mpr ⟨_, hk⟩⟩⟩

theorem DirectoryDiff.scribe_delimited (d : DirectoryDiff) : d.scribe.Delimited :=
  .element (.bind (.write _) fun _ => .discard (.counted fun _ => .write _))

theorem DirectoryDiff.rounds : Rounds DirectoryDiff.schema
    (fun r => (DirectoryDiff.ofRecord r).scribe) Group.SpellsDiff Group.diffMarkup where
  delimited record := scribe_delimited _
  takes {taken written} := by
    constructor
    · rintro ⟨record, first, rest, rfl, hf, ht⟩
      obtain ⟨xs, hl, hs, rfl⟩ := (takes_write_counted (.write _)).mp ht
      exact ⟨(record, xs), ⟨first, rest, rfl, hf, hl, hs⟩, rfl⟩
    · rintro ⟨⟨record, xs⟩, ⟨first, rest, rfl, hf, hl, hs⟩, rfl⟩
      exact ⟨record, first, rest, rfl, hf, (takes_write_counted (.write _)).mpr ⟨xs, hl, hs, rfl⟩⟩

namespace DiffEntry

theorem scribe_delimited (e : DiffEntry) : e.scribe.Delimited := by
  rw [scribe]
  split
  · exact .element (.bind (.write _) fun _ => .discard (.counted fun _ => .write _))
  · exact .element (.bind (.write _) fun _ => .discard
      (.counted fun r => DirectoryDiff.scribe_delimited _))
  · exact .fail _

/-- An entry of a type that is not known is reported, and nothing is written for it. -/
theorem scribe_of_unknown {e : DiffEntry} (hf : e.kind ≠ 1) (hd : e.kind ≠ 2) :
    e.scribe = Transcriber.fail (.unknownDiffType e.kind) := by
  rw [scribe]
  split
  · contradiction
  · contradiction
  · rfl

/-- What follows an entry makes a group with it, of files or of directories. -/
theorem takes_scribe {record : Record} {taken : Bytes} {written : List Markup} :
    (ofRecord record).scribe.Takes taken written () ↔
      ((ofRecord record).kind = 1 ∧ ∃ diffs, diffs.length = (ofRecord record).numDiffs.toNat ∧
          Spelled (Framed FileDiff.schema) diffs taken ∧
            written = (Group.fileDiffs record diffs).markup) ∨
      ((ofRecord record).kind = 2 ∧ ∃ diffs, diffs.length = (ofRecord record).numDiffs.toNat ∧
          Spelled Group.SpellsDiff diffs taken ∧
            written = (Group.directoryDiffs record diffs).markup) := by
  rw [scribe]
  split
  · rename_i hk
    simp only [hk, true_and, show (1 : Int) ≠ 2 by decide, false_and, or_false]
    exact takes_write_counted (.write _)
  · rename_i hk
    simp only [hk, true_and, show (2 : Int) ≠ 1 by decide, false_and, false_or]
    exact takes_write_counted DirectoryDiff.rounds
  · rename_i h1 h2
    constructor
    · exact fun h => absurd h not_takes_fail
    · rintro (⟨hk, -⟩ | ⟨hk, -⟩)
      · exact (h1 hk).elim
      · exact (h2 hk).elim

theorem rounds : Rounds schema (fun r => (ofRecord r).scribe) (Group.SpellsIn .snapshotDiff)
    Group.markup where
  delimited record := scribe_delimited _
  takes {taken written} := by
    constructor
    · rintro ⟨record, first, rest, rfl, hf, ht⟩
      rcases takes_scribe.mp ht with ⟨hk, xs, hl, hs, rfl⟩ | ⟨hk, xs, hl, hs, rfl⟩
      · exact ⟨.fileDiffs record xs, ⟨rfl, first, rest, rfl, hf, hk, hl, hs⟩, rfl⟩
      · exact ⟨.directoryDiffs record xs, ⟨rfl, first, rest, rfl, hf, hk, hl, hs⟩, rfl⟩
    · rintro ⟨group, ⟨hg, hs⟩, rfl⟩
      cases group with
      | fileDiffs record xs =>
        obtain ⟨first, rest, rfl, hf, hk, hl, hs⟩ := hs
        exact ⟨record, first, rest, rfl, hf, takes_scribe.mpr (.inl ⟨hk, xs, hl, hs, rfl⟩)⟩
      | directoryDiffs record xs =>
        obtain ⟨first, rest, rfl, hf, hk, hl, hs⟩ := hs
        exact ⟨record, first, rest, rfl, hf, takes_scribe.mpr (.inr ⟨hk, xs, hl, hs, rfl⟩)⟩
      | reference record | links record | openFile record => cases hg

end DiffEntry

end Checkpoint
