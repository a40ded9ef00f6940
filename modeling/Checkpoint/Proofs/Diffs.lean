import Checkpoint.Proofs.Sections

/-! # The stream of diffs

What the section of diffs is written as, element by element from the fields of its records, and that
its scribe writes this and nothing else. The entries, the diffs of an entry and the created list of
a diff stand in one flat stream; two counts say where the inner lists end, and the stream ends the
outer one. -/
namespace Checkpoint

namespace Group

/-- What is written for the diffs of an inode, with the elements of the diffs inside. -/
def entryElement (tag : String) (entry : Record) (diffs : List Markup) : List Markup :=
  Markup.element tag false
    (Markup.number "inodeId" (entry.int 2) ++ Markup.number "count" (entry.int 3) ++ diffs)

def fileDiffElement (diff : Record) : List Markup :=
  Markup.element "fileDiff" true
    (Markup.number "snapshotId" (diff.int 1) ++ Markup.number "size" (diff.int 2) ++
      Markup.field "name" (Utf8.decodeLossy (diff.bytes 3)))

def createdElement (created : Record) : List Markup :=
  Markup.element "created" true (Markup.field "name" (Utf8.decodeLossy (created.bytes 1)))

/-- A diff of a directory, with its own deleted children and its own created list. -/
def directoryDiffElement (diff : Record × List Record) : List Markup :=
  Markup.element "dirDiff" true
    (Markup.number "snapshotId" (diff.1.int 1) ++ Markup.number "childrenSize" (diff.1.int 2) ++
      Markup.flag "isSnapshotRoot" (diff.1.flag 3) ++
      Markup.field "name" (Utf8.decodeLossy (diff.1.bytes 4)) ++
      Markup.number "createdListSize" (diff.1.int 6) ++
      (diff.1.ints 7).flatMap (Markup.number "deletedInode") ++
      (diff.1.ints 8).flatMap (Markup.number "deletedInoderef") ++
      diff.2.flatMap createdElement)

/-- The element of a group of diffs; groups of other sections have none here. -/
def diffElement : Group → List Markup
  | fileDiffs entry diffs => entryElement "fileDiffEntry" entry (diffs.flatMap fileDiffElement)
  | directoryDiffs entry diffs =>
    entryElement "dirDiffEntry" entry (diffs.flatMap directoryDiffElement)
  | reference _ | links _ | openFile _ => []

theorem markup_eq_diffElement {group : Group} (hk : group.kind = .snapshotDiff) :
    group.markup = group.diffElement := by
  cases group with
  | fileDiffs entry diffs | directoryDiffs entry diffs => rfl
  | reference record | links record | openFile record => cases hk

end Group

theorem spelled_single {γ : Type} {spells : γ → Bytes → Prop} {x : γ} {bytes : Bytes}
    (h : spells x bytes) : Spelled spells [x] bytes :=
  ⟨[bytes], .cons h .nil, List.append_nil bytes⟩

namespace DiffEntry

open Transcriber

theorem flatMap_markup {groups : List Group} (hk : ∀ group ∈ groups, group.kind = .snapshotDiff) :
    groups.flatMap Group.markup = groups.flatMap Group.diffElement :=
  List.flatMap_congr fun group hg => Group.markup_eq_diffElement (hk group hg)

section Stream

variable {groups : List Group} {bytes : Bytes}

/-- A stream of groups is written as one element for each of them, in order. -/
theorem run_scribeAll (hk : ∀ group ∈ groups, group.kind = .snapshotDiff)
    (hs : Spelled Group.Spells groups bytes) : scribeAll.run ⟨bytes, none⟩ =
      ⟨Markup.element "SnapshotDiffSection" true (groups.flatMap Group.diffElement),
        .ok groups.length, ⟨[], none⟩⟩ := by
  rw [← flatMap_markup hk]
  exact run_element_ok (rounds.run_untilEnd (Group.spelled_spellsIn.mpr ⟨hk, hs⟩))

/-- Behind the groups, an entry of an unknown type ends the writing, whatever follows it. -/
theorem run_scribeAll_of_unknown (hk : ∀ group ∈ groups, group.kind = .snapshotDiff)
    (hs : Spelled Group.Spells groups bytes) {entry : Record} {frame : Bytes}
    (hframe : Framed schema entry frame) (hf : (ofRecord entry).kind ≠ 1)
    (hd : (ofRecord entry).kind ≠ 2) (rest : Bytes) :
    scribeAll.run ⟨bytes ++ (frame ++ rest), none⟩ =
      ⟨.opening "SnapshotDiffSection" :: groups.flatMap Group.diffElement,
        .error (.unknownDiffType (ofRecord entry).kind), ⟨rest, none⟩⟩ := by
  obtain ⟨limit, hl, hloop⟩ :=
    rounds.run_untilEnd_append (Group.spelled_spellsIn.mpr ⟨hk, hs⟩) (frame ++ rest)
  obtain ⟨limit, rfl⟩ := Nat.exists_eq_add_of_lt hl
  have hread := @run_ofReader Markup _ ⟨frame ++ rest, none⟩ (ByteStream.readRecord? schema)
  rw [ByteStream.readRecord?_of_framed hframe] at hread
  have hfail : (ofRecord entry).scribe.run ⟨rest, none⟩ =
      ⟨[], .error (.unknownDiffType (ofRecord entry).kind), ⟨rest, none⟩⟩ := by
    rw [scribe_of_unknown hf hd, run_fail]
  rw [untilEndInto_succ, run_bind_ok hread, run_bind_error hfail, flatMap_markup hk] at hloop
  exact run_element_error (by simpa [Transcript.after] using hloop)

/-- The section of diffs is written as it is nested. Groups that stand one after the other in the
stream, each with as many diffs as its entry declares and each diff of a directory with as many
created entries, are read to the end, counted, and written as one element each. If an entry of
another type stands behind them, it is reported, and nothing has been written after the last group.
-/
theorem diffs_rendered (hk : ∀ group ∈ groups, group.kind = .snapshotDiff)
    (hs : Spelled Group.Spells groups bytes) :
    scribeAll.run ⟨bytes, none⟩ =
      ⟨Markup.element "SnapshotDiffSection" true (groups.flatMap Group.diffElement),
        .ok groups.length, ⟨[], none⟩⟩ ∧
    ∀ entry frame, Framed schema entry frame → (ofRecord entry).kind ≠ 1 →
      (ofRecord entry).kind ≠ 2 → ∀ rest, scribeAll.run ⟨bytes ++ (frame ++ rest), none⟩ =
        ⟨.opening "SnapshotDiffSection" :: groups.flatMap Group.diffElement,
          .error (.unknownDiffType (ofRecord entry).kind), ⟨rest, none⟩⟩ :=
  ⟨run_scribeAll hk hs, fun _ _ hframe hf hd rest =>
    run_scribeAll_of_unknown hk hs hframe hf hd rest⟩

end Stream

/-- The diff of a file. -/
def oneFile : Group :=
  .fileDiffs [(1, [.int 1]), (2, [.int 5]), (3, [.int 1])]
    [[(1, [.int 3]), (2, [.int 10]), (3, [.bytes [102]])]]

/-- The diff of a directory that lost two children and got one. -/
def oneDirectory : Group :=
  .directoryDiffs [(1, [.int 2]), (2, [.int 6]), (3, [.int 1])]
    [([(1, [.int 3]), (2, [.int 1]), (3, [.flag true]), (4, [.bytes [100]]), (6, [.int 1]),
      (7, [.int 7]), (8, [.int 9])], [[(1, [.bytes [99]])]])]

def oneFileBytes : Bytes := [6, 8, 1, 16, 5, 24, 1] ++ [7, 8, 3, 16, 10, 26, 1, 102]

def oneDirectoryBytes : Bytes := [6, 8, 2, 16, 6, 24, 1] ++
  ([17, 8, 3, 16, 1, 24, 1, 34, 1, 100, 48, 1, 58, 1, 7, 66, 1, 9] ++ [3, 10, 1, 99])

theorem oneFile_spells : oneFile.Spells oneFileBytes :=
  ⟨_, _, rfl, ⟨[6], [8, 1, 16, 5, 24, 1], rfl, by decide, by decide, by cbv⟩, rfl, rfl,
    spelled_single ⟨[7], [8, 3, 16, 10, 26, 1, 102], rfl, by decide, by decide, by cbv⟩⟩

theorem oneDirectory_spells : oneDirectory.Spells oneDirectoryBytes := by
  refine ⟨_, _, rfl, ⟨[6], [8, 2, 16, 6, 24, 1], rfl, by decide, by decide, by cbv⟩, rfl, rfl,
    spelled_single ?_⟩
  exact ⟨_, _, rfl, ⟨[17], [8, 3, 16, 1, 24, 1, 34, 1, 100, 48, 1, 58, 1, 7, 66, 1, 9], rfl,
    by decide, by decide, by cbv⟩, rfl,
    spelled_single ⟨[3], [10, 1, 99], rfl, by decide, by decide, by cbv⟩⟩

/-- The two groups are written, and the entry of type 3 behind them is reported. -/
theorem diffs_rendered_two :
    scribeAll.run ⟨oneFileBytes ++ oneDirectoryBytes, none⟩ =
      ⟨Markup.element "SnapshotDiffSection" true
        ([oneFile, oneDirectory].flatMap Group.diffElement), .ok 2, ⟨[], none⟩⟩ ∧
    scribeAll.run ⟨oneFileBytes ++ oneDirectoryBytes ++ ([2, 8, 3] ++ [1]), none⟩ =
      ⟨.opening "SnapshotDiffSection" :: [oneFile, oneDirectory].flatMap Group.diffElement,
        .error (.unknownDiffType 3), ⟨[1], none⟩⟩ := by
  have hk : ∀ group ∈ [oneFile, oneDirectory], group.kind = .snapshotDiff := by
    simp [oneFile, oneDirectory, Group.kind]
  have hframe : Framed schema [(1, [.int 3])] [2, 8, 3] :=
    ⟨[2], [8, 3], rfl, by decide, by decide, by cbv⟩
  obtain ⟨hwhole, hunknown⟩ := diffs_rendered hk
    (spelled_cons.mpr ⟨_, _, rfl, oneFile_spells, spelled_single oneDirectory_spells⟩)
  exact ⟨hwhole, hunknown _ _ hframe (by decide) (by decide) [1]⟩

end DiffEntry

end Checkpoint
