import Mathlib.Data.List.Nodup
import Checkpoint.Proofs.Layout

/-! # Positions

The table of sections gives each known section a position. As long as no section is listed twice,
the positions count the known sections in the order in which they are visited. -/
namespace Checkpoint

namespace SectionEntry

variable {table : List SectionEntry} {entry : SectionEntry} {row : Row}

/-! ## The order of the visit -/

/-- The known sections of a table. -/
def known (table : List SectionEntry) : List SectionEntry := table.filter (·.kind.isSome)

/-- The known sections in the order in which they are visited. -/
def ordered (table : List SectionEntry) : List SectionEntry := known (visitOrder table)

/-- The sections of some kinds, one kind after the other, are the sections of these kinds. -/
theorem flatMap_filter_perm {kinds : List SectionKind} (hn : kinds.Nodup)
    (table : List SectionEntry) :
    (kinds.flatMap fun kind => table.filter (·.kind == some kind)).Perm
      (table.filter fun entry => entry.kind.any (kinds.contains ·)) := by
  induction kinds with
  | nil => simp
  | cons kind rest ih =>
    obtain ⟨hk, hn⟩ := List.nodup_cons.mp hn
    -- Among the sections of all the kinds, those of the first are told from the others.
    have hsplit := List.filter_append_perm (fun entry : SectionEntry => entry.kind == some kind)
      (table.filter fun entry => entry.kind.any ((kind :: rest).contains ·))
    rw [List.filter_filter, List.filter_filter] at hsplit
    have hfirst : table.filter (fun entry => entry.kind == some kind &&
        entry.kind.any ((kind :: rest).contains ·)) = table.filter (·.kind == some kind) := by
      refine List.filter_congr fun entry _ => ?_
      cases entry.kind <;> simp
      grind
    have hothers : table.filter (fun entry => !(entry.kind == some kind) &&
        entry.kind.any ((kind :: rest).contains ·)) =
          table.filter fun entry => entry.kind.any (rest.contains ·) := by
      refine List.filter_congr fun entry _ => ?_
      cases entry.kind <;> simp
      grind
    rw [hfirst, hothers] at hsplit
    rw [List.flatMap_cons]
    exact ((ih hn).append_left _).trans hsplit

/-- Every known section has its place in the order of the visit. -/
theorem ordered_perm (table : List SectionEntry) : (ordered table).Perm (known table) := by
  have hn : SectionKind.all.Nodup := by decide
  have hall : table.filter (fun entry => entry.kind.any (SectionKind.all.contains ·)) =
      known table := by
    refine List.filter_congr fun entry _ => ?_
    cases entry.kind <;> simp [SectionKind.mem_all]
  rw [ordered, known, filter_visitOrder, ← hall]
  exact flatMap_filter_perm hn table

/-- The unknown sections come after the known ones. -/
theorem visitOrder_eq_ordered (table : List SectionEntry) :
    visitOrder table = ordered table ++ table.filter (·.kind == none) := by
  rw [ordered, known, filter_visitOrder]
  rfl

/-! ## Rows -/

/-- The row of a known section. -/
def knownRow (table : List SectionEntry) (entry : SectionEntry) : Row where
  entry
  position := some ((ordered table).idxOf entry)

/-- An entry is found at its first place, which is before all unknown sections. -/
theorem findIdx?_visitOrder (h : entry ∈ known table) :
    (visitOrder table).findIdx? (· == entry) = some ((ordered table).idxOf entry) := by
  have hm : entry ∈ ordered table := (ordered_perm table).mem_iff.mpr h
  have hi : (ordered table).findIdx? (· == entry) = some ((ordered table).idxOf entry) :=
    List.findIdx?_eq_some_iff_findIdx_eq.mpr ⟨List.idxOf_lt_length_iff.mpr hm, rfl⟩
  rw [visitOrder_eq_ordered, List.findIdx?_append, hi, Option.some_or]

theorem position_eq_none_iff (h : row ∈ rows table) :
    row.position = none ↔ row.entry.kind = none := by
  obtain ⟨entry, hm, rfl⟩ := List.mem_map.mp h
  cases hk : entry.kind with
  | none => simp
  | some kind =>
    have hi := findIdx?_visitOrder (List.mem_filter.mpr ⟨hm, by simp [hk]⟩)
    simp [hi]

/-- The rows that have a position are those of the known sections. -/
theorem filter_rows (table : List SectionEntry) :
    (rows table).filter (·.position.isSome) = (known table).map (knownRow table) := by
  have hk : ∀ entry ∈ table, ((fun row : Row => row.position.isSome) ∘ fun entry =>
      ⟨entry, if entry.kind.isSome then (visitOrder table).findIdx? (· == entry) else none⟩) entry =
        entry.kind.isSome := by
    intro entry hm
    cases hk : entry.kind.isSome with
    | false => simp [hk]
    | true => simp [hk, findIdx?_visitOrder (List.mem_filter.mpr ⟨hm, hk⟩)]
  unfold rows
  rw [List.filter_map, List.filter_congr hk]
  refine List.map_congr_left fun entry he => ?_
  rw [knownRow, if_pos (List.mem_filter.mp he).2, findIdx?_visitOrder he]

theorem filterMap_rows (table : List SectionEntry) : (rows table).filterMap (·.position) =
    (known table).map ((ordered table).idxOf ·) := by
  have hf : (rows table).filterMap (·.position) =
      ((rows table).filter (·.position.isSome)).filterMap (·.position) := by
    rw [List.filterMap_filter]
    refine List.filterMap_congr fun row _ => ?_
    cases row.position <;> rfl
  have hs : (fun row : Row => row.position) ∘ knownRow table =
      some ∘ ((ordered table).idxOf ·) := rfl
  rw [hf, filter_rows, List.filterMap_map, hs, List.filterMap_eq_map]

/-! ## Sections that are listed once -/

theorem map_idxOf_self {xs : List SectionEntry} (h : xs.Nodup) :
    xs.map (xs.idxOf ·) = List.range xs.length := by
  refine List.ext_getElem (by simp) fun i hi _ => ?_
  simp [h.idxOf_getElem i (by simpa using hi)]

/-- The positions are the numbers from zero on, as many as there are known sections. -/
theorem positions_perm (h : (known table).Nodup) :
    ((rows table).filterMap (·.position)).Perm (List.range (known table).length) := by
  have hp := ordered_perm table
  rw [filterMap_rows, ← hp.length_eq, ← map_idxOf_self (hp.nodup_iff.mpr h)]
  exact hp.symm.map _

/-- Sections that are listed twice have one position. -/
theorem nodup_positions_iff :
    ((rows table).filterMap (·.position)).Nodup ↔ (known table).Nodup := by
  constructor
  · intro h
    rw [filterMap_rows] at h
    exact List.Nodup.of_map _ h
  · intro h
    exact (positions_perm h).nodup_iff.mpr List.nodup_range

/-- The entries of the rows that have a position, by their positions. -/
def byPosition (rows : List Row) : List SectionEntry :=
  ((rows.filter (·.position.isSome)).mergeSort fun row other =>
    row.position.getD 0 ≤ other.position.getD 0).map (·.entry)

/-- Rows that stand in the order of their positions stand in the order of the visit. -/
theorem byPosition_rows (h : (known table).Nodup) : byPosition (rows table) = ordered table := by
  have hp := ordered_perm table
  have hrows : ((rows table).filter (·.position.isSome)).Perm
      ((ordered table).map (knownRow table)) := by
    rw [filter_rows]
    exact hp.symm.map _
  have hsorted : ((ordered table).map (knownRow table)).Pairwise fun row other =>
      row.position.getD 0 ≤ other.position.getD 0 := by
    have hle : ((ordered table).map ((ordered table).idxOf ·)).Pairwise (· ≤ ·) := by
      rw [map_idxOf_self (hp.nodup_iff.mpr h)]
      exact List.pairwise_le_range
    rw [List.pairwise_map] at hle ⊢
    exact hle
  have hmerged : (((rows table).filter (·.position.isSome)).mergeSort fun row other =>
      row.position.getD 0 ≤ other.position.getD 0).Pairwise fun row other =>
        decide (row.position.getD 0 ≤ other.position.getD 0) = true :=
    List.pairwise_mergeSort (by simp; omega) (by simp; omega) _
  simp only [decide_eq_true_eq] at hmerged
  -- Both are sorted and hold the same rows, of which no two have the same position.
  have he := List.Perm.eq_of_pairwise (fun row other hr ho hle hge => ?_) hmerged hsorted
    ((List.mergeSort_perm _ _).trans hrows)
  · rw [byPosition, he, List.map_map]
    exact List.map_id _
  · obtain ⟨entry, he, rfl⟩ := List.mem_map.mp (hrows.mem_iff.mp (List.mem_mergeSort.mp hr))
    obtain ⟨entry', -, rfl⟩ := List.mem_map.mp ho
    have hi : (ordered table).idxOf entry = (ordered table).idxOf entry' := Nat.le_antisymm hle hge
    rw [(List.idxOf_inj he).mp hi]

end SectionEntry

/-! ## What a visit handles -/

/-- The section that an event is the start of. -/
def Event.started? : Event → Option SectionEntry
  | started entry => some entry
  | opened _ | skipped _ | forgiven _ | finished _ _ => none

namespace Visit

variable {visit first : Visit} {next : Session → Visit} {entries more : List SectionEntry}

/-- The sections that a visit has started on, one after the other. -/
def handled (visit : Visit) : List SectionEntry := visit.events.filterMap Event.started?

/-- A visit starts on sections in an order, and comes to the end of them unless it fails. -/
structure Handles (visit : Visit) (entries : List SectionEntry) : Prop where
  inOrder : visit.handled <+: entries
  all : visit.failure = none → visit.handled = entries

theorem Handles.of_eq (h : visit.handled = entries) : visit.Handles entries :=
  ⟨h ▸ List.prefix_rfl, fun _ => h⟩

theorem Handles.andThen (hf : first.Handles entries) (hn : ∀ session, (next session).Handles more) :
    (first.andThen next).Handles (entries ++ more) := by
  cases hz : first.failure with
  | some failure =>
    rw [andThen_of_failure hz]
    refine ⟨hf.inOrder.trans (List.prefix_append _ _), fun hz' => ?_⟩
    rw [hz] at hz'
    cases hz'
  | none =>
    have hs := hn first.session
    have he : (first.andThen next).handled = entries ++ (next first.session).handled := by
      rw [andThen_of_none hz, ← hf.all hz]
      simp [handled]
    refine ⟨?_, fun hz' => ?_⟩
    · rw [he]
      exact (List.prefix_append_right_inj _).mpr hs.inOrder
    · rw [andThen_of_none hz] at hz'
      rw [he, hs.all hz']

end Visit

namespace Session

variable {settings : Settings} {streamOf : SectionEntry → ByteStream}

theorem close_handles (entry : SectionEntry) (count : Nat) (rest : ByteStream) (session : Session) :
    (session.close settings entry count rest).Handles [] := by
  unfold close
  split
  · exact .of_eq rfl
  · split <;> exact .of_eq rfl
  · exact .of_eq rfl

theorem visitKnown_handles (entry : SectionEntry) (kind : SectionKind) (session : Session) :
    (session.visitKnown settings streamOf entry kind).Handles [entry] := by
  unfold visitKnown
  rw [← List.append_nil [entry]]
  refine .andThen (.of_eq rfl) fun session => ?_
  split
  · exact .of_eq rfl
  · exact close_handles entry _ _ _

theorem visitEntries_handles (entries : List SectionEntry) (session : Session) :
    (session.visitEntries settings streamOf entries).Handles (SectionEntry.known entries) := by
  induction entries generalizing session with
  | nil => exact .of_eq rfl
  | cons entry rest ih =>
    unfold visitEntries visitEntry
    cases hk : entry.kind with
    | none =>
      have he : SectionEntry.known (entry :: rest) = [] ++ SectionEntry.known rest := by
        simp [SectionEntry.known, hk]
      rw [he]
      exact .andThen (.of_eq rfl) ih
    | some kind =>
      have he : SectionEntry.known (entry :: rest) = [entry] ++ SectionEntry.known rest := by
        simp [SectionEntry.known, hk]
      rw [he]
      exact .andThen (visitKnown_handles entry kind session) ih

/-- The known sections of an image are handled in their order. -/
theorem visit_handles {image : Bytes} {summary : Summary} (hr : Summary.read image = .ok summary)
    (session : Session) : (session.visit settings image).Handles
      (SectionEntry.ordered summary.sections) := by
  cases hc : settings.codecs.choose summary.codec with
  | error cause =>
    simp only [visit, hr, hc]
    exact ⟨List.nil_prefix, fun hf => absurd hf (Option.some_ne_none _)⟩
  | ok codec =>
    rw [session.visit_of_read settings hr hc, ← List.append_nil (SectionEntry.ordered _)]
    refine .andThen ?_ fun session => .of_eq rfl
    rw [← List.nil_append (SectionEntry.ordered _)]
    exact .andThen (.of_eq rfl) (visitEntries_handles _)

end Session

namespace SectionEntry

/-- The table has a row for each section, in its own order, and the rows of unknown sections have no
position. If no known section is listed twice, and only then, the positions are pairwise different;
they are then the numbers from zero on, and a visit handles the sections in their order. -/
theorem rows_by_position (table : List SectionEntry) :
    (rows table).map (·.entry) = table ∧
      (∀ row ∈ rows table, row.position = none ↔ row.entry.kind = none) ∧
      (((rows table).filterMap (·.position)).Nodup ↔ (known table).Nodup) ∧
      ((known table).Nodup →
        ((rows table).filterMap (·.position)).Perm (List.range (known table).length) ∧
        ∀ image summary, Summary.read image = .ok summary → summary.sections = table →
          ∀ session settings, (Session.visit session settings image).Handles
            (byPosition (rows table))) := by
  refine ⟨?_, fun row h => position_eq_none_iff h, nodup_positions_iff, fun h => ?_⟩
  · simp [rows, Function.comp_def]
  · refine ⟨positions_perm h, fun image summary hr hs session settings => ?_⟩
    subst hs
    rw [byPosition_rows h]
    exact session.visit_handles hr

theorem rows_by_position_movedImage : (known movedSummary.sections).Nodup ∧
    ((rows movedSummary.sections).filterMap (·.position)).Perm [0, 1, 2] ∧
    ((convert {} movedImage).Handles (byPosition (rows movedSummary.sections))) := by
  have hn : (known movedSummary.sections).Nodup := by decide +kernel
  have hl : (known movedSummary.sections).length = 3 := by decide +kernel
  obtain ⟨hp, hv⟩ := (rows_by_position movedSummary.sections).2.2.2 hn
  rw [hl] at hp
  exact ⟨hn, hp, hv movedImage movedSummary read_movedImage rfl {} {}⟩

/-- A section that is listed twice has the position of the first in both rows. -/
theorem positions_of_repeated :
    (rows [⟨"INODE", 8, 5⟩, ⟨"INODE", 8, 5⟩]).map (·.position) = [some 0, some 0] := by
  decide +kernel

end SectionEntry

end Checkpoint
