import Mathlib.Data.List.Nodup
import Checkpoint.Image.SectionTable

/-! # The arrangement of sections

Sections are visited by kind, and within a kind in the order of the table. There is just one such
arrangement of a table. It is what a stable sort by kind gives, and how the kinds are mixed in the
table makes no difference to it. -/
namespace Checkpoint.SectionEntry

/-- What sections are arranged by: the known kinds in their order, and unknown names after them. -/
def keys : List (Option SectionKind) := SectionKind.all.map some ++ [none]

/-- How many keys come before that of an entry. -/
def rank (entry : SectionEntry) : Nat := keys.idxOf entry.kind

/-- The entries of each kind, and those of unknown names, are the same in the same order. -/
def SameWithinKinds (table other : List SectionEntry) : Prop :=
  ∀ kind : Option SectionKind, table.filter (·.kind == kind) = other.filter (·.kind == kind)

/-- All entries of a table by their kinds, where those of one kind, and those of unknown names, keep
the order that they have in the table. -/
structure Arranges (table arranged : List SectionEntry) : Prop where
  perm : arranged.Perm table
  byRank : arranged.Pairwise fun first second => first.rank ≤ second.rank
  steady : SameWithinKinds arranged table

variable {table other arranged : List SectionEntry} {entry first second : SectionEntry}

/-! ## Ranks -/

theorem mem_keys (kind : Option SectionKind) : kind ∈ keys := by
  cases kind with
  | none => exact List.mem_append_right _ (List.mem_singleton.mpr rfl)
  | some kind => exact List.mem_append_left _ (List.mem_map.mpr ⟨kind, kind.mem_all, rfl⟩)

theorem nodup_keys : keys.Nodup := by decide

theorem kind_eq_of_rank_eq (h : first.rank = second.rank) : first.kind = second.kind :=
  (List.idxOf_inj (mem_keys first.kind)).mp h

theorem rank_of_mem_filter {kind : Option SectionKind}
    (h : entry ∈ table.filter (·.kind == kind)) : entry.rank = keys.idxOf kind :=
  congrArg keys.idxOf (beq_iff_eq.mp (List.mem_filter.mp h).2)

/-- The known kinds come in their order, and before all unknown names. -/
example : keys.map keys.idxOf = List.range 11 := by decide

/-! ## One arrangement -/

theorem SameWithinKinds.perm (h : SameWithinKinds table other) : table.Perm other := by
  rw [List.perm_iff_count]
  intro entry
  have hcount : ∀ entries : List SectionEntry,
      (entries.filter (·.kind == entry.kind)).count entry = entries.count entry :=
    fun entries => List.count_filter (beq_self_eq_true entry.kind)
  rw [← hcount table, h entry.kind, hcount other]

/-- What comes first by its kind is told by the kinds alone, and what comes first within its kind is
the same on both sides. -/
theorem eq_of_sameWithinKinds (h : SameWithinKinds table other)
    (ht : table.Pairwise fun first second => first.rank ≤ second.rank)
    (ho : other.Pairwise fun first second => first.rank ≤ second.rank) : table = other := by
  induction table generalizing other with
  | nil => exact (List.nil_perm.mp h.perm).symm
  | cons first rest ih =>
    cases other with
    | nil => exact List.perm_nil.mp h.perm
    | cons second others =>
      obtain ⟨hfirst, hrest⟩ := List.pairwise_cons.mp ht
      obtain ⟨hsecond, hothers⟩ := List.pairwise_cons.mp ho
      have hle : first.rank ≤ second.rank := by
        rcases List.mem_cons.mp (h.perm.mem_iff.mpr List.mem_cons_self) with he | hm
        · exact Nat.le_of_eq (congrArg rank he.symm)
        · exact hfirst second hm
      have hge : second.rank ≤ first.rank := by
        rcases List.mem_cons.mp (h.perm.mem_iff.mp List.mem_cons_self) with he | hm
        · exact Nat.le_of_eq (congrArg rank he.symm)
        · exact hsecond first hm
      have hkind : first.kind = second.kind := kind_eq_of_rank_eq (Nat.le_antisymm hle hge)
      obtain rfl : first = second := by
        have hk := h first.kind
        rw [List.filter_cons_of_pos (by exact beq_self_eq_true first.kind),
          List.filter_cons_of_pos (by exact beq_iff_eq.mpr hkind.symm)] at hk
        exact (List.cons.inj hk).1
      have htail : SameWithinKinds rest others := by
        intro kind
        have hk := h kind
        rw [List.filter_cons, List.filter_cons] at hk
        split at hk
        · exact (List.cons.inj hk).2
        · exact hk
      rw [ih htail hrest hothers]

theorem Arranges.unique (h : Arranges table arranged) (ho : Arranges table other) :
    arranged = other :=
  eq_of_sameWithinKinds (fun kind => (h.steady kind).trans (ho.steady kind).symm) h.byRank ho.byRank

/-! ## The order of the visit is one -/

/-- The order of the visit takes the entries of one key after those of the other. -/
theorem visitOrder_eq_flatMap (table : List SectionEntry) :
    visitOrder table = keys.flatMap fun kind => table.filter (·.kind == kind) := by
  simp [visitOrder, keys, List.flatMap_map]

/-- How the kinds are mixed in the table makes no difference. -/
theorem visitOrder_congr (h : SameWithinKinds table other) :
    visitOrder table = visitOrder other := by
  simp only [visitOrder_eq_flatMap, h _]

theorem visitOrder_byRank (table : List SectionEntry) :
    (visitOrder table).Pairwise fun first second => first.rank ≤ second.rank := by
  have hkeys : keys.Pairwise fun kind later => keys.idxOf kind ≤ keys.idxOf later := by decide
  rw [visitOrder_eq_flatMap, List.pairwise_flatMap]
  constructor
  · intro kind _
    refine List.pairwise_of_forall_mem_list fun first hf second hs => ?_
    exact Nat.le_of_eq ((rank_of_mem_filter hf).trans (rank_of_mem_filter hs).symm)
  · refine hkeys.imp fun {kind later} hle first hf second hs => ?_
    rw [rank_of_mem_filter hf, rank_of_mem_filter hs]
    exact hle

theorem visitOrder_steady (table : List SectionEntry) :
    SameWithinKinds (visitOrder table) table := by
  intro kind
  obtain ⟨before, after, hk⟩ := List.append_of_mem (mem_keys kind)
  have hn := nodup_keys
  rw [hk, List.nodup_append] at hn
  obtain ⟨-, hafter, hbefore⟩ := hn
  -- nothing is left of the entries of another key
  have hother : ∀ others : List (Option SectionKind), kind ∉ others →
      (others.flatMap fun other => table.filter (·.kind == other)).filter (·.kind == kind) = [] := by
    intro others hm
    refine List.filter_eq_nil_iff.mpr fun entry he hkind => ?_
    obtain ⟨other, ho, he⟩ := List.mem_flatMap.mp he
    have hentry : entry.kind = other := beq_iff_eq.mp (List.mem_filter.mp he).2
    exact hm ((beq_iff_eq.mp hkind).symm.trans hentry ▸ ho)
  rw [visitOrder_eq_flatMap, hk, List.flatMap_append, List.flatMap_cons, List.filter_append,
    List.filter_append, hother before fun hm => hbefore kind hm kind List.mem_cons_self rfl,
    hother after (List.nodup_cons.mp hafter).1, List.filter_filter]
  simp

theorem arranges_visitOrder (table : List SectionEntry) : Arranges table (visitOrder table) where
  perm := (visitOrder_steady table).perm
  byRank := visitOrder_byRank table
  steady := visitOrder_steady table

theorem trans_rank (first second third : SectionEntry)
    (h : decide (first.rank ≤ second.rank) = true) (h' : decide (second.rank ≤ third.rank) = true) :
    decide (first.rank ≤ third.rank) = true :=
  decide_eq_true (Nat.le_trans (of_decide_eq_true h) (of_decide_eq_true h'))

theorem total_rank (first second : SectionEntry) :
    (decide (first.rank ≤ second.rank) || decide (second.rank ≤ first.rank)) = true := by
  rw [Bool.or_eq_true, decide_eq_true_eq, decide_eq_true_eq]
  exact Nat.le_total _ _

/-- A sort by rank that is stable. -/
theorem arranges_mergeSort (table : List SectionEntry) :
    Arranges table (table.mergeSort fun first second => first.rank ≤ second.rank) where
  perm := List.mergeSort_perm _ _
  byRank := by
    have hs := List.pairwise_mergeSort trans_rank total_rank table
    simpa only [decide_eq_true_eq] using hs
  steady kind := by
    -- entries of one key are in order as they stand, so the sort keeps them as they stand
    have hpairwise : (table.filter (·.kind == kind)).Pairwise fun first second =>
        decide (first.rank ≤ second.rank) = true := by
      refine List.pairwise_of_forall_mem_list fun first hf second hs => decide_eq_true ?_
      exact Nat.le_of_eq ((rank_of_mem_filter hf).trans (rank_of_mem_filter hs).symm)
    have hsublist := (List.sublist_mergeSort trans_rank total_rank hpairwise
      List.filter_sublist).filter (·.kind == kind)
    simp only [List.filter_filter, Bool.and_self] at hsublist
    exact (hsublist.eq_of_length ((List.mergeSort_perm table _).filter _).length_eq.symm).symm

/-- The order of the visit is the one arrangement of a table by kinds that keeps the order within
each kind and among the unknown names. It is the stable sort by rank. Arranging what is arranged
changes nothing, and neither does mixing the kinds in the table in another way. -/
theorem arranges_iff (table : List SectionEntry) :
    (∀ arranged, Arranges table arranged ↔ arranged = visitOrder table) ∧
    visitOrder table = table.mergeSort (fun first second => first.rank ≤ second.rank) ∧
    visitOrder (visitOrder table) = visitOrder table ∧
    ∀ other, SameWithinKinds table other → visitOrder other = visitOrder table := by
  refine ⟨fun arranged => ⟨fun h => h.unique (arranges_visitOrder table), ?_⟩,
    (arranges_visitOrder table).unique (arranges_mergeSort table),
    visitOrder_congr (visitOrder_steady table), fun other h => (visitOrder_congr h).symm⟩
  rintro rfl
  exact arranges_visitOrder table

/-- Two tables with the same two inodes sections and the same two unknown names, otherwise mixed. -/
theorem arranges_iff_mixed :
    let table : List SectionEntry :=
      [⟨"LATER", 60, 1⟩, ⟨"INODE", 20, 9⟩, ⟨"NS_INFO", 8, 5⟩, ⟨"INODE", 20, 9⟩, ⟨"INODE", 13, 7⟩,
        ⟨"EXTRA", 50, 1⟩]
    let other : List SectionEntry :=
      [⟨"INODE", 20, 9⟩, ⟨"INODE", 20, 9⟩, ⟨"LATER", 60, 1⟩, ⟨"INODE", 13, 7⟩, ⟨"EXTRA", 50, 1⟩,
        ⟨"NS_INFO", 8, 5⟩]
    SameWithinKinds table other ∧ visitOrder other = visitOrder table ∧
      Arranges table [⟨"NS_INFO", 8, 5⟩, ⟨"INODE", 20, 9⟩, ⟨"INODE", 20, 9⟩, ⟨"INODE", 13, 7⟩,
        ⟨"LATER", 60, 1⟩, ⟨"EXTRA", 50, 1⟩] := by
  intro table other
  have hsame : SameWithinKinds table other := by
    intro kind
    cases kind with
    | none => rfl
    | some kind => cases kind <;> rfl
  obtain ⟨hunique, -, -, hmixed⟩ := arranges_iff table
  exact ⟨hsame, hmixed other hsame, (hunique _).mpr rfl⟩

end Checkpoint.SectionEntry
