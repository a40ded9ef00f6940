import Checkpoint.Proofs.Container
import Checkpoint.Proofs.Rendering
import Checkpoint.Proofs.Strict

/-! # Sections that are cut short

What becomes of a strict conversion when the section table is changed so that one section ends
earlier. A section that declares how many records it has is missed at every cut; a section that goes
on to its end is shortened without notice only between two groups. -/
namespace Checkpoint

/-! ## The order of a changed table -/

namespace SectionEntry

theorem filter_append_cons {p : SectionEntry → Bool} {entry : SectionEntry}
    {before after : List SectionEntry} (h : p entry = false) :
    (before ++ entry :: after).filter p = (before ++ after).filter p := by
  simp [List.filter_append, h]

/-- The entries of some kinds, in the order of the kinds. -/
def ofKinds (kinds : List SectionKind) (table : List SectionEntry) : List SectionEntry :=
  kinds.flatMap fun kind => table.filter (·.kind == some kind)

theorem mem_of_ofKinds {kinds : List SectionKind} {table : List SectionEntry} {entry : SectionEntry}
    (h : entry ∈ ofKinds kinds table) : entry ∈ table := by
  obtain ⟨kind, -, h⟩ := List.mem_flatMap.mp h
  exact (List.mem_filter.mp h).1

theorem ofKinds_append_cons {kinds : List SectionKind} {kind : SectionKind} (hn : kind ∉ kinds)
    {entry : SectionEntry} (hk : entry.kind = some kind) (before after : List SectionEntry) :
    ofKinds kinds (before ++ entry :: after) = ofKinds kinds (before ++ after) := by
  refine List.flatMap_congr fun other hm => filter_append_cons ?_
  have hne : kind ≠ other := fun he => hn (he ▸ hm)
  simp [hk, hne]

/-- An entry keeps its place among the others as long as it keeps its kind. -/
theorem visitOrder_append_cons (kind : SectionKind) (before after : List SectionEntry) :
    ∃ first last, (∀ entry ∈ first ++ last, entry ∈ before ++ after) ∧
      ∀ entry : SectionEntry, entry.kind = some kind →
        visitOrder (before ++ entry :: after) = first ++ entry :: last := by
  obtain ⟨front, back, hall⟩ := List.append_of_mem (SectionKind.mem_all kind)
  have hnodup : (front ++ kind :: back).Nodup := hall ▸ by decide
  rw [List.nodup_append, List.nodup_cons] at hnodup
  obtain ⟨-, ⟨hback, -⟩, hfront⟩ := hnodup
  have hfront : kind ∉ front := fun hm => hfront kind hm kind (by simp) rfl
  refine ⟨ofKinds front (before ++ after) ++ before.filter (·.kind == some kind),
    after.filter (·.kind == some kind) ++ (ofKinds back (before ++ after) ++
      (before ++ after).filter (·.kind == none)), ?_, fun entry hk => ?_⟩
  · intro entry he
    simp only [List.mem_append] at he
    rcases he with (he | he) | he | he | he
    · exact mem_of_ofKinds he
    · exact List.mem_append_left _ (List.mem_filter.mp he).1
    · exact List.mem_append_right _ (List.mem_filter.mp he).1
    · exact mem_of_ofKinds he
    · exact (List.mem_filter.mp he).1
  · have hnone : (before ++ entry :: after).filter (·.kind == none) =
        (before ++ after).filter (·.kind == none) := filter_append_cons (by simp [hk])
    have hkind : (before ++ entry :: after).filter (·.kind == some kind) =
        before.filter (·.kind == some kind) ++ entry :: after.filter (·.kind == some kind) := by
      simp [List.filter_append, hk]
    calc visitOrder (before ++ entry :: after)
        = ofKinds (front ++ kind :: back) (before ++ entry :: after) ++
            (before ++ entry :: after).filter (·.kind == none) := by
          rw [← hall]; rfl
      _ = ofKinds front (before ++ entry :: after) ++
            ((before ++ entry :: after).filter (·.kind == some kind) ++
              (ofKinds back (before ++ entry :: after) ++
                (before ++ entry :: after).filter (·.kind == none))) := by
          simp [ofKinds]
      _ = _ := by
          rw [ofKinds_append_cons hfront hk, ofKinds_append_cons hback hk, hnone, hkind]
          simp

end SectionEntry

/-! ## The conversion -/

/-- There is something known of the string table after sections that have been read. -/
theorem Copied.exists_describes {image : Bytes} {entries : List SectionEntry}
    {strings after : Option StringTable} {written : List Markup}
    (h : CopiedFrom image entries strings written after) {names : Option NameTable}
    (hd : NameTable.DescribesAny names strings) : ∃ known, NameTable.DescribesAny known after := by
  induction h generalizing names with
  | nil => exact ⟨names, hd⟩
  | skipped _ _ ih => exact ih hd
  | read _ hr _ ih =>
    obtain ⟨known, -, hk⟩ := SectionKind.admits_of_readsTo hd ⟨_, _, hr⟩
    exact ih hk

/-- `cut` is `image`, with the length of one section in the section table changed to `n`. -/
structure Shortened (image cut : Bytes) (summary : Summary) (i : Nat) (entry : SectionEntry)
    (n : Nat) : Prop where
  read : Summary.read image = .ok summary
  uncompressed : summary.codec = ""
  listed : summary.sections[i]? = some entry
  shorter : n < entry.length
  changed : Summary.read cut =
    .ok { summary with sections := summary.sections.set i { entry with length := n } }
  same : ∀ other ∈ summary.sections, other.stored cut = other.stored image

/-- The visit has met a record that is malformed or missing, in a section of that name. -/
def Visit.MalformedIn (visit : Visit) (name : String) : Prop :=
  ∃ problem, visit.failure = some ⟨problem, some name⟩ ∧ problem.IsMalformed

/-- What has been written is the document of another visit up to some point before its end. -/
def Visit.StartOf (visit whole : Visit) : Prop :=
  ∃ rest, rest ≠ "" ∧ whole.document = visit.document ++ rest

/-- How a section, and the others before and after it, are visited in an image and in one in which
the section is shortened. -/
structure Course (image cut : Bytes) (summary : Summary) (i : Nat) (entry : SectionEntry) (n : Nat)
    (kind : SectionKind) where
  first : List SectionEntry
  last : List SectionEntry
  order : SectionEntry.visitOrder summary.sections = first ++ entry :: last
  changedOrder : SectionEntry.visitOrder (summary.sections.set i { entry with length := n }) =
    first ++ { entry with length := n } :: last
  /-- What is written before the section, in it and after it. -/
  before : List Markup
  inside : List Markup
  after : List Markup
  /-- The string table before the section, after it and at the end. -/
  strings : Option StringTable
  between : Option StringTable
  final : Option StringTable
  count : Nat
  run : (kind.scribe strings).run ⟨entry.stored image, none⟩ =
    ⟨inside, .ok (count, between), ⟨[], none⟩⟩
  copiedFirst : CopiedFrom image first none before strings
  copiedLast : CopiedFrom image last between after final
  changedFirst : CopiedFrom cut first none before strings
  changedLast : CopiedFrom cut last between after final

namespace Shortened

variable {image cut : Bytes} {summary : Summary} {i n : Nat} {entry : SectionEntry}
  {kind : SectionKind} {revision : String}

theorem mem (h : Shortened image cut summary i entry n) : entry ∈ summary.sections :=
  List.mem_of_getElem? h.listed

theorem stored_cut (h : Shortened image cut summary i entry n) :
    SectionEntry.stored { entry with length := n } cut = (entry.stored image).take n := by
  have hn : n ≤ entry.length.toNat := by have := h.shorter; omega
  rw [← h.same entry h.mem, SectionEntry.stored, SectionEntry.stored, Bytes.slice, Bytes.slice,
    List.take_take]
  simp [hn]

theorem lt_length_stored (h : Shortened image cut summary i entry n) :
    n < (entry.stored image).length := by
  have hl := Summary.length_stored h.read h.mem
  have hs := h.shorter
  omega

theorem take_ne (h : Shortened image cut summary i entry n) :
    (entry.stored image).take n ≠ entry.stored image := by
  intro he
  have hl := congrArg List.length he
  have hn := h.lt_length_stored
  rw [List.length_take] at hl
  omega

/-- What is visited before the section and after it is the same in both images. -/
theorem exists_course (h : Shortened image cut summary i entry n) (hk : entry.kind = some kind)
    (hok : (convert { revision } image).failure = none) :
    Nonempty (Course image cut summary i entry n kind) := by
  obtain ⟨hi, he⟩ := List.getElem?_eq_some_iff.mp h.listed
  have hsplit : summary.sections =
      summary.sections.take i ++ entry :: summary.sections.drop (i + 1) := by
    rw [← he, ← List.drop_eq_getElem_cons hi, List.take_append_drop]
  obtain ⟨first, last, hm, ho⟩ := SectionEntry.visitOrder_append_cons kind
    (summary.sections.take i) (summary.sections.drop (i + 1))
  have hsame : ∀ other ∈ first ++ last,
      CodecChoice.stored.stream cut other = CodecChoice.stored.stream image other := by
    intro other hother
    have hmem : other ∈ summary.sections := by
      rcases List.mem_append.mp (hm other hother) with hm | hm
      · exact List.mem_of_mem_take hm
      · exact List.mem_of_mem_drop hm
    exact congrArg (ByteStream.mk · none) (h.same other hmem)
  have horder : SectionEntry.visitOrder summary.sections = first ++ entry :: last := by
    rw [hsplit]
    exact ho entry hk
  have hchanged : SectionEntry.visitOrder (summary.sections.set i { entry with length := n }) =
      first ++ { entry with length := n } :: last := by
    rw [List.set_eq_take_append_cons_drop, if_pos hi]
    exact ho { entry with length := n } hk
  obtain ⟨all, final, hc⟩ := copied_of_convert h.read h.uncompressed hok
  rw [horder] at hc
  obtain ⟨before, strings, others, rfl, hfirst, hrest⟩ := hc.of_append
  cases hrest with
  | skipped hn _ => rw [hk] at hn; cases hn
  | @read _ _ kind' _ between _ inside after count hk' hr hlast =>
    obtain rfl := Option.some.inj (hk.symm.trans hk')
    exact ⟨{
      first, last, before, inside, after, strings, between, final, count
      order := horder
      changedOrder := hchanged
      run := hr
      copiedFirst := hfirst
      copiedLast := hlast
      changedFirst := hfirst.congr fun other hm => hsame other (List.mem_append_left _ hm)
      changedLast := hlast.congr fun other hm => hsame other (List.mem_append_right _ hm) }⟩

end Shortened

namespace Course

variable {image cut : Bytes} {summary : Summary} {i n : Nat} {entry : SectionEntry}
  {kind : SectionKind}

theorem convert_image (c : Course image cut summary i entry n kind) (revision : String)
    (h : Shortened image cut summary i entry n) (hk : entry.kind = some kind) :
    (convert { revision } image).Done (summary.markup revision ++ (c.before ++ (c.inside ++ c.after))
      ++ [.closing "fsimage" true]) c.final := by
  refine convert_done revision h.read h.uncompressed ?_
  rw [c.order]
  exact c.copiedFirst.append (.read hk c.run c.copiedLast)

/-- Where the section falls short the failure is met, and what is written up to there is the start
of the document. -/
theorem convert_of_fallsShort (c : Course image cut summary i entry n kind) (revision : String)
    (h : Shortened image cut summary i entry n) (hk : entry.kind = some kind)
    (hs : (kind.scribe c.strings).FallsShort ((entry.stored image).take n) c.inside) :
    (convert { revision } cut).MalformedIn entry.name ∧
      (convert { revision } cut).StartOf (convert { revision } image) := by
  obtain ⟨written, problem, s, hr, ⟨more, hw⟩, hm⟩ := hs
  rw [← h.stored_cut] at hr
  have hb := convert_broken revision h.changed h.uncompressed c.changedOrder c.changedFirst hk hr
  refine ⟨⟨problem, hb.failure, hm⟩,
    Markup.renderAll (more ++ c.after ++ [.closing "fsimage" true]),
    Markup.renderAll_append_closing_ne _ _ _, ?_⟩
  rw [Visit.document, Visit.document, (c.convert_image revision h hk).written, hb.written, ← hw,
    ← Markup.renderAll_append]
  simp [Summary.markup]

/-- Where the section can still be read to its end, only what is written in it changes. -/
theorem convert_of_run (c : Course image cut summary i entry n kind) (revision : String)
    (h : Shortened image cut summary i entry n) (hk : entry.kind = some kind)
    {written : List Markup} {count : Nat}
    (hr : (kind.scribe c.strings).run ⟨(entry.stored image).take n, none⟩ =
      ⟨written, .ok (count, c.between), ⟨[], none⟩⟩) :
    (convert { revision } cut).Done (summary.markup revision ++ (c.before ++ (written ++ c.after))
      ++ [.closing "fsimage" true]) c.final := by
  rw [← h.stored_cut] at hr
  have hc : CopiedFrom cut
      (SectionEntry.visitOrder (summary.sections.set i { entry with length := n })) none
      (c.before ++ (written ++ c.after)) c.final := by
    rw [c.changedOrder]
    exact c.changedFirst.append (.read hk hr c.changedLast)
  have hd := convert_done revision h.changed h.uncompressed hc
  exact hd

end Course

theorem flatten_take_prefix {α : Type} (parts : List (List α)) (k : Nat) :
    (parts.take k).flatten <+: parts.flatten := by
  conv => rhs; rw [← List.take_append_drop k parts, List.flatten_append]
  exact List.prefix_append _ _

/-- No loss goes unnoticed when a section is cut short. In a section that declares how many records
it has, every cut is met as a malformed or missing record. A section that goes on to its end is a row of
groups: the conversion still succeeds exactly if the new end is the start of one of them, and then
writes the groups before it and everything else as before; any other cut is met as in the other
sections. Whenever a cut is met, what has been written is the start of the document. -/
theorem convert_shortened {image cut : Bytes} {summary : Summary} {i n : Nat}
    {entry : SectionEntry} {kind : SectionKind} (revision : String)
    (h : Shortened image cut summary i entry n) (hk : entry.kind = some kind)
    (hok : (convert { revision } image).failure = none) :
    (kind.isOpen = false → (convert { revision } cut).MalformedIn entry.name) ∧
    (kind.isOpen = true → ∃ tag newline before after groups parts,
      List.Forall₂ (Group.SpellsIn kind) groups parts ∧ parts.flatten = entry.stored image ∧
      (convert { revision } image).written =
        before ++ Markup.element tag newline (groups.flatMap Group.markup) ++ after ∧
      ((convert { revision } cut).failure = none ↔
        ∃ k < groups.length, n = (parts.take k).flatten.length) ∧
      (∀ k < groups.length, n = (parts.take k).flatten.length →
        (convert { revision } cut).written =
          before ++ Markup.element tag newline ((groups.take k).flatMap Group.markup) ++ after) ∧
      ((convert { revision } cut).failure ≠ none →
        (convert { revision } cut).MalformedIn entry.name)) ∧
    ((convert { revision } cut).failure ≠ none →
      (convert { revision } cut).StartOf (convert { revision } image)) := by
  obtain ⟨c⟩ := h.exists_course hk hok
  have hpart := List.take_prefix n (entry.stored image)
  cases ho : kind.isOpen with
  | false =>
    obtain ⟨known, hd⟩ := c.copiedFirst.exists_describes .none
    obtain ⟨hm, hs⟩ := c.convert_of_fallsShort revision h hk
      (SectionKind.fallsShort_of_cut hd ho c.run hpart h.take_ne)
    exact ⟨fun _ => hm, fun he => Bool.noConfusion he, fun _ => hs⟩
  | true =>
    obtain ⟨tag, newline, groups, parts, hg, hflat, hinside, hrun, hcut⟩ :=
      SectionKind.exists_groups_of_run ho c.run
    -- a cut is known by its length, and the starts of the groups are the lengths of whole parts
    have htake : ∀ k, n = (parts.take k).flatten.length →
        (entry.stored image).take n = (parts.take k).flatten := by
      rintro k rfl
      exact (List.prefix_iff_eq_take.mp (hflat ▸ flatten_take_prefix parts k)).symm
    have hdone : ∀ k, (entry.stored image).take n = (parts.take k).flatten →
        (convert { revision } cut).Done _ c.final := fun k he =>
      c.convert_of_run revision h hk (he ▸ hrun k)
    have hfails : (convert { revision } cut).failure ≠ none →
        (convert { revision } cut).MalformedIn entry.name ∧
          (convert { revision } cut).StartOf (convert { revision } image) := by
      intro hne
      rcases hcut _ hpart with ⟨k, -, he⟩ | hs
      · exact absurd (hdone k he).failure hne
      · exact c.convert_of_fallsShort revision h hk hs
    refine ⟨fun he => Bool.noConfusion he, fun _ => ⟨tag, newline, summary.markup revision ++ c.before,
      c.after ++ [.closing "fsimage" true], groups, parts, hg, hflat, ?_, ⟨fun hn => ?_, ?_⟩, ?_,
      fun hne => (hfails hne).1⟩, fun hne => (hfails hne).2⟩
    · rw [(c.convert_image revision h hk).written, hinside]
      simp
    · rcases hcut _ hpart with ⟨k, hle, he⟩ | hs
      · -- all the groups would be the section as it was, and that is longer
        refine ⟨k, Nat.lt_of_le_of_ne hle fun hlen => h.take_ne ?_, ?_⟩
        · rw [he, hlen, hg.length_eq, List.take_length, hflat]
        · rw [← he, List.length_take, Nat.min_eq_left (Nat.le_of_lt h.lt_length_stored)]
      · obtain ⟨problem, hp, -⟩ := (c.convert_of_fallsShort revision h hk hs).1
        rw [hn] at hp
        cases hp
    · rintro ⟨k, -, he⟩
      exact (hdone k (htake k he)).failure
    · intro k _ he
      rw [(hdone k (htake k he)).written]
      simp

/-- Half of the row of children is left. -/
theorem shortened_inodeDir :
    Shortened smallImage (smallImage.set 89 5) smallSummary 1 ⟨"INODE_DIR", 29, 10⟩ 5 where
  read := read_smallImage
  uncompressed := rfl
  listed := rfl
  shorter := by decide
  changed := by decide +kernel
  same := by decide

/-- The inode is left out. -/
theorem shortened_inode :
    Shortened smallImage (smallImage.set 72 5) smallSummary 0 ⟨"INODE", 8, 21⟩ 5 where
  read := read_smallImage
  uncompressed := rfl
  listed := rfl
  shorter := by decide
  changed := by decide +kernel
  same := by decide

theorem convert_shortened_smallImage :
    (convert { revision := "2" } (smallImage.set 72 5)).MalformedIn "INODE" ∧
    ∃ tag newline before after groups parts,
      List.Forall₂ (Group.SpellsIn .inodeDir) groups parts ∧
      parts.flatten = [4, 8, 1, 16, 2, 4, 8, 2, 16, 3] ∧
      (convert { revision := "2" } smallImage).written =
        before ++ Markup.element tag newline (groups.flatMap Group.markup) ++ after ∧
      ((convert { revision := "2" } (smallImage.set 89 5)).failure = none ↔
        ∃ k < groups.length, 5 = (parts.take k).flatten.length) ∧
      ∀ k < groups.length, 5 = (parts.take k).flatten.length →
        (convert { revision := "2" } (smallImage.set 89 5)).written =
          before ++ Markup.element tag newline ((groups.take k).flatMap Group.markup) ++ after := by
  have hok : (convert { revision := "2" } smallImage).failure = none := by decide +kernel
  obtain ⟨hclosed, -, -⟩ :=
    convert_shortened "2" shortened_inode (SectionKind.ofName?_name .inode) hok
  obtain ⟨-, hopen, -⟩ :=
    convert_shortened "2" shortened_inodeDir (SectionKind.ofName?_name .inodeDir) hok
  obtain ⟨tag, newline, before, after, groups, parts, hg, hp, hw, hf, hc, -⟩ := hopen rfl
  exact ⟨hclosed rfl, tag, newline, before, after, groups, parts, hg, hp, hw, hf, hc⟩

end Checkpoint
