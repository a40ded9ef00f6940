import Checkpoint.Image.SectionReader
import Checkpoint.Proofs.ContainerForm
import Checkpoint.Proofs.Strict

/-! # Section reads

The reader of a section gives the bytes of the section and nothing else, in pieces of the sizes that
are asked for. How many bytes it takes from the handle at a time, and where that leaves the handle,
does not show: each window sets the position anew. -/
namespace Checkpoint

/-- What comes after the first bytes of a slice. -/
theorem Bytes.slice_after (bytes : Bytes) (offset length n : Nat) :
    slice bytes (offset + (slice bytes offset (min n length)).length)
      (length - (slice bytes offset (min n length)).length) =
      (slice bytes offset length).drop n := by
  have hfound := length_slice bytes offset (min n length)
  by_cases hn : (slice bytes offset (min n length)).length = n
  · rw [hn, slice, slice, List.drop_take, List.drop_drop]
  · -- there were fewer bytes than were asked for, so none are left
    have hleft : (slice bytes (offset + (slice bytes offset (min n length)).length)
        (length - (slice bytes offset (min n length)).length)).length = 0 := by
      rw [length_slice]
      omega
    have hright : ((slice bytes offset length).drop n).length = 0 := by
      rw [List.length_drop, length_slice]
      omega
    rw [List.eq_nil_of_length_eq_zero hleft, List.eq_nil_of_length_eq_zero hright]

/-! ## Windows -/

namespace Window

variable {w next : Window} {found : Bytes} {n : Nat}

/-- What can still be read. -/
def rest (w : Window) : Bytes := Bytes.slice w.handle.image w.handle.position w.remaining.toNat

/-- A read gives what comes next, as much of it as there is. -/
theorem readInto_eq (h : w.readInto n = (found, next)) :
    found = w.rest.take n ∧ w.rest = found ++ next.rest ∧ next.handle.image = w.handle.image := by
  unfold readInto at h
  split at h
  · rename_i hr
    cases h
    have hrest : w.rest = [] := by
      rw [rest, Int.toNat_of_nonpos hr]
      exact List.take_zero
    simp [hrest]
  · cases h
    have hfound : (w.handle.read (min n w.remaining.toNat)).1 = w.rest.take n :=
      List.take_take.symm
    refine ⟨hfound, ?_, rfl⟩
    have hrest : w.rest.drop n = rest ⟨(w.handle.read (min n w.remaining.toNat)).2,
        w.remaining - (w.handle.read (min n w.remaining.toNat)).1.length⟩ := by
      simp only [rest, Int.toNat_sub']
      exact (Bytes.slice_after _ _ _ _).symm
    exact (List.take_append_drop n w.rest).symm.trans (congrArg₂ (· ++ ·) hfound.symm hrest)

/-- Nothing is read only where nothing is left. -/
theorem rest_of_readInto_nil (h : w.readInto n = ([], next)) (hn : n ≠ 0) :
    w.rest = [] ∧ next.rest = [] ∧ next.handle.image = w.handle.image := by
  obtain ⟨hfound, hrest, himage⟩ := readInto_eq h
  have hnil : w.rest = [] := (List.take_eq_nil_iff.mp hfound.symm).resolve_left hn
  exact ⟨hnil, hrest.symm.trans hnil, himage⟩

theorem drain_eq (w : Window) :
    w.drain.1 = w.rest ∧ w.drain.2.rest = [] ∧ w.drain.2.handle.image = w.handle.image := by
  fun_induction drain w with
  | case1 w next h =>
    obtain ⟨hnil, hnext, himage⟩ := rest_of_readInto_nil h (by decide)
    exact ⟨hnil.symm, hnext, himage⟩
  | case2 w b found next h _ more last hdrain ih =>
    obtain ⟨-, hrest, himage⟩ := readInto_eq h
    rw [hdrain] at ih
    obtain ⟨rfl, hlast, hsame⟩ := ih
    exact ⟨hrest.symm, hlast, hsame.trans himage⟩

end Window

/-! ## Readers -/

namespace SectionReader

/-- What can still be read. -/
def rest (r : SectionReader) : Bytes := r.buffer ++ r.window.rest

/-- The image that is read. -/
def image (r : SectionReader) : Bytes := r.window.handle.image

variable {r : SectionReader} {w : Window} {all image found more : Bytes} {n : Nat}

/-- Of all the bytes that could be read of an image, `n` or as many as there are have been read. -/
structure Gave (all image : Bytes) (n : Nat) (result : Bytes × SectionReader) : Prop where
  piece : result.1 = all.take n
  rest : result.2.rest = all.drop n
  image : result.2.image = image

/-- Bytes that have been found before are given as well. -/
theorem Gave.after (h : Gave all image (n - found.length) (more, r)) (hn : found.length ≤ n) :
    Gave (found ++ all) image n (found ++ more, r) where
  piece := by
    have hpiece : more = all.take (n - found.length) := h.piece
    rw [List.take_append, List.take_of_length_le hn, ← hpiece]
  rest := by
    have hrest : r.rest = all.drop (n - found.length) := h.rest
    rw [List.drop_append, List.drop_eq_nil_of_le hn, List.nil_append, ← hrest]
  image := h.image

/-- Nothing more is given of a window that is used up. -/
theorem Gave.of_nil {w next : Window} {k : Nat} (h : w.readInto k = ([], next)) (hk : k ≠ 0) :
    Gave w.rest w.handle.image n ([], { window := next }) := by
  obtain ⟨hnil, hnext, himage⟩ := Window.rest_of_readInto_nil h hk
  rw [hnil]
  exact ⟨List.take_nil.symm, hnext.trans List.drop_nil.symm, himage⟩

theorem readAhead_gave {wanted filled : Nat} (h : wanted + filled ≤ chunkSize) :
    Gave w.rest w.handle.image wanted (readAhead wanted filled w) := by
  fun_induction readAhead wanted filled w with
  | case1 wanted filled w hdone =>
    have hwanted : wanted = 0 := by omega
    subst hwanted
    exact ⟨rfl, rfl, rfl⟩
  | case2 wanted filled w hmore next hread => exact .of_nil hread (by omega)
  | case3 wanted filled w hmore b tail next hread _ found hlt rest reader hrec ih =>
    obtain ⟨-, hrest, himage⟩ := Window.readInto_eq hread
    have hnext := ih (by omega)
    rw [hrec, himage] at hnext
    rw [hrest]
    exact hnext.after (Nat.le_of_lt hlt)
  | case4 wanted filled w hmore b tail next hread _ found hle =>
    obtain ⟨-, hrest, himage⟩ := Window.readInto_eq hread
    have hle : wanted ≤ found.length := Nat.le_of_not_lt hle
    rw [hrest]
    exact ⟨(List.take_append_of_le_length hle).symm, (List.drop_append_of_le_length hle).symm,
      himage⟩

theorem readBlocks_gave (wanted : Nat) (w : Window) :
    Gave w.rest w.handle.image wanted (readBlocks wanted w) := by
  fun_induction readBlocks wanted w with
  | case1 wanted w blocks hzero =>
    -- less than a block is wanted
    have hlt : wanted < chunkSize := by
      have hmod := Nat.mod_lt wanted (show 0 < chunkSize by decide)
      have hdiv := Nat.div_add_mod' wanted chunkSize
      omega
    exact readAhead_gave (Nat.le_of_lt hlt)
  | case2 wanted w blocks hblocks next hread => exact .of_nil hread hblocks
  | case3 wanted w blocks hblocks b tail next hread _ found rest reader hrec ih =>
    obtain ⟨hfound, hrest, himage⟩ := Window.readInto_eq hread
    have hle : found.length ≤ wanted := by
      have hlength : found.length ≤ blocks := by
        change (b :: tail).length ≤ blocks
        rw [hfound]
        exact List.length_take_le _ _
      exact Nat.le_trans hlength (Nat.div_mul_le_self wanted chunkSize)
    rw [hrec, himage] at ih
    rw [hrest]
    exact ih.after hle

/-- A read gives as many bytes as are asked for, or as there are. -/
theorem read_gave (n : Nat) (r : SectionReader) : Gave r.rest r.image n (r.read n) := by
  unfold read
  split
  · rename_i hle
    exact ⟨(List.take_append_of_le_length hle).symm, (List.drop_append_of_le_length hle).symm, rfl⟩
  · rename_i hgt
    exact (readBlocks_gave _ r.window).after (Nat.le_of_not_le hgt)

theorem ask_gave (size : Option Nat) (r : SectionReader) :
    Gave r.rest r.image (size.getD r.rest.length) (r.ask size) := by
  cases size with
  | some n => exact read_gave n r
  | none =>
    obtain ⟨hpiece, hrest, himage⟩ := r.window.drain_eq
    refine ⟨?_, ?_, himage⟩
    · rw [Option.getD_none, List.take_length]
      exact congrArg (r.buffer ++ ·) hpiece
    · rw [Option.getD_none, List.drop_length]
      exact hrest

/-- How many bytes are asked for with reads of these sizes, where there are `length`. A read without
a size asks for what the reads before it leave. -/
def asked : (length : Nat) → List (Option Nat) → Nat
  | _, [] => 0
  | length, size :: sizes => size.getD length + asked (length - size.getD length) sizes

variable {sizes : List (Option Nat)}

/-- Reads one after the other give the first bytes, as many as are asked for. -/
theorem askAll_eq (sizes : List (Option Nat)) (r : SectionReader) :
    (r.askAll sizes).1.length = sizes.length ∧
      (r.askAll sizes).1.flatten = r.rest.take (asked r.rest.length sizes) ∧
      (r.askAll sizes).1.flatten ++ (r.askAll sizes).2.rest = r.rest ∧
      (r.askAll sizes).2.image = r.image := by
  induction sizes generalizing r with
  | nil => exact ⟨rfl, rfl, rfl, rfl⟩
  | cons size sizes ih =>
    obtain ⟨hpiece, hrest, himage⟩ := r.ask_gave size
    obtain ⟨hlength, hpieces, hlast, hsame⟩ := ih (r.ask size).2
    have hflat : (r.askAll (size :: sizes)).1.flatten =
        (r.ask size).1 ++ ((r.ask size).2.askAll sizes).1.flatten := rfl
    refine ⟨congrArg Nat.succ hlength, ?_, ?_, hsame.trans himage⟩
    · rw [hflat, hpieces, asked, List.take_add, hpiece, hrest, List.length_drop]
    · rw [hflat, List.append_assoc]
      exact (congrArg ((r.ask size).1 ++ ·) hlast).trans (by
        rw [hpiece, hrest, List.take_append_drop])

theorem askAll_append (first later : List (Option Nat)) (r : SectionReader) :
    (r.askAll (first ++ later)).1 =
      (r.askAll first).1 ++ ((r.askAll first).2.askAll later).1 := by
  induction first generalizing r with
  | nil => rfl
  | cons size first ih => exact congrArg ((r.ask size).1 :: ·) (ih (r.ask size).2)

/-- Reads of these sizes give the bytes of a section in these pieces. -/
structure Delivers (stored : Bytes) (sizes : List (Option Nat)) (pieces : List Bytes) : Prop where
  length : pieces.length = sizes.length
  /-- The first reads give the first bytes, as many as they ask for. -/
  first : ∀ first later, sizes = first ++ later →
    (pieces.take first.length).flatten = stored.take (asked stored.length first)
  /-- Once they have asked for all bytes they have given them, and later reads give nothing. -/
  whole : ∀ first later, sizes = first ++ later → stored.length ≤ asked stored.length first →
    (pieces.take first.length).flatten = stored ∧ ∀ piece ∈ pieces.drop first.length, piece = []

theorem Delivers.flatten_eq {stored : Bytes} {pieces : List Bytes}
    (h : Delivers stored sizes pieces) :
    pieces.flatten = stored.take (asked stored.length sizes) := by
  have hfirst := h.first sizes [] (List.append_nil _).symm
  rw [← h.length, List.take_length] at hfirst
  exact hfirst

theorem askAll_delivers (sizes : List (Option Nat)) (r : SectionReader) :
    Delivers r.rest sizes (r.askAll sizes).1 := by
  have hfirst : ∀ first later, sizes = first ++ later →
      ((r.askAll sizes).1.take first.length).flatten = r.rest.take (asked r.rest.length first) := by
    rintro first later rfl
    obtain ⟨hlength, hpieces, -, -⟩ := r.askAll_eq first
    rw [askAll_append, ← hlength, List.take_left, hpieces]
  obtain ⟨hlength, -, hsplit, -⟩ := r.askAll_eq sizes
  refine ⟨hlength, hfirst, fun first later hs hall => ?_⟩
  have hgiven := hfirst first later hs
  rw [List.take_of_length_le hall] at hgiven
  refine ⟨hgiven, List.flatten_eq_nil_iff.mp ?_⟩
  -- the first pieces are all there is
  have hrest : r.rest ++ ((r.askAll sizes).1.drop first.length).flatten <+: r.rest := by
    refine ⟨(r.askAll sizes).2.rest, ?_⟩
    conv_rhs => rw [← hsplit, ← List.take_append_drop first.length (r.askAll sizes).1]
    rw [List.flatten_append, hgiven]
  have hle := hrest.length_le
  rw [List.length_append] at hle
  exact List.eq_nil_of_length_eq_zero (by omega)

/-- The reader of a section that does not start before the image has its bytes before it, wherever
the handle was. -/
theorem exists_openAt? {entry : SectionEntry} (handle : Handle) (h : 0 ≤ entry.offset) :
    ∃ r, openAt? entry handle = some r ∧ r.rest = entry.stored handle.image ∧
      r.image = handle.image := by
  have hopen : openAt? entry handle =
      some { window := ⟨handle.seek entry.offset.toNat, entry.length⟩ } :=
    congrArg (Option.map fun window => ({ window } : SectionReader)) (if_neg (Int.not_lt.mpr h))
  exact ⟨_, hopen, rfl, rfl⟩

/-- The stream of a section without a codec is what its reader can read, -/
theorem stream_of_openAt? {entry : SectionEntry} {handle : Handle}
    (h : openAt? entry handle = some r) :
    CodecChoice.stored.stream handle.image entry = ⟨r.rest, none⟩ := by
  obtain ⟨w, hw, rfl⟩ := Option.map_eq_some_iff.mp h
  rw [Window.openAt?] at hw
  split at hw
  · cases hw
  · cases hw
    rfl

/-- and a read from the stream is a read by the reader. -/
theorem read_stream (r : SectionReader) (n : Nat) :
    ByteStream.read n ⟨r.rest, none⟩ = .ok (r.read n).1 ⟨(r.read n).2.rest, none⟩ := by
  obtain ⟨hpiece, hrest, -⟩ := r.read_gave n
  rw [hpiece, hrest]
  rfl

end SectionReader

/-! ## Sections -/

namespace Handle

open SectionReader (Delivers)

variable {image : Bytes} {summary : Summary} {uses : List SectionUse}

/-- A section is read as if it were the only one. -/
theorem useAll_delivers (hu : ∀ use ∈ uses, 0 ≤ use.entry.offset) (handle : Handle) :
    ∃ results, handle.useAll uses = some results ∧
      List.Forall₂ (fun use pieces => Delivers (use.entry.stored handle.image) use.sizes pieces)
        uses results := by
  induction uses generalizing handle with
  | nil => exact ⟨[], rfl, .nil⟩
  | cons use uses ih =>
    obtain ⟨hoffset, hu⟩ := List.forall_mem_cons.mp hu
    obtain ⟨r, hopen, hrest, himage⟩ := SectionReader.exists_openAt? handle hoffset
    have hsame : (r.askAll use.sizes).2.window.handle.image = handle.image :=
      (r.askAll_eq use.sizes).2.2.2.trans himage
    obtain ⟨others, hothers, hall⟩ := ih hu (r.askAll use.sizes).2.window.handle
    refine ⟨(r.askAll use.sizes).1 :: others, ?_, .cons ?_ ?_⟩
    · simp [useAll, hopen, hothers]
    · rw [← hrest]
      exact r.askAll_delivers use.sizes
    · rw [← hsame]
      exact hall

/-- Sections of an image that are read one after the other through the same handle, whatever its
position was. Each gives exactly its own bytes, in pieces of the sizes that are asked for, then
nothing more. Those bytes are as many as the summary says, and all of them stand before the bytes
that are set aside for the summary. -/
theorem useAll_sections (h : Summary.read image = .ok summary)
    (hu : ∀ use ∈ uses, use.entry ∈ summary.sections) (position : Nat) :
    (∃ length, Summary.Sized image length ∧ ∀ use ∈ uses, 0 ≤ use.entry.offset ∧
      use.entry.offset + use.entry.length ≤ image.length - 4 - length ∧
      (Bytes.slice image use.entry.offset.toNat use.entry.length.toNat).length =
        use.entry.length) ∧
    ∃ results, Handle.useAll uses ⟨image, position⟩ = some results ∧
      List.Forall₂ (fun use pieces => Delivers
        (Bytes.slice image use.entry.offset.toNat use.entry.length.toNat) use.sizes pieces)
        uses results := by
  obtain ⟨length, record, haccepted, rfl⟩ := ((Summary.read_iff image).1 summary).mp h
  have hfits : ∀ use ∈ uses, 0 ≤ use.entry.offset ∧ 0 ≤ use.entry.length ∧
      use.entry.offset + use.entry.length ≤ image.length - 4 - length := by
    intro use hmem
    obtain ⟨s, hs, he⟩ := List.mem_map.mp (hu use hmem)
    rw [← he]
    exact haccepted.lie_before s hs
  refine ⟨⟨length, haccepted.holds.sized, fun use hmem => ?_⟩,
    useAll_delivers (fun use hmem => (hfits use hmem).1) ⟨image, position⟩⟩
  obtain ⟨hoffset, hlength, hend⟩ := hfits use hmem
  have hstored := Summary.length_stored h (hu use hmem)
  refine ⟨hoffset, hend, ?_⟩
  change ((use.entry.stored image).length : Int) = use.entry.length
  rw [hstored]
  exact Int.toNat_of_nonneg hlength

/-- The last section is read before the first one, and the first one twice. -/
theorem useAll_sections_smallImage :
    ∃ results, Handle.useAll [⟨⟨"STRING_TABLE", 39, 9⟩, [some 3, some 70000, some 1]⟩,
        ⟨⟨"INODE", 8, 21⟩, [some 2]⟩, ⟨⟨"INODE", 8, 21⟩, [some 1, none, none]⟩]
        ⟨smallImage, 99⟩ = some results ∧
      results.map List.flatten =
        [[2, 8, 1, 5, 8, 1, 18, 1, 97], [4, 8], (smallImage.drop 8).take 21] := by
  have hu : ∀ use ∈ [(⟨⟨"STRING_TABLE", 39, 9⟩, [some 3, some 70000, some 1]⟩ : SectionUse),
      ⟨⟨"INODE", 8, 21⟩, [some 2]⟩, ⟨⟨"INODE", 8, 21⟩, [some 1, none, none]⟩],
      use.entry ∈ smallSummary.sections := by decide
  obtain ⟨-, results, hrun, hall⟩ := useAll_sections read_smallImage hu 99
  refine ⟨results, hrun, ?_⟩
  cases hall with
  | cons h₁ hall =>
    cases hall with
    | cons h₂ hall =>
      cases hall with
      | cons h₃ hall =>
        cases hall
        rw [List.map_cons, List.map_cons, List.map_cons, List.map_nil, h₁.flatten_eq, h₂.flatten_eq,
          h₃.flatten_eq]
        decide +kernel

end Handle

end Checkpoint
