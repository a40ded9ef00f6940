import Checkpoint.Proofs.Attributes
import Checkpoint.Proofs.FieldOrder

/-! # Packed fields

The numbers of a repeated field stand in its body one by one, or packed into occurrences that hold
any number of them. The two forms can be mixed and other fields can stand anywhere between them:
only the order of the numbers is seen. -/
namespace Checkpoint

/-- The contents hold the values in their order: one value as it is, or a run of values, which may
be empty, packed into one content. -/
inductive FieldOf.Writes (field : Field) : List Value → List Content → Prop
  | nil : Writes field [] []
  | alone {value values contents} : Writes field values contents →
      Writes field (value :: values) (value.content field.kind :: contents)
  | packed {run bytes values contents} :
      Spelled (fun value => (value.content field.kind).Spells) run bytes →
      Writes field values contents → Writes field (run ++ values) (.delimited bytes :: contents)

/-- Where a number of the kind stands among others that are packed, it is spelled as it is where it
stands alone. -/
theorem Content.packs_of_spells {kind : Kind} {content : Content} {n : Nat} {bytes : Bytes}
    (hw : content.wireType = kind.wireType) (hn : content.number? = some n)
    (h : content.Spells bytes) : kind.Packs n bytes := by
  unfold Kind.Packs
  rw [← hw]
  cases content with
  | delimited inner => cases hn
  | varint m | fixed64 m | fixed32 m =>
    obtain rfl : m = n := Option.some.inj hn
    exact h

/-- Packed values are packed numbers that are taken for these values. -/
theorem Value.exists_packs {kind : Kind} (hk : kind.wireType ≠ .delimited) {run : List Value}
    {bytes : Bytes} (hfits : ∀ value ∈ run, value.Fits kind)
    (h : Spelled (fun value => (value.content kind).Spells) run bytes) :
    ∃ ns, Spelled kind.Packs ns bytes ∧ ns.map kind.ofNumber = run := by
  induction run generalizing bytes with
  | nil => exact ⟨[], spelled_nil.mpr (spelled_nil.mp h), rfl⟩
  | cons value run ih =>
    obtain ⟨hvalue, hrun⟩ := List.forall_mem_cons.mp hfits
    obtain ⟨first, rest, rfl, hfirst, hrest⟩ := spelled_cons.mp h
    obtain ⟨hw, -, n, hn, rfl⟩ := hvalue.exists_number hk
    obtain ⟨ns, hns, rfl⟩ := ih hrun hrest
    have hpacks := Content.packs_of_spells hw hn hfirst
    exact ⟨n :: ns, spelled_cons.mpr ⟨first, rest, rfl, hpacks, hns⟩, rfl⟩

/-- What the contents carry are the values that they have been written for. -/
theorem FieldOf.Writes.exists_carries {field : Field} {values : List Value}
    {contents : List Content} (h : field.Writes values contents) (hrep : field.repeated = true)
    (hk : field.kind.wireType ≠ .delimited) (hfits : ∀ value ∈ values, value.Fits field.kind) :
    ∃ carried, List.Forall₂ field.Carries contents carried ∧ carried.flatten = values := by
  induction h with
  | nil => exact ⟨[], .nil, rfl⟩
  | alone _ ih =>
    obtain ⟨hvalue, hvalues⟩ := List.forall_mem_cons.mp hfits
    obtain ⟨hw, -, n, hn, hv⟩ := hvalue.exists_number hk
    obtain ⟨carried, hc, rfl⟩ := ih hvalues
    exact ⟨_ :: carried, .cons (.number hw hn) hc, by rw [hv]; rfl⟩
  | packed hrun _ ih =>
    obtain ⟨hfirst, hvalues⟩ := List.forall_mem_append.mp hfits
    obtain ⟨ns, hns, rfl⟩ := Value.exists_packs hk hfirst hrun
    obtain ⟨carried, hc, rfl⟩ := ih hvalues
    exact ⟨_ :: carried, .cons (.packed hrep hk hns) hc, rfl⟩

theorem WireField.contents_filter_of_ne {number other : Nat} (h : other ≠ number)
    (fields : List WireField) :
    contents other (fields.filter (·.number != number)) = contents other fields := by
  rw [contents, contents, List.filter_filter]
  congr 2
  funext f
  by_cases hf : f.number = other
  · simp [hf, h]
  · simp [hf]

namespace LayoutOf

variable {schema : Schema} {name : String} {field : Field} {fields : List WireField} {r : Record}

theorem Names.eq_of_number {name' : String} {repeated repeated' : Bool} {other : Field}
    (hn : schema.Names name repeated field) (ho : schema.Names name' repeated' other)
    (h : other.number = field.number) : name' = name := by
  have hf : other = field := by
    have hfound := ho.field?
    rw [h, hn.field?] at hfound
    exact (Option.some.inj hfound).symm
  rw [← name_of_lookup ho.lookup, ← name_of_lookup hn.lookup, hf]

/-- If the fields of one number carry something, and so do all others, the fields together do. -/
theorem exists_occurs_of_contents {carried : List (List Value)}
    (hfield : schema.field? field.number = some field)
    (hown : List.Forall₂ field.Carries (WireField.contents field.number fields) carried)
    (hrest : List.Forall₂ FieldOf.Occurs
      (schema.named (fields.filter (·.number != field.number))) r) :
    ∃ s, List.Forall₂ FieldOf.Occurs (schema.named fields) s := by
  refine exists_forall₂ ?_
  rintro ⟨other, content⟩ he
  obtain ⟨f, hf, hother, rfl⟩ := mem_named.mp he
  by_cases hnumber : f.number = field.number
  · obtain rfl : field = other := Option.some.inj (hfield.symm.trans (hnumber ▸ hother))
    have hmem : f.content ∈ WireField.contents field.number fields :=
      WireField.mem_contents.mpr ⟨f, hf, hnumber, rfl⟩
    obtain ⟨values, -, hc⟩ := exists_of_forall₂ hown hmem
    exact ⟨(field.number, values), hc, rfl⟩
  · have hmem : f ∈ fields.filter (·.number != field.number) :=
      List.mem_filter.mpr ⟨hf, bne_iff_ne.mpr hnumber⟩
    obtain ⟨occurrence, -, ho⟩ := exists_of_forall₂ hrest (mem_named.mpr ⟨f, hmem, hother, rfl⟩)
    exact ⟨occurrence, ho⟩

/-- A field occurs in a record exactly if there is one of its number in the body. -/
theorem has_iff_of_occurs {number : Nat} (h : List.Forall₂ FieldOf.Occurs (schema.named fields) r)
    (hfield : schema.field? number = some field) :
    r.has number = true ↔ ∃ f ∈ fields, f.number = number := by
  rw [Record.has_iff_carried, ← List.length_pos_iff, ← (forall₂_carried h hfield).length_eq,
    List.length_pos_iff_exists_mem]
  simp only [WireField.mem_contents]
  exact ⟨fun ⟨_, f, hf, hn, _⟩ => ⟨f, hf, hn⟩, fun ⟨f, hf, hn⟩ => ⟨_, f, hf, hn, rfl⟩⟩

/-- A body whose other fields are read is read with a repeated number field among them, however its
values have been divided into single ones and packed runs. The field reads as all the values in
their order, it is there exactly if there is an occurrence of it, packed or not, and every other field
reads as it does without it. -/
theorem parse_packed (hn : schema.Names name true field) (hk : field.kind.wireType ≠ .delimited)
    {values : List Value} (hfits : ∀ value ∈ values, value.Fits field.kind)
    (hw : field.Writes values (WireField.contents field.number fields)) {body rest : Bytes}
    (hbody : Spelled WireField.Spells fields body)
    (hrest : Spelled WireField.Spells (fields.filter (·.number != field.number)) rest)
    (hr : schema.parse rest = .ok r) :
    ∃ s, schema.parse body = .ok s ∧ field.read s = .many values ∧
      (s.has field.number = true ↔ ∃ f ∈ fields, f.number = field.number) ∧
      ∀ name' repeated other, schema.Names name' repeated other → name' ≠ name →
        s.has other.number = r.has other.number ∧ other.read s = other.read r := by
  obtain ⟨carried, hc, rfl⟩ := hw.exists_carries hn.repeated hk hfits
  have hothers := occurs_of_parse hr hrest
  obtain ⟨s, hs⟩ := exists_occurs_of_contents hn.field? hc hothers
  have hcontents := forall₂_carried hs hn.field?
  -- what the contents carry is determined by them, so it is what they have been written for
  have hcarried : Record.carried s field.number = carried :=
    List.right_unique_forall₂' (fun _ _ _ h h' => h.unique h') hcontents hc
  refine ⟨s, parse_eq_ok_iff.mpr ⟨fields, hbody, hs⟩, ?_, has_iff_of_occurs hs hn.field?,
    fun name' repeated other ho hne => ?_⟩
  · rw [FieldOf.read_of_repeated hn.repeated, Record.values_eq_flatten, hcarried]
  · have hnumber : other.number ≠ field.number := fun h => hne (hn.eq_of_number ho h)
    have hsame := carried_congr ho.field? (WireField.contents_filter_of_ne hnumber fields).symm
      hs hothers
    refine ⟨Record.has_congr hsame, FieldOf.read_congr ?_⟩
    rw [Record.values_eq_flatten, Record.values_eq_flatten, hsame]

/-- Children of a directory: one alone, an empty run, a run in which the first one is negative and
the second one padded, and one alone. Their parent, a field of no name and a reference stand among
them. -/
def mixedLinks : Bytes :=
  [16, 1] ++ [8, 5] ++ [18, 0] ++ [74, 2, 16, 9] ++
    [18, 12, 254, 255, 255, 255, 255, 255, 255, 255, 255, 1, 131, 0] ++ [24, 7] ++ [16, 172, 2]

def mixedFields : List WireField :=
  [⟨2, .varint 1⟩, ⟨1, .varint 5⟩, ⟨2, .delimited []⟩, ⟨9, .delimited [16, 9]⟩,
    ⟨2, .delimited [254, 255, 255, 255, 255, 255, 255, 255, 255, 1, 131, 0]⟩, ⟨3, .varint 7⟩,
    ⟨2, .varint 300⟩]

def childrenField : Field where
  number := 2
  name := "children"
  kind := .int64
  repeated := true

def mixedChildren : List Value := [.int 1, .int (-2), .int 3, .int 300]

theorem writes_mixedChildren :
    childrenField.Writes mixedChildren (WireField.contents 2 mixedFields) := by
  have hrun : Spelled (fun value => (Value.content .int64 value).Spells) [.int (-2), .int 3]
      [254, 255, 255, 255, 255, 255, 255, 255, 255, 1, 131, 0] := by
    refine ⟨[[254, 255, 255, 255, 255, 255, 255, 255, 255, 1], [131, 0]], .cons ?_ (.cons ?_ .nil),
      rfl⟩
    · exact Varint.spells_iff.mpr (by cbv)
    · exact Varint.spells_iff.mpr (by cbv)
  have hlast : childrenField.Writes [.int 300] [.varint 300] := .alone .nil
  have hrest : childrenField.Writes ([.int (-2), .int 3] ++ [.int 300]) _ := .packed hrun hlast
  have hempty : childrenField.Writes ([] ++ _) _ := .packed (spelled_nil.mpr rfl) hrest
  exact .alone hempty

theorem parse_packed_mixedLinks : ∃ s, DirectoryLinks.schema.parse mixedLinks = .ok s ∧
    childrenField.read s = .many mixedChildren ∧ Record.has s 2 = true ∧
      Record.has s 1 = true := by
  have hbody : Spelled WireField.Spells mixedFields mixedLinks := by
    rw [← @Body.split_iff ""]
    cbv
  have hrest : Spelled WireField.Spells (mixedFields.filter (·.number != 2))
      [8, 5, 74, 2, 16, 9, 24, 7] := by
    rw [← @Body.split_iff ""]
    cbv
  have hr : DirectoryLinks.schema.parse [8, 5, 74, 2, 16, 9, 24, 7] =
      .ok [(1, [.int 5]), (3, [.int 7])] := by cbv
  have hchildren : DirectoryLinks.schema.Names "children" true childrenField := ⟨rfl, rfl, rfl⟩
  have hparent : DirectoryLinks.schema.Names "parent" false
      { number := 1, name := "parent", kind := .int64 } := ⟨rfl, rfl, rfl⟩
  have hfits : ∀ value ∈ mixedChildren, value.Fits .int64 := by
    simpa [mixedChildren] using ⟨.int64 (by decide) (by decide), .int64 (by decide) (by decide),
      .int64 (by decide) (by decide), .int64 (by decide) (by decide)⟩
  obtain ⟨s, hs, hread, hhas, hothers⟩ :=
    parse_packed hchildren (by decide) hfits writes_mixedChildren hbody hrest hr
  exact ⟨s, hs, hread, hhas.mpr ⟨⟨2, .varint 1⟩, .head _, rfl⟩,
    (hothers _ _ _ hparent (by decide)).1⟩

end LayoutOf

end Checkpoint
