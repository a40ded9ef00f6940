import Checkpoint.Proofs.Encoding

/-! # The order of fields

What a record says of a field depends on the occurrences of that field alone, in their order: fields
of other numbers may stand anywhere between them, and so may fields that the schema does not name,
whatever they hold. -/
namespace Checkpoint

section Spelled

variable {α ε : Type} {read : Bytes → Except ε (α × Bytes)} {spells : α → Bytes → Prop}
  {xs ys : List α} {first second : Bytes}

/-- What is spelled part by part is spelled by the parts together. -/
theorem Spelled.append (hx : Spelled spells xs first) (hy : Spelled spells ys second) :
    Spelled spells (xs ++ ys) (first ++ second) := by
  obtain ⟨parts, hparts, rfl⟩ := hx
  obtain ⟨others, hothers, rfl⟩ := hy
  exact ⟨parts ++ others, List.rel_append hparts hothers, List.flatten_append⟩

/-- What follows a part that spells something spells the rest. -/
theorem Spelled.exists_after (h : Reads read spells) (hn : ∀ {a}, ¬spells a [])
    (hx : Spelled spells xs first) (hs : Spelled spells ys (first ++ second)) :
    ∃ zs, ys = xs ++ zs ∧ Spelled spells zs second := by
  induction xs generalizing ys first with
  | nil =>
    obtain rfl := spelled_nil.mp hx
    exact ⟨ys, rfl, hs⟩
  | cons x xs ih =>
    obtain ⟨taken, rest, rfl, hfirst, hrest⟩ := spelled_cons.mp hx
    have hne : taken ++ rest ++ second ≠ [] := by
      rw [List.append_assoc]
      exact List.append_ne_nil_of_left_ne_nil (fun he => hn (he ▸ hfirst)) _
    have hread : read (taken ++ rest ++ second) = .ok (x, rest ++ second) := by
      rw [List.append_assoc]
      exact h.ok hfirst _
    obtain ⟨others, rfl, hothers⟩ := (spelled_of_read h hne hread).mp hs
    obtain ⟨zs, rfl, hz⟩ := ih hrest hothers
    exact ⟨zs, rfl, hz⟩

end Spelled

/-- The contents of the fields of a number, in order. -/
def WireField.contents (number : Nat) (fields : List WireField) : List Content :=
  (fields.filter (·.number == number)).map (·.content)

namespace WireField

variable {number : Nat} {f : WireField} {fields : List WireField} {content : Content}

theorem contents_cons_of_eq (h : f.number = number) :
    contents number (f :: fields) = f.content :: contents number fields := by
  simp [contents, h]

theorem contents_cons_of_ne (h : f.number ≠ number) :
    contents number (f :: fields) = contents number fields := by
  simp [contents, h]

theorem contents_append (number : Nat) (fields others : List WireField) :
    contents number (fields ++ others) = contents number fields ++ contents number others := by
  simp [contents]

theorem mem_contents : content ∈ contents number fields ↔
    ∃ f ∈ fields, f.number = number ∧ f.content = content := by
  simp [contents, and_assoc]

end WireField

/-- The values that the occurrences of a field carry, one list for each of them. -/
def Record.carried (r : Record) (number : Nat) : List (List Value) :=
  (r.filter (·.1 == number)).map (·.2)

namespace Record

variable {r s : Record} {number other : Nat} {values : List Value}

theorem carried_cons_of_eq (h : other = number) :
    carried ((other, values) :: r) number = values :: carried r number := by
  simp [carried, h]

theorem carried_cons_of_ne (h : other ≠ number) :
    carried ((other, values) :: r) number = carried r number := by
  simp [carried, h]

theorem values_eq_flatten (r : Record) (number : Nat) :
    r.values number = (carried r number).flatten := by
  rw [values, carried, List.flatMap_def]

theorem has_iff_carried : r.has number = true ↔ carried r number ≠ [] := by
  simp [has, carried]

/-- Two records in which a field carries the same say the same of it. -/
theorem has_congr (h : carried r number = carried s number) : r.has number = s.has number := by
  rw [Bool.eq_iff_iff, has_iff_carried, has_iff_carried, h]

end Record

/-- An occurrence carries one list of values only. -/
theorem FieldOf.Carries.unique {field : Field} {content : Content} {values values' : List Value}
    (h : field.Carries content values) (h' : field.Carries content values') : values = values' := by
  have he := (@LayoutOf.occurrence_iff "" field content values).mpr h
  rw [LayoutOf.occurrence_iff.mpr h'] at he
  exact (Except.ok.inj he).symm

namespace LayoutOf

variable {schema : Schema} {body other : Bytes} {fields others : List WireField} {r s : Record}

/-- What a record says of a field is what the contents of that field carry. -/
theorem forall₂_carried (h : List.Forall₂ FieldOf.Occurs (schema.named fields) r) {number : Nat}
    {field : Field} (hfield : schema.field? number = some field) :
    List.Forall₂ field.Carries (WireField.contents number fields) (Record.carried r number) := by
  induction fields generalizing r with
  | nil =>
    obtain rfl := List.forall₂_nil_left_iff.mp h
    exact .nil
  | cons f fields ih =>
    cases hf : schema.field? f.number with
    | none =>
      have hn : f.number ≠ number := by
        rintro rfl
        rw [hfield] at hf
        cases hf
      have hnamed : schema.named (f :: fields) = schema.named fields := by simp [named, hf]
      rw [WireField.contents_cons_of_ne hn]
      exact ih (hnamed ▸ h)
    | some found =>
      have hnamed : schema.named (f :: fields) = (found, f.content) :: schema.named fields := by
        simp [named, hf]
      rw [hnamed] at h
      obtain ⟨⟨number', values⟩, rest, ⟨hc, hnumber⟩, hrest, rfl⟩ := List.forall₂_cons_left_iff.mp h
      obtain rfl : found.number = number' := hnumber
      have hfound := number_of_field? hf
      by_cases hn : f.number = number
      · obtain rfl : field = found := by
          rw [← hn, hf] at hfield
          exact (Option.some.inj hfield).symm
        rw [WireField.contents_cons_of_eq hn, Record.carried_cons_of_eq (hfound.trans hn)]
        exact .cons hc (ih hrest)
      · rw [WireField.contents_cons_of_ne hn, Record.carried_cons_of_ne (hfound ▸ hn)]
        exact ih hrest

/-- Every field of a schema has a number that the schema names. -/
theorem exists_field?_of_mem {field : Field} (h : field ∈ schema.fields) :
    ∃ found, schema.field? field.number = some found := by
  rw [← Option.isSome_iff_exists, field?, List.find?_isSome]
  exact ⟨field, h, beq_self_eq_true _⟩

/-- In both lists of fields the schema finds the same contents, for each of its fields. -/
def SameContents (schema : Schema) (fields others : List WireField) : Prop :=
  ∀ field ∈ schema.fields,
    WireField.contents field.number fields = WireField.contents field.number others

/-- Two records of a schema that say the same of each of its fields. -/
def ReadAlike (schema : Schema) (r s : Record) : Prop :=
  ∀ name field, schema.lookup name = .ok field →
    r.has field.number = s.has field.number ∧ field.read r = field.read s

/-- Where a field has the same contents, it carries the same. -/
theorem carried_congr {number : Nat} {field : Field} (hfield : schema.field? number = some field)
    (hc : WireField.contents number fields = WireField.contents number others)
    (hr : List.Forall₂ FieldOf.Occurs (schema.named fields) r)
    (hs : List.Forall₂ FieldOf.Occurs (schema.named others) s) :
    Record.carried r number = Record.carried s number :=
  List.right_unique_forall₂' (fun _ _ _ h h' => h.unique h') (hc ▸ forall₂_carried hr hfield)
    (forall₂_carried hs hfield)

/-- The same contents carry the same. -/
theorem readAlike_of_same (hsame : schema.SameContents fields others)
    (hr : List.Forall₂ FieldOf.Occurs (schema.named fields) r)
    (hs : List.Forall₂ FieldOf.Occurs (schema.named others) s) : schema.ReadAlike r s := by
  intro name field hlookup
  have hmem := mem_of_lookup hlookup
  obtain ⟨found, hfound⟩ := exists_field?_of_mem hmem
  have hcarried := carried_congr hfound (hsame field hmem) hr hs
  refine ⟨Record.has_congr hcarried, FieldOf.read_congr ?_⟩
  rw [Record.values_eq_flatten, Record.values_eq_flatten, hcarried]

/-- Where each content stands among the same fields, something is carried by each of them. -/
theorem exists_occurs_of_same (hsame : schema.SameContents fields others)
    (hr : List.Forall₂ FieldOf.Occurs (schema.named fields) r) :
    ∃ s, List.Forall₂ FieldOf.Occurs (schema.named others) s := by
  refine exists_forall₂ ?_
  rintro ⟨field, content⟩ he
  obtain ⟨f, hf, hfield, rfl⟩ := mem_named.mp he
  have hnumber := number_of_field? hfield
  have hmem : f.content ∈ WireField.contents field.number others :=
    WireField.mem_contents.mpr ⟨f, hf, hnumber.symm, rfl⟩
  rw [← hsame field (mem_of_field? hfield)] at hmem
  obtain ⟨g, hg, hn, hc⟩ := WireField.mem_contents.mp hmem
  have hgfield : schema.field? g.number = some field := by rw [hn, hnumber, hfield]
  obtain ⟨occurrence, -, ho⟩ := exists_of_forall₂ hr (mem_named.mpr ⟨g, hg, hgfield, hc⟩)
  exact ⟨occurrence, ho⟩

/-- A record is what the fields carry that its body is made of. -/
theorem occurs_of_parse (hr : schema.parse body = .ok r)
    (hf : Spelled WireField.Spells fields body) :
    List.Forall₂ FieldOf.Occurs (schema.named fields) r := by
  obtain ⟨found, hfound, hoccurs⟩ := parse_eq_ok_iff.mp hr
  have hcut := (@Body.split_iff schema.name _ _).mpr hfound
  rw [Body.split_iff.mpr hf] at hcut
  cases hcut
  exact hoccurs

/-- A body with the same contents is read too, and its record says the same. -/
theorem exists_parse_of_same (hr : schema.parse body = .ok r)
    (hf : Spelled WireField.Spells fields body) (ho : Spelled WireField.Spells others other)
    (hsame : schema.SameContents fields others) :
    ∃ s, schema.parse other = .ok s ∧ schema.ReadAlike r s := by
  have hoccurs := occurs_of_parse hr hf
  obtain ⟨s, hs⟩ := exists_occurs_of_same hsame hoccurs
  exact ⟨s, parse_eq_ok_iff.mpr ⟨others, ho, hs⟩, readAlike_of_same hsame hoccurs hs⟩

/-- A field that the schema does not name changes nothing. -/
theorem sameContents_insert {f : WireField} (hf : schema.field? f.number = none) :
    schema.SameContents (fields ++ others) (fields ++ f :: others) := by
  intro field hfield
  have hn : f.number ≠ field.number := by
    intro he
    obtain ⟨found, hfound⟩ := exists_field?_of_mem hfield
    rw [← he, hf] at hfound
    cases hfound
  rw [WireField.contents_append, WireField.contents_append, WireField.contents_cons_of_ne hn]

/-- The order of the fields of a body matters only among those of one number. A body in which every
field of the schema has the same contents in the same order is read if the other is, and the two
records say the same; and a field that the schema does not name, whatever it holds, can be put
between any two fields of a body. -/
theorem parse_reordered (schema : Schema) :
    (∀ body other fields others r, schema.parse body = .ok r →
      Spelled WireField.Spells fields body → Spelled WireField.Spells others other →
      schema.SameContents fields others →
      ∃ s, schema.parse other = .ok s ∧ schema.ReadAlike r s) ∧
    ∀ before after inserted front (f : WireField) r, schema.parse (before ++ after) = .ok r →
      Spelled WireField.Spells front before → f.Spells inserted → schema.field? f.number = none →
      ∃ s, schema.parse (before ++ (inserted ++ after)) = .ok s ∧ schema.ReadAlike r s := by
  refine ⟨fun body other fields others r => exists_parse_of_same, ?_⟩
  intro before after inserted front f r hr hfront hf hunnamed
  obtain ⟨fields, hfields, -⟩ := parse_eq_ok_iff.mp hr
  obtain ⟨back, rfl, hback⟩ :=
    hfront.exists_after (Body.reads_field schema.name) WireField.not_spells_nil hfields
  have hinserted : Spelled WireField.Spells (front ++ f :: back)
      (before ++ (inserted ++ after)) :=
    hfront.append (spelled_cons.mpr ⟨inserted, after, rfl, hf, hback⟩)
  exact exists_parse_of_same hr hfields hinserted (sameContents_insert hunnamed)

/-- The links of a directory, of which two are packed. -/
def plainLinks : Bytes := [8, 5, 16, 1] ++ [18, 2, 2, 3, 24, 7]

/-- The same links in another order, with a field among them that holds what looks like links. -/
def scatteredLinks : Bytes := [24, 7, 74, 4, 8, 9, 16, 9, 16, 1, 8, 5, 18, 2, 2, 3]

def linksRecord : Record := [(1, [.int 5]), (2, [.int 1]), (2, [.int 2, .int 3]), (3, [.int 7])]

theorem parse_plainLinks : DirectoryLinks.schema.parse plainLinks = .ok linksRecord := by cbv

theorem parse_reordered_links :
    (∃ s, DirectoryLinks.schema.parse scatteredLinks = .ok s ∧
      DirectoryLinks.schema.ReadAlike linksRecord s) ∧
    ∃ s, DirectoryLinks.schema.parse
        ([8, 5, 16, 1] ++ ([74, 4, 8, 9, 16, 9] ++ [18, 2, 2, 3, 24, 7])) = .ok s ∧
      DirectoryLinks.schema.ReadAlike linksRecord s := by
  have hplain : Spelled WireField.Spells [⟨1, .varint 5⟩, ⟨2, .varint 1⟩,
      ⟨2, .delimited [2, 3]⟩, ⟨3, .varint 7⟩] plainLinks := by
    rw [← @Body.split_iff ""]
    cbv
  have hscattered : Spelled WireField.Spells [⟨3, .varint 7⟩, ⟨9, .delimited [8, 9, 16, 9]⟩,
      ⟨2, .varint 1⟩, ⟨1, .varint 5⟩, ⟨2, .delimited [2, 3]⟩] scatteredLinks := by
    rw [← @Body.split_iff ""]
    cbv
  have hfront : Spelled WireField.Spells [⟨1, .varint 5⟩, ⟨2, .varint 1⟩] [8, 5, 16, 1] := by
    rw [← @Body.split_iff ""]
    cbv
  have hunnamed : WireField.Spells ⟨9, .delimited [8, 9, 16, 9]⟩ [74, 4, 8, 9, 16, 9] :=
    ⟨[74], [4, 8, 9, 16, 9], rfl, by decide, ⟨@Varint.Groups.last 74 (by decide), by decide⟩,
      [4], rfl, @Varint.Groups.last 4 (by decide), by decide⟩
  have hsame : DirectoryLinks.schema.SameContents
      [⟨1, .varint 5⟩, ⟨2, .varint 1⟩, ⟨2, .delimited [2, 3]⟩, ⟨3, .varint 7⟩]
      [⟨3, .varint 7⟩, ⟨9, .delimited [8, 9, 16, 9]⟩, ⟨2, .varint 1⟩, ⟨1, .varint 5⟩,
        ⟨2, .delimited [2, 3]⟩] := by
    simp [SameContents, DirectoryLinks.schema, WireField.contents]
  exact ⟨(parse_reordered _).1 _ _ _ _ _ parse_plainLinks hplain hscattered hsame,
    (parse_reordered _).2 _ _ _ _ _ _ parse_plainLinks hfront hunnamed rfl⟩

end LayoutOf

end Checkpoint
