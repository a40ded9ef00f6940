import Mathlib.Algebra.Group.Int.Defs
import Mathlib.Algebra.Group.Nat.Defs
import Mathlib.Data.List.Nodup
import Checkpoint.Image.Catalog
import Checkpoint.Proofs.Bodies
import Checkpoint.Proofs.Unicode

/-! # Records written and read back

An encoding of records into bodies, and what is read from them: the record that has been written,
with every value of a field as an occurrence of its own. -/
namespace Checkpoint

/-! ## The encoding -/

/-- The bytes of a number of fixed width, lowest first. -/
def Bytes.ofWord : (width : Nat) → Nat → Bytes
  | 0, _ => []
  | width + 1, n => UInt8.ofNat n :: ofWord width (n / 256)

def Content.encode : Content → Bytes
  | varint n => Varint.encode n
  | fixed64 n => Bytes.ofWord 8 n
  | fixed32 n => Bytes.ofWord 4 n
  | delimited bytes => Varint.encode bytes.length ++ bytes

def WireField.encode (f : WireField) : Bytes :=
  Varint.encode (8 * f.number + f.content.wireType.code) ++ f.content.encode

mutual

/-- What is written for a value of the kind. A negative number is written as the word of 64 bits
that stands for it, which takes ten bytes. -/
def Value.content (kind : Kind) : Value → Content
  | .int n =>
    match kind.wireType with
    | .fixed32 => .fixed32 n.toNat
    | .fixed64 => .fixed64 n.toNat
    | .varint | .delimited => .varint (n % 2 ^ 64).toNat
  | .flag b => .varint b.toNat
  | .text s => .delimited (Utf8.encode s)
  | .bytes b => .delimited b
  | .record r =>
    match kind with
    | .message schema => .delimited ((schema.wireFields r).flatMap WireField.encode)
    | _ => .delimited []

/-- The fields that are written for a record, in its order. -/
def LayoutOf.wireFields (schema : Schema) : List (Nat × List Value) → List WireField
  | [] => []
  | (number, values) :: rest =>
    (match schema.field? number with
      | some field => field.elements values
      | none => []) ++ schema.wireFields rest

/-- The fields that are written for the values of a field, one for each of them. -/
def FieldOf.elements (field : Field) : List Value → List WireField
  | [] => []
  | value :: rest => ⟨field.number, value.content field.kind⟩ :: field.elements rest

end

/-- The body that is written for a record. -/
def LayoutOf.encode (schema : Schema) (r : Record) : Bytes :=
  (schema.wireFields r).flatMap WireField.encode

theorem FieldOf.elements_eq (field : Field) (values : List Value) :
    field.elements values = values.map fun value => ⟨field.number, value.content field.kind⟩ := by
  induction values with
  | nil => rw [elements, List.map_nil]
  | cons value rest ih => rw [elements, ih, List.map_cons]

/-! ## Values of a record type -/

/-- A value is one of the kind. -/
inductive Value.Fits : Kind → Value → Prop
  | int32 {n : Int} : -2 ^ 31 ≤ n → n < 2 ^ 31 → Fits .int32 (.int n)
  | enum {n : Int} : -2 ^ 31 ≤ n → n < 2 ^ 31 → Fits .enum (.int n)
  | int64 {n : Int} : -2 ^ 63 ≤ n → n < 2 ^ 63 → Fits .int64 (.int n)
  | fixed32 {n : Nat} : n < 2 ^ 32 → Fits .fixed32 (.int n)
  | fixed64 {n : Nat} : n < 2 ^ 64 → Fits .fixed64 (.int n)
  | bool (b : Bool) : Fits .bool (.flag b)
  | string (s : String) : Fits .string (.text s)
  | bytes (b : Bytes) : Fits .bytes (.bytes b)
  /-- Every field that is set is one of the schema, and it has at least one value, a single field
  exactly one. -/
  | message {schema : Schema} {r : Record} : (r.map Prod.fst).Nodup →
      (∀ occurrence ∈ r, ∃ field, schema.field? occurrence.1 = some field ∧
        occurrence.2 ≠ [] ∧ (field.repeated = false → ∃ value, occurrence.2 = [value])) →
      (∀ occurrence ∈ r, ∀ field, schema.field? occurrence.1 = some field →
        ∀ value ∈ occurrence.2, Fits field.kind value) →
      Fits (.message schema) (.record r)

/-- Two values that read alike: they are equal, or records with the same fields set to values that
read alike. -/
inductive Value.Same : Value → Value → Prop
  | int (n : Int) : Same (.int n) (.int n)
  | flag (b : Bool) : Same (.flag b) (.flag b)
  | text (s : String) : Same (.text s) (.text s)
  | bytes (b : Bytes) : Same (.bytes b) (.bytes b)
  | record {a b : Record} : (∀ number, a.has number = b.has number) →
      (∀ number, List.Forall₂ Same (a.values number) (b.values number)) →
      Same (.record a) (.record b)

/-! ## Spelling what is written -/

theorem Varint.groups_encode (n : Nat) : Groups n (encode n) := by
  induction n using encode.induct with
  | case1 n h =>
    have hb : (UInt8.ofNat n).toNat = n := Utf8.toNat_ofNat_of_lt (by omega)
    have hg := @Groups.last (UInt8.ofNat n) (by rw [hb]; exact h)
    rw [hb] at hg
    rw [encode, if_pos h]
    exact hg
  | case2 n h ih =>
    have hb : (UInt8.ofNat (n % 128 + 128)).toNat = n % 128 + 128 :=
      Utf8.toNat_ofNat_of_lt (by omega)
    have hn : n % 128 + 128 - 128 + 128 * (n / 128) = n := by omega
    have hg := @Groups.more (UInt8.ofNat (n % 128 + 128)) _ _ (by rw [hb]; omega) ih
    rw [hb, hn] at hg
    rw [encode, if_neg h]
    exact hg

theorem Varint.length_encode_le {limit n : Nat} (h : n < 128 ^ (limit + 1)) :
    (encode n).length ≤ limit + 1 := by
  induction limit generalizing n with
  | zero =>
    rw [encode, if_pos (by simpa using h)]
    exact Nat.le_refl _
  | succ limit ih =>
    rw [encode]
    split
    · simp
    · have hd : n / 128 < 128 ^ (limit + 1) := by
        rw [Nat.div_lt_iff_lt_mul (by decide)]
        exact h
      have hl := ih hd
      rw [List.length_cons]
      omega

/-- A number below 2^70 has a varint. -/
theorem Varint.spells_encode {n : Nat} (h : n < 2 ^ 70) : Spells n (encode n) :=
  ⟨groups_encode n, length_encode_le h⟩

theorem Bytes.word_ofWord {width n : Nat} (h : n < 256 ^ width) :
    Word width n (ofWord width n) := by
  induction width generalizing n with
  | zero =>
    obtain rfl : n = 0 := by simpa using h
    exact ⟨rfl, rfl⟩
  | succ width ih =>
    have hd : n / 256 < 256 ^ width := by
      rw [Nat.div_lt_iff_lt_mul (by decide)]
      exact h
    obtain ⟨hl, hv⟩ := ih hd
    have hb : (UInt8.ofNat n).toNat = n % 256 := UInt8.toNat_ofNat'
    refine ⟨by rw [ofWord, List.length_cons, hl], ?_⟩
    rw [ofWord, littleEndian, hv, hb]
    omega

/-- The numbers of a content are in the ranges of its wire type. -/
def Content.Bounded : Content → Prop
  | varint n => n < 2 ^ 70
  | fixed64 n => n < 2 ^ 64
  | fixed32 n => n < 2 ^ 32
  | delimited bytes => bytes.length < 2 ^ 70

theorem Content.spells_encode {c : Content} (h : c.Bounded) : c.Spells c.encode := by
  cases c with
  | varint n => exact Varint.spells_encode h
  | fixed64 n => exact Bytes.word_ofWord h
  | fixed32 n => exact Bytes.word_ofWord h
  | delimited bytes => exact ⟨_, rfl, Varint.spells_encode h⟩

namespace WireField

theorem spells_encode {f : WireField} (hn : 0 < f.number) (hl : f.number < 2 ^ 29)
    (h : f.content.Bounded) : f.Spells f.encode := by
  have hc := f.content.wireType.code_lt
  exact ⟨_, _, rfl, hn, Varint.spells_encode (by omega), Content.spells_encode h⟩

theorem spelled_flatMap {fields : List WireField} (h : ∀ f ∈ fields, f.Spells f.encode) :
    Spelled Spells fields (fields.flatMap encode) :=
  ⟨fields.map encode, List.forall₂_map_right_iff.mpr (List.forall₂_same.mpr h), rfl⟩

/-- What stands inside a field is shorter than all the fields together. -/
theorem length_le_flatMap {fields : List WireField} {f : WireField} (hf : f ∈ fields)
    {bytes : Bytes} (hc : f.content = .delimited bytes) :
    bytes.length ≤ (fields.flatMap encode).length := by
  obtain ⟨before, after, rfl⟩ := List.append_of_mem hf
  have he : bytes.length ≤ f.encode.length := by
    rw [encode, hc, Content.encode]
    simp only [List.length_append]
    omega
  simp only [List.flatMap_append, List.flatMap_cons, List.length_append]
  omega

end WireField

/-! ## Reading what is written -/

/-- The lowest bits of a number in the signed range of the width stand for it. -/
theorem signedWord_of_lt {bits : Nat} (hb : bits = 32 ∨ bits = 64) {n : Int}
    (h : -2 ^ (bits - 1) ≤ n) (h' : n < 2 ^ (bits - 1)) :
    signedWord bits (n % 2 ^ 64).toNat = n := by
  unfold signedWord
  rcases hb with rfl | rfl
  · simp only [Nat.reduceSub, Int.reducePow, Nat.reduceShiftLeft] at h h' ⊢
    split <;> omega
  · simp only [Nat.reduceSub, Int.reducePow, Nat.reduceShiftLeft] at h h' ⊢
    split <;> omega

/-- What is written for a value can be read as the value, whatever field of the kind it is in. -/
def Value.Carried (kind : Kind) (value : Value) : Prop :=
  (value.content kind).Bounded ∧ ∀ field : Field, field.kind = kind →
    ∃ read, field.Carries (value.content kind) [read] ∧ read.Same value

theorem Value.Carried.of_number {kind : Kind} {value : Value} {n : Nat}
    (hb : (value.content kind).Bounded) (hw : (value.content kind).wireType = kind.wireType)
    (hn : (value.content kind).number? = some n) (hv : (kind.ofNumber n).Same value) :
    value.Carried kind := by
  refine ⟨hb, fun field hk => ?_⟩
  subst hk
  exact ⟨_, .number hw hn, hv⟩

/-- Every field that is set is one of the schema and has values, all of which can be read back. -/
def LayoutOf.Carried (schema : Schema) (r : Record) : Prop :=
  ∀ occurrence ∈ r, ∃ field, schema.field? occurrence.1 = some field ∧
    occurrence.2 ≠ [] ∧ ∀ value ∈ occurrence.2, value.Carried field.kind

theorem Value.same_record_iff {a b : Record} : (record a).Same (record b) ↔
    ∀ number, a.has number = b.has number ∧
      List.Forall₂ Same (a.values number) (b.values number) := by
  constructor
  · intro h number
    cases h with
    | record hhas hvalues => exact ⟨hhas number, hvalues number⟩
  · intro h
    exact .record (fun number => (h number).1) fun number => (h number).2

namespace LayoutOf

variable {schema : Schema} {r : Record}

/-- The fields have different numbers, from 1 to those of 29 bits, and so have the fields of the
records inside. -/
inductive Numbered : Schema → Prop
  | of_fields {schema : Schema} : (schema.fields.map FieldOf.number).Nodup →
      (∀ field ∈ schema.fields, 0 < field.number ∧ field.number < 2 ^ 29) →
      (∀ field ∈ schema.fields, ∀ inner, field.kind = .message inner → Numbered inner) →
      Numbered schema

/-- The same of records that are nested less than `depth` deep. -/
def numberedWithin : (depth : Nat) → Schema → Bool
  | 0, _ => false
  | depth + 1, schema =>
    decide (schema.fields.map FieldOf.number).Nodup && schema.fields.all fun field =>
      decide (0 < field.number ∧ field.number < 2 ^ 29) &&
        match field.kind with
        | .message inner => numberedWithin depth inner
        | _ => true

theorem Numbered.of_within {depth : Nat} (h : numberedWithin depth schema = true) :
    schema.Numbered := by
  induction depth generalizing schema with
  | zero => cases h
  | succ depth ih =>
    simp only [numberedWithin, Bool.and_eq_true, decide_eq_true_eq, List.all_eq_true] at h
    refine .of_fields h.1 (fun field hf => (h.2 field hf).1) fun field hf inner hk => ih ?_
    have hi := (h.2 field hf).2
    rw [hk] at hi
    exact hi

theorem Numbered.inner (h : schema.Numbered) {field : Field} (hf : field ∈ schema.fields)
    {inner : Schema} (hk : field.kind = .message inner) : inner.Numbered := by
  cases h with
  | of_fields _ _ hi => exact hi field hf inner hk

theorem mem_of_field? {number : Nat} {field : Field} (h : schema.field? number = some field) :
    field ∈ schema.fields :=
  List.mem_of_find?_eq_some h

theorem mem_wireFields {f : WireField} : f ∈ schema.wireFields r ↔ ∃ occurrence ∈ r, ∃ field,
    schema.field? occurrence.1 = some field ∧ ∃ value ∈ occurrence.2,
      f = ⟨field.number, value.content field.kind⟩ := by
  induction r with
  | nil => simp [wireFields]
  | cons occurrence rest ih =>
    obtain ⟨number, values⟩ := occurrence
    rw [wireFields, List.mem_append, ih]
    cases hf : schema.field? number with
    | none => simp [hf]
    | some field => simp [hf, FieldOf.elements_eq, eq_comm]

/-- The values of a field are read back, each as an occurrence of its own. -/
theorem exists_occurs_elements {field : Field} (hf : schema.field? field.number = some field)
    {values : List Value} (hc : ∀ value ∈ values, value.Carried field.kind) :
    ∃ found, List.Forall₂ Value.Same found values ∧ List.Forall₂ FieldOf.Occurs
      (schema.named (field.elements values)) (found.map fun read => (field.number, [read])) := by
  induction values with
  | nil => exact ⟨[], .nil, .nil⟩
  | cons value rest ih =>
    obtain ⟨hv, hrest⟩ := List.forall_mem_cons.mp hc
    obtain ⟨found, hs, ho⟩ := ih hrest
    obtain ⟨read, hr, he⟩ := hv.2 field rfl
    refine ⟨read :: found, .cons he hs, ?_⟩
    simp only [FieldOf.elements, named, List.filterMap_cons, hf, Option.map_some, List.map_cons]
    exact .cons ⟨hr, rfl⟩ ho

end LayoutOf

namespace Record

variable {number other : Nat} {found : List Value}

theorem values_of_each :
    values (found.map fun value => (number, [value])) number = found := by
  induction found with
  | nil => rfl
  | cons value found ih =>
    rw [List.map_cons, ← List.singleton_append, values_append, values_single, ih,
      List.singleton_append]

theorem values_of_each_of_ne (h : number ≠ other) :
    values (found.map fun value => (number, [value])) other = [] := by
  refine values_of_not_has ?_
  simp [has, h]

theorem has_of_each :
    has (found.map fun value => (number, [value])) other = (number == other && !found.isEmpty) := by
  induction found with
  | nil => simp [has]
  | cons value found ih =>
    rw [List.map_cons, ← List.singleton_append, has_append, ih]
    cases hn : number == other <;> simp [has, hn]

end Record

namespace LayoutOf

variable {schema : Schema} {r : Record}

/-- The fields of a record are read back one after the other. -/
theorem exists_occurs_wireFields (hr : schema.Carried r) :
    ∃ found, List.Forall₂ FieldOf.Occurs (schema.named (schema.wireFields r)) found ∧
      (Value.record found).Same (.record r) := by
  induction r with
  | nil => exact ⟨[], .nil, .record (fun _ => rfl) fun _ => .nil⟩
  | cons occurrence rest ih =>
    obtain ⟨number, values⟩ := occurrence
    obtain ⟨⟨field, hf, hne, hc⟩, hrest⟩ := List.forall_mem_cons.mp hr
    obtain ⟨after, hafter, hsame⟩ := ih hrest
    dsimp only at hf hne hc
    obtain rfl := number_of_field? hf
    obtain ⟨found, hvalues, hfound⟩ := exists_occurs_elements hf hc
    have hempty : found.isEmpty = false := by
      cases hvalues with
      | nil => exact absurd rfl hne
      | cons _ _ => rfl
    refine ⟨found.map (fun read => (field.number, [read])) ++ after, ?_, ?_⟩
    · rw [wireFields, hf, named, List.filterMap_append]
      exact List.rel_append hfound hafter
    · refine Value.same_record_iff.mpr fun number => ?_
      obtain ⟨hhas, hread⟩ := Value.same_record_iff.mp hsame number
      rw [← List.singleton_append, Record.has_append, Record.has_append, Record.values_append,
        Record.values_append, Record.has_of_each, hempty, hhas]
      refine ⟨by simp [Record.has], List.rel_append ?_ hread⟩
      by_cases hn : field.number = number
      · subst hn
        rw [Record.values_of_each, Record.values_single]
        exact hvalues
      · rw [Record.values_single_of_ne hn, Record.values_of_each_of_ne hn]
        exact .nil

/-- What is written for a record is read as a record with the same fields and values. -/
theorem exists_parse_encode (hnumbered : schema.Numbered) (hr : schema.Carried r) :
    ∃ found, schema.parse (schema.encode r) = .ok found ∧
      (Value.record found).Same (.record r) := by
  obtain ⟨found, ho, hsame⟩ := exists_occurs_wireFields hr
  refine ⟨found, parse_eq_ok_iff.mpr ⟨_, WireField.spelled_flatMap ?_, ho⟩, hsame⟩
  intro f hf
  obtain ⟨occurrence, hm, field, hfield, value, hv, rfl⟩ := mem_wireFields.mp hf
  obtain ⟨field', hfield', -, hc⟩ := hr occurrence hm
  rw [hfield] at hfield'
  cases hfield'
  cases hnumbered with
  | of_fields _ hn _ =>
    obtain ⟨hpos, hlt⟩ := hn field (mem_of_field? hfield)
    exact WireField.spells_encode hpos hlt (hc value hv).1

end LayoutOf

theorem Value.content_record (schema : Schema) (r : Record) :
    (record r).content (.message schema) = .delimited (schema.encode r) := by
  rw [content, LayoutOf.encode]

/-- What is written for a value of a record is no longer than what is written for the record. -/
theorem LayoutOf.length_le_encode {schema : Schema} {r : Record} {occurrence : Nat × List Value}
    (ho : occurrence ∈ r) {field : Field} (hf : schema.field? occurrence.1 = some field)
    {value : Value} (hv : value ∈ occurrence.2) {bytes : Bytes}
    (hc : value.content field.kind = .delimited bytes) :
    bytes.length ≤ (schema.encode r).length :=
  WireField.length_le_flatMap (mem_wireFields.mpr ⟨occurrence, ho, field, hf, value, hv, rfl⟩) hc

/-- What is written for a value is not too long for a length in front of it, and the record types
that it may be of are numbered. -/
structure Value.Writable (kind : Kind) (value : Value) : Prop where
  numbered : ∀ schema, kind = .message schema → schema.Numbered
  short : ∀ bytes, value.content kind = .delimited bytes → bytes.length < 2 ^ 70

/-- The values of a record can be read back if what is written for the record is not too long. -/
theorem LayoutOf.carried_of_length {schema : Schema} {r : Record} (hnumbered : schema.Numbered)
    (hl : (schema.encode r).length < 2 ^ 70)
    (hset : ∀ occurrence ∈ r, ∃ field, schema.field? occurrence.1 = some field ∧
      occurrence.2 ≠ [] ∧ (field.repeated = false → ∃ value, occurrence.2 = [value]))
    (hc : ∀ occurrence ∈ r, ∀ field, schema.field? occurrence.1 = some field →
      ∀ value ∈ occurrence.2, value.Writable field.kind → value.Carried field.kind) :
    schema.Carried r := by
  intro occurrence ho
  obtain ⟨field, hf, hne, -⟩ := hset occurrence ho
  refine ⟨field, hf, hne, fun value hv => hc occurrence ho field hf value hv ⟨?_, ?_⟩⟩
  · exact fun inner hk => hnumbered.inner (mem_of_field? hf) hk
  · exact fun bytes hb => Nat.lt_of_le_of_lt (length_le_encode ho hf hv hb) hl

/-- A value that is a number or a truth value is written as a number for which the reader takes it. -/
theorem Value.Fits.exists_number {kind : Kind} {value : Value} (h : value.Fits kind)
    (hk : kind.wireType ≠ .delimited) : (value.content kind).wireType = kind.wireType ∧
      (value.content kind).Bounded ∧
        ∃ n, (value.content kind).number? = some n ∧ kind.ofNumber n = value := by
  cases h with
  -- a varint holds a word of 64 bits, of which the reader keeps as many as the kind has
  | @int32 n h h' | @enum n h h' =>
    have hb : (n % 2 ^ 64).toNat < 2 ^ 70 := by omega
    exact ⟨rfl, hb, _, rfl, congrArg Value.int (signedWord_of_lt (.inl rfl) h h')⟩
  | @int64 n h h' =>
    have hb : (n % 2 ^ 64).toNat < 2 ^ 70 := by omega
    exact ⟨rfl, hb, _, rfl, congrArg Value.int (signedWord_of_lt (.inr rfl) h h')⟩
  | @fixed32 n h => exact ⟨rfl, h, n, rfl, rfl⟩
  | @fixed64 n h => exact ⟨rfl, h, n, rfl, rfl⟩
  | bool b => cases b <;> exact ⟨rfl, show _ < 2 ^ 70 by decide, _, rfl, rfl⟩
  | string | bytes | message => exact absurd rfl hk

theorem Kind.same_ofNumber (kind : Kind) (n : Nat) : (kind.ofNumber n).Same (kind.ofNumber n) := by
  cases kind with
  | bool => exact .flag _
  | int32 | int64 | enum | fixed32 | fixed64 | string | bytes | message _ => exact .int _

theorem Value.Fits.carried_of_number {kind : Kind} {value : Value} (h : value.Fits kind)
    (hk : kind.wireType ≠ .delimited) : value.Carried kind := by
  obtain ⟨hw, hb, n, hn, rfl⟩ := h.exists_number hk
  exact .of_number hb hw hn (kind.same_ofNumber n)

/-- A value of a kind is read back. -/
theorem Value.Fits.carried {kind : Kind} {value : Value} (h : value.Fits kind)
    (hw : value.Writable kind) : value.Carried kind := by
  induction h with
  | int32 h h' => exact (Fits.int32 h h').carried_of_number nofun
  | enum h h' => exact (Fits.enum h h').carried_of_number nofun
  | int64 h h' => exact (Fits.int64 h h').carried_of_number nofun
  | fixed32 h => exact (Fits.fixed32 h).carried_of_number nofun
  | fixed64 h => exact (Fits.fixed64 h).carried_of_number nofun
  | bool b => exact (Fits.bool b).carried_of_number nofun
  | string s =>
    refine ⟨hw.short _ rfl, fun field hk => ⟨_, .text hk, ?_⟩⟩
    rw [Utf8.decodeLossy_encode]
    exact .text s
  | bytes b => exact ⟨hw.short _ rfl, fun field hk => ⟨_, .bytes hk, .bytes b⟩⟩
  | @message schema r hnodup hset hfits ih =>
    have hnumbered := hw.numbered schema rfl
    have hbody := hw.short _ (content_record schema r)
    obtain ⟨found, hp, hsame⟩ := LayoutOf.exists_parse_encode hnumbered
      (LayoutOf.carried_of_length hnumbered hbody hset ih)
    unfold Carried
    rw [content_record]
    exact ⟨hbody, fun field hk => ⟨.record found, .record hk hp, hsame⟩⟩

namespace LayoutOf

variable {schema : Schema} {r : Record}

theorem numbered_of_mem_catalog (h : schema ∈ Catalog.schemas) : schema.Numbered := by
  have hall : Catalog.schemas.all (numberedWithin 6) = true := by decide
  exact .of_within (List.all_eq_true.mp hall schema h)

theorem Numbered.field?_number (h : schema.Numbered) {field : Field}
    (hf : field ∈ schema.fields) : schema.field? field.number = some field := by
  cases h with
  | of_fields hnodup _ _ =>
    cases hfound : schema.field? field.number with
    | none => simpa using List.find?_eq_none.mp hfound field hf
    | some other =>
      rw [List.inj_on_of_nodup_map hnodup (mem_of_field? hfound) hf (number_of_field? hfound)]

theorem mem_of_lookup {name : String} {field : Field} (h : schema.lookup name = .ok field) :
    field ∈ schema.fields := by
  unfold lookup fieldNamed? at h
  split at h
  · rename_i found hf
    cases h
    exact List.mem_of_find?_eq_some hf
  · cases h

/-- A field that is found under a name has that name. -/
theorem name_of_lookup {name : String} {field : Field} (h : schema.lookup name = .ok field) :
    field.name = name := by
  unfold lookup fieldNamed? at h
  split at h
  · rename_i found hf
    cases h
    simpa using List.find?_some hf
  · cases h

end LayoutOf

namespace Record

variable {r : Record} {number : Nat} {values : List Value}

/-- A field that occurs once has the values of that occurrence. -/
theorem values_of_mem (hnodup : (r.map Prod.fst).Nodup) (hm : (number, values) ∈ r) :
    Record.values r number = values := by
  induction r with
  | nil => cases hm
  | cons occurrence rest ih =>
    obtain ⟨other, others⟩ := occurrence
    obtain ⟨hother, hrest⟩ := List.nodup_cons.mp hnodup
    rw [← List.singleton_append, values_append]
    rcases List.mem_cons.mp hm with he | hm
    · obtain ⟨rfl, rfl⟩ := Prod.mk.inj he
      have hhas : has rest number = false := by
        rw [Bool.eq_false_iff]
        intro hh
        obtain ⟨later, hm⟩ := has_iff_exists_mem.mp hh
        exact hother (List.mem_map.mpr ⟨_, hm, rfl⟩)
      rw [values_single, values_of_not_has hhas, List.append_nil]
    · have hn : other ≠ number := by
        rintro rfl
        exact hother (List.mem_map.mpr ⟨_, hm, rfl⟩)
      rw [values_single_of_ne hn, ih hrest hm, List.nil_append]

end Record

/-- A record is read back. -/
theorem Value.Fits.exists_parse {schema : Schema} {r : Record}
    (h : (Value.record r).Fits (.message schema)) (hnumbered : schema.Numbered)
    (hl : (schema.encode r).length < 2 ^ 70) :
    ∃ found, schema.parse (schema.encode r) = .ok found ∧
      (Value.record found).Same (.record r) := by
  cases h with
  | message hnodup hset hfits =>
    exact LayoutOf.exists_parse_encode hnumbered (LayoutOf.carried_of_length hnumbered hl hset
      fun occurrence ho field hf value hv => (hfits occurrence ho field hf value hv).carried)

namespace LayoutOf

/-- A record of any type is read back from what is written for it: exactly the fields that are set
occur, each of them reads as its value, and every other field reads as if nothing had been said of
it. A varint has no room for a length of 2^70 bytes or more. -/
theorem parse_encode {schema : Schema} (hs : schema ∈ Catalog.schemas) {r : Record}
    (hr : (Value.record r).Fits (.message schema)) (hl : (schema.encode r).length < 2 ^ 70) :
    ∃ found, schema.parse (schema.encode r) = .ok found ∧
      (∀ number, Record.has found number = true ↔ ∃ values, (number, values) ∈ r) ∧
      ∀ name field, schema.lookup name = .ok field →
        (∀ values, (field.number, values) ∈ r →
          if field.repeated then
            ∃ read, field.read found = .many read ∧ List.Forall₂ Value.Same read values
          else
            ∃ value read, values = [value] ∧ field.read found = .one read ∧ read.Same value) ∧
        ((∀ values, (field.number, values) ∉ r) → field.read found = field.unset) := by
  have hnumbered := numbered_of_mem_catalog hs
  obtain ⟨found, hp, hsame⟩ := hr.exists_parse hnumbered hl
  have hsame := Value.same_record_iff.mp hsame
  have hhas : ∀ number, Record.has found number = true ↔ ∃ values, (number, values) ∈ r := by
    intro number
    rw [(hsame number).1, Record.has_iff_exists_mem]
  refine ⟨found, hp, hhas, fun name field hlookup => ⟨fun values hm => ?_, fun hm => ?_⟩⟩
  · have hfield := hnumbered.field?_number (mem_of_lookup hlookup)
    have hread := (hsame field.number).2
    cases hr with
    | message hnodup hset _ =>
      rw [Record.values_of_mem hnodup hm] at hread
      obtain ⟨other, hother, -, hsingle⟩ := hset _ hm
      obtain rfl : field = other := Option.some.inj (hfield.symm.trans hother)
      cases hrep : field.repeated with
      | true =>
        rw [if_pos rfl]
        exact ⟨_, FieldOf.read_of_repeated hrep found, hread⟩
      | false =>
        rw [if_neg Bool.false_ne_true]
        obtain ⟨value, rfl⟩ := hsingle hrep
        obtain ⟨read, rest, hvalue, hrest, hvalues⟩ := List.forall₂_cons_right_iff.mp hread
        obtain rfl := List.forall₂_nil_right_iff.mp hrest
        exact ⟨value, read, rfl, FieldOf.read_of_single hrep (by rw [hvalues]; rfl), hvalue⟩
  · refine FieldOf.read_of_not_has (Bool.eq_false_iff.mpr fun hh => ?_)
    obtain ⟨values, hv⟩ := (hhas _).mp hh
    exact hm values hv

/-- Two quotas, one without a limit and one without a type of storage. -/
def twoQuotas : Record :=
  [(1, [.record [(2, [.int (-1)]), (1, [.int 3])], .record [(2, [.int 4096])]])]

theorem fits_twoQuotas : (Value.record twoQuotas).Fits (.message TypeQuota.listSchema) := by
  have hunlimited : (Value.record [(2, [.int (-1)]), (1, [.int 3])]).Fits
      (.message TypeQuota.schema) := by
    refine .message (by decide) (by simp [TypeQuota.schema, field?]) ?_
    simpa [TypeQuota.schema, field?] using
      And.intro (.int64 (by decide) (by decide)) (.enum (by decide) (by decide))
  have huntyped : (Value.record [(2, [.int 4096])]).Fits (.message TypeQuota.schema) := by
    refine .message (by decide) (by simp [TypeQuota.schema, field?]) ?_
    simpa [TypeQuota.schema, field?] using Value.Fits.int64 (by decide) (by decide)
  refine .message (by decide) (by simp [twoQuotas, TypeQuota.listSchema, field?]) ?_
  simpa [twoQuotas, TypeQuota.listSchema, field?] using And.intro hunlimited huntyped

theorem parse_encode_twoQuotas : TypeQuota.listSchema ∈ Catalog.schemas ∧
    (Value.record twoQuotas).Fits (.message TypeQuota.listSchema) ∧
    (TypeQuota.listSchema.encode twoQuotas).length < 2 ^ 70 ∧
    ∃ found, TypeQuota.listSchema.parse (TypeQuota.listSchema.encode twoQuotas) = .ok found ∧
      (∀ number, Record.has found number = true ↔ ∃ values, (number, values) ∈ twoQuotas) ∧
      ∀ name field, TypeQuota.listSchema.lookup name = .ok field →
        (∀ values, (field.number, values) ∈ twoQuotas →
          if field.repeated then
            ∃ read, field.read found = .many read ∧ List.Forall₂ Value.Same read values
          else
            ∃ value read, values = [value] ∧ field.read found = .one read ∧ read.Same value) ∧
        ((∀ values, (field.number, values) ∉ twoQuotas) → field.read found = field.unset) := by
  have hs : TypeQuota.listSchema ∈ Catalog.schemas := by simp [Catalog.schemas]
  have hl : (TypeQuota.listSchema.encode twoQuotas).length < 2 ^ 70 := by decide +kernel
  exact ⟨hs, fits_twoQuotas, hl, parse_encode hs fits_twoQuotas hl⟩

end LayoutOf

end Checkpoint
