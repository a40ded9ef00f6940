import Mathlib.Data.List.Induction
import Mathlib.Logic.Function.Basic
import Checkpoint.Proofs.Container
import Checkpoint.Proofs.Fields
import Checkpoint.Wire.Reading

/-! # The grammar of record bodies

Which bodies a schema admits, said without reading them, and what the fields of a record read as: a
single field as what it carried last, a repeated field as all that it carried. -/
namespace Checkpoint

/-! ## Reading element by element -/

section MapM

variable {α β ε : Type} {f g : α → Except ε β}

/-- Elements are mapped to a list if each of them is mapped to its element. -/
theorem mapM_eq_ok_iff {as : List α} {bs : List β} :
    as.mapM f = .ok bs ↔ List.Forall₂ (fun a b => f a = .ok b) as bs := by
  induction as generalizing bs with
  | nil =>
    rw [List.mapM_nil, List.forall₂_nil_left_iff]
    exact ⟨fun h => (Except.ok.inj h).symm, fun h => h ▸ rfl⟩
  | cons a as ih =>
    rw [List.mapM_cons, List.forall₂_cons_left_iff]
    constructor
    · intro h
      obtain ⟨b, hb, h⟩ := Summary.ok_of_bind h
      obtain ⟨rest, hr, h⟩ := Summary.ok_of_bind h
      exact ⟨b, rest, hb, ih.mp hr, (Except.ok.inj h).symm⟩
    · rintro ⟨b, rest, hb, hr, rfl⟩
      rw [hb, ih.mpr hr]
      rfl

theorem mapM_congr {as : List α} (h : ∀ a ∈ as, f a = g a) : as.mapM f = as.mapM g := by
  induction as with
  | nil => rfl
  | cons a as ih =>
    obtain ⟨ha, has⟩ := List.forall_mem_cons.mp h
    rw [List.mapM_cons, List.mapM_cons, ha, ih has]

variable {R : α → β → Prop} {as : List α} {bs : List β}

theorem exists_of_forall₂ (h : List.Forall₂ R as bs) {a : α} (ha : a ∈ as) : ∃ b ∈ bs, R a b := by
  induction h with
  | nil => cases ha
  | cons hr _ ih =>
    rcases List.mem_cons.mp ha with rfl | ha
    · exact ⟨_, List.mem_cons_self, hr⟩
    · obtain ⟨b, hb, hr⟩ := ih ha
      exact ⟨b, List.mem_cons_of_mem _ hb, hr⟩

theorem exists_forall₂ (h : ∀ a ∈ as, ∃ b, R a b) : ∃ bs, List.Forall₂ R as bs := by
  induction as with
  | nil => exact ⟨[], .nil⟩
  | cons a as ih =>
    obtain ⟨ha, has⟩ := List.forall_mem_cons.mp h
    obtain ⟨b, hb⟩ := ha
    obtain ⟨bs, hbs⟩ := ih has
    exact ⟨b :: bs, .cons hb hbs⟩

end MapM

namespace LayoutOf

variable {schema : Schema} {body : Bytes}

theorem mem_named {fields : List WireField} {field : Field} {content : Content} :
    (field, content) ∈ schema.named fields ↔
      ∃ f ∈ fields, schema.field? f.number = some field ∧ f.content = content := by
  simp [named]

/-! ## Nesting -/

/-- Inner bodies matter to the reading of a field only where its content is one. -/
theorem occurrence_congr {nested nested' : Schema → Bytes → Except RecordProblem Record}
    {record : String} {field : Field} {content : Content}
    (h : ∀ inner bytes, content = .delimited bytes → nested inner bytes = nested' inner bytes) :
    occurrence nested record field content = occurrence nested' record field content := by
  cases content with
  | varint n | fixed64 n | fixed32 n =>
    unfold occurrence
    cases field.kind <;> rfl
  | delimited bytes =>
    unfold occurrence
    cases field.kind with
    | message inner =>
      dsimp only
      rw [h inner bytes rfl]
    | int32 | int64 | bool | enum | fixed32 | fixed64 | string | bytes => rfl

/-- The values of the fields of a body, with `nested` reading inner bodies. -/
def readFields (nested : Schema → Bytes → Except RecordProblem Record) (schema : Schema)
    (fields : List WireField) : Except RecordProblem Record :=
  (schema.named fields).mapM fun (field, content) =>
    (occurrence nested schema.name field content).map (field.number, ·)

/-- Only bodies that are shorter are read inside a body. -/
theorem readFields_congr {nested nested' : Schema → Bytes → Except RecordProblem Record}
    (h : ∀ inner bytes, bytes.length < body.length → nested inner bytes = nested' inner bytes) :
    readFields nested schema (Body.split schema.name body).fields =
      readFields nested' schema (Body.split schema.name body).fields := by
  refine mapM_congr ?_
  rintro ⟨field, content⟩ hm
  obtain ⟨f, hf, -, rfl⟩ := mem_named.mp hm
  have ho : occurrence nested schema.name field f.content =
      occurrence nested' schema.name field f.content :=
    occurrence_congr fun inner bytes hc => h inner bytes (Body.length_lt_of_mem_split hf hc)
  dsimp only
  rw [ho]

/-- What is read does not depend on the depth that is allowed, if it is enough for the body. -/
theorem parseWithin_eq {depth : Nat} (h : body.length < depth) :
    parseWithin depth schema body = schema.parse body := by
  induction hn : body.length using Nat.strongRecOn generalizing depth schema body with
  | _ n ih =>
    subst hn
    obtain ⟨depth, rfl⟩ : ∃ d, depth = d + 1 := ⟨depth - 1, by omega⟩
    have hf : readFields (parseWithin depth) schema (Body.split schema.name body).fields =
        readFields (parseWithin body.length) schema (Body.split schema.name body).fields := by
      refine readFields_congr fun inner bytes hl => ?_
      rw [ih _ hl (by omega) rfl, ih _ hl hl rfl]
    exact congrArg (· >>= _) hf

/-- A body is read by cutting it into fields and reading each of them. -/
theorem parse_eq (schema : Schema) (body : Bytes) : schema.parse body =
    readFields parse schema (Body.split schema.name body).fields >>= fun record =>
      match (Body.split schema.name body).problem with
      | none => .ok record
      | some problem => .error problem := by
  have hf : readFields (parseWithin body.length) schema (Body.split schema.name body).fields =
      readFields parse schema (Body.split schema.name body).fields :=
    readFields_congr fun inner bytes hl => parseWithin_eq hl
  exact congrArg (· >>= _) hf

end LayoutOf

/-! ## What a field carries -/

/-- The number on the wire, where there is one. -/
def Content.number? : Content → Option Nat
  | .varint n | .fixed64 n | .fixed32 n => some n
  | .delimited _ => none

/-- The bytes are a number of the kind among others that are packed. -/
def Kind.Packs (kind : Kind) (n : Nat) : Bytes → Prop :=
  match kind.wireType with
  | .varint => Varint.Spells n
  | .fixed32 => Bytes.Word 4 n
  | .fixed64 => Bytes.Word 8 n
  | .delimited => fun _ => False

namespace FieldOf

/-- The values that one occurrence of a field carries: one value, or those of packed numbers. -/
inductive Carries (field : Field) : Content → List Value → Prop
  | number {content n} : content.wireType = field.kind.wireType → content.number? = some n →
      Carries field content [field.kind.ofNumber n]
  | packed {bytes ns} : field.repeated = true → field.kind.wireType ≠ .delimited →
      Spelled field.kind.Packs ns bytes →
      Carries field (.delimited bytes) (ns.map field.kind.ofNumber)
  | text {bytes} : field.kind = .string →
      Carries field (.delimited bytes) [.text (Utf8.decodeLossy bytes)]
  | bytes {bytes} : field.kind = .bytes → Carries field (.delimited bytes) [.bytes bytes]
  | record {inner bytes r} : field.kind = .message inner → inner.parse bytes = .ok r →
      Carries field (.delimited bytes) [.record r]

/-- A content is written as the kind of the field is, or it packs numbers of a repeated field. -/
def Suits (field : Field) (content : Content) : Prop :=
  content.wireType = field.kind.wireType ∨ field.repeated = true ∧
    field.kind.wireType ≠ .delimited ∧ ∃ bytes ns, content = .delimited bytes ∧
      Spelled field.kind.Packs ns bytes

/-- An occurrence in a record is of the field and has the values that the content carries. -/
def Occurs (entry : Field × Content) (occurrence : Nat × List Value) : Prop :=
  entry.1.Carries entry.2 occurrence.2 ∧ entry.1.number = occurrence.1

end FieldOf

namespace LayoutOf

variable {schema : Schema} {body : Bytes}

theorem words_iff {record field : String} {packed : Bytes} {width : Nat} (hw : 0 < width)
    {ns : List Nat} :
    unpack.words record field packed width = .ok ns ↔ Spelled (Bytes.Word width) ns packed := by
  rw [Bytes.spelled_word_iff hw, unpack.words]
  split
  · rename_i hm
    exact ⟨nofun, fun h => absurd h.1 hm⟩
  · rename_i hm
    simp [Decidable.not_not.mp hm]

/-- Numbers are unpacked from whole numbers of the kind, one after the other. -/
theorem unpack_iff {record field : String} {kind : Kind} (hk : kind.wireType ≠ .delimited)
    {packed : Bytes} {ns : List Nat} :
    unpack record field kind.wireType packed = .ok ns ↔ Spelled kind.Packs ns packed := by
  unfold Kind.Packs unpack
  cases hw : kind.wireType with
  | delimited => exact absurd hw hk
  | fixed32 => exact words_iff (by decide)
  | fixed64 => exact words_iff (by decide)
  | varint =>
    dsimp only
    rw [← Varint.decodeAll_iff]
    cases Varint.decodeAll packed with
    | ok found => exact ⟨fun h => by cases h; rfl, fun h => by cases h; rfl⟩
    | error fault => exact ⟨nofun, nofun⟩

variable {record : String} {field : Field} {content : Content}

theorem occurrence_of_number {n : Nat} (hn : content.number? = some n) :
    occurrence parse record field content =
      if field.kind.wireType = content.wireType then .ok [field.kind.ofNumber n]
      else occurrence.mismatch record field content := by
  unfold occurrence
  cases content with
  | delimited bytes => cases hn
  | varint m | fixed64 m | fixed32 m =>
    obtain rfl : m = n := Option.some.inj hn
    cases field.kind <;> rfl

theorem occurrence_of_packed {bytes : Bytes} (hk : field.kind.wireType ≠ .delimited) :
    occurrence parse record field (.delimited bytes) =
      if field.repeated then
        (unpack record field.name field.kind.wireType bytes).map (·.map field.kind.ofNumber)
      else occurrence.mismatch record field (.delimited bytes) := by
  unfold occurrence
  cases hkind : field.kind with
  | string | bytes | message _ => rw [hkind] at hk; exact absurd rfl hk
  | int32 | int64 | bool | enum | fixed32 | fixed64 => rfl

/-- What is read of an occurrence is what it carries. -/
theorem occurrence_iff {values : List Value} :
    occurrence parse record field content = .ok values ↔ field.Carries content values := by
  constructor
  · intro h
    cases hn : content.number? with
    | some n =>
      rw [occurrence_of_number hn] at h
      split at h
      · rename_i hw
        obtain rfl := Except.ok.inj h
        exact .number hw.symm hn
      · cases h
    | none =>
      obtain ⟨bytes, rfl⟩ : ∃ bytes, content = .delimited bytes := by
        cases content with
        | varint n | fixed64 n | fixed32 n => cases hn
        | delimited bytes => exact ⟨bytes, rfl⟩
      by_cases hw : field.kind.wireType = .delimited
      · unfold occurrence at h
        cases hk : field.kind with
        | string =>
          rw [hk] at h
          obtain rfl := Except.ok.inj h
          exact .text hk
        | bytes =>
          rw [hk] at h
          obtain rfl := Except.ok.inj h
          exact .bytes hk
        | message inner =>
          rw [hk] at h
          dsimp only at h
          cases hp : inner.parse bytes with
          | error problem => rw [hp] at h; cases h
          | ok r =>
            rw [hp] at h
            obtain rfl := Except.ok.inj h
            exact .record hk hp
        | int32 | int64 | bool | enum | fixed32 | fixed64 => rw [hk] at hw; cases hw
      · rw [occurrence_of_packed hw] at h
        split at h
        · rename_i hr
          cases hu : unpack record field.name field.kind.wireType bytes with
          | error problem => rw [hu] at h; cases h
          | ok ns =>
            rw [hu] at h
            obtain rfl := Except.ok.inj h
            exact .packed hr hw ((unpack_iff hw).mp hu)
        · cases h
  · intro h
    cases h with
    | number hw hn => rw [occurrence_of_number hn, if_pos hw.symm]
    | packed hr hw hs => rw [occurrence_of_packed hw, if_pos hr, (unpack_iff hw).mpr hs]; rfl
    | text hk => unfold occurrence; rw [hk]
    | bytes hk => unfold occurrence; rw [hk]
    | record hk hp => unfold occurrence; rw [hk]; dsimp only; rw [hp]; rfl

/-- The occurrences of a record are what the fields carry, one after the other. -/
theorem readFields_iff {fields : List WireField} {r : Record} :
    readFields parse schema fields = .ok r ↔
      List.Forall₂ FieldOf.Occurs (schema.named fields) r := by
  have he : ∀ (entry : Field × Content) (occurrence : Nat × List Value),
      ((LayoutOf.occurrence parse schema.name entry.1 entry.2).map (entry.1.number, ·) =
        .ok occurrence) ↔ FieldOf.Occurs entry occurrence := by
    rintro ⟨field, content⟩ ⟨number, values⟩
    unfold FieldOf.Occurs
    dsimp only
    rw [← @occurrence_iff schema.name]
    cases occurrence parse schema.name field content with
    | error problem => exact ⟨nofun, nofun⟩
    | ok found => simp [Except.map, and_comm]
  rw [readFields, mapM_eq_ok_iff]
  constructor
  · intro h
    exact h.imp fun entry occurrence ho => (he entry occurrence).mp ho
  · intro h
    exact h.imp fun entry occurrence ho => (he entry occurrence).mpr ho

/-- A record is what the fields of its body carry. -/
theorem parse_eq_ok_iff {r : Record} : schema.parse body = .ok r ↔
    ∃ fields, Spelled WireField.Spells fields body ∧
      List.Forall₂ FieldOf.Occurs (schema.named fields) r := by
  simp only [← readFields_iff, ← @Body.split_iff schema.name, parse_eq]
  constructor
  · intro h
    obtain ⟨record, hr, h⟩ := Summary.ok_of_bind h
    rcases hs : Body.split schema.name body with ⟨fields, problem⟩
    rw [hs] at hr h
    cases problem with
    | some problem => cases h
    | none =>
      obtain rfl := Except.ok.inj h
      exact ⟨fields, rfl, hr⟩
  · rintro ⟨fields, hs, hr⟩
    rw [hs, hr]
    rfl

end LayoutOf

/-! ## Which bodies are admitted -/

/-- The body is made of fields. Each field that the schema names is written as its kind is, or packs
numbers; where it holds a record, the schema of that record admits its bytes. -/
inductive LayoutOf.Admits : Schema → Bytes → Prop
  | of_fields {schema : Schema} {body : Bytes} (fields : List WireField) :
      Spelled WireField.Spells fields body →
      (∀ f ∈ fields, ∀ field, schema.field? f.number = some field → field.Suits f.content) →
      (∀ f ∈ fields, ∀ field inner bytes, schema.field? f.number = some field →
        field.kind = .message inner → f.content = .delimited bytes → Admits inner bytes) →
      Admits schema body

namespace LayoutOf

variable {schema : Schema} {body : Bytes}

/-- A content carries values if it suits the field and a record inside it can be read. -/
theorem exists_carries_iff {field : Field} {content : Content} :
    (∃ values, field.Carries content values) ↔ field.Suits content ∧
      ∀ inner bytes, field.kind = .message inner → content = .delimited bytes →
        ∃ r, inner.parse bytes = .ok r := by
  constructor
  · rintro ⟨values, h⟩
    cases h with
    | number hw hn =>
      refine ⟨.inl hw, ?_⟩
      rintro inner bytes - rfl
      cases hn
    | packed hr hw hs =>
      refine ⟨.inr ⟨hr, hw, _, _, rfl, hs⟩, fun inner bytes hk => ?_⟩
      rw [hk] at hw
      exact absurd rfl hw
    | text hk =>
      refine ⟨.inl (by rw [hk]; rfl), fun inner bytes hk' => ?_⟩
      rw [hk] at hk'
      cases hk'
    | bytes hk =>
      refine ⟨.inl (by rw [hk]; rfl), fun inner bytes hk' => ?_⟩
      rw [hk] at hk'
      cases hk'
    | record hk hp =>
      refine ⟨.inl (by rw [hk]; rfl), ?_⟩
      rintro inner bytes hk' hc
      rw [hk] at hk'
      cases hk'
      cases hc
      exact ⟨_, hp⟩
  · rintro ⟨hs | ⟨hr, hw, bytes, ns, rfl, hs⟩, hi⟩
    · cases content with
      | varint n => exact ⟨_, .number hs rfl⟩
      | fixed64 n => exact ⟨_, .number hs rfl⟩
      | fixed32 n => exact ⟨_, .number hs rfl⟩
      | delimited bytes =>
        cases hk : field.kind with
        | string => exact ⟨_, .text hk⟩
        | bytes => exact ⟨_, .bytes hk⟩
        | message inner =>
          obtain ⟨r, hp⟩ := hi inner bytes hk rfl
          exact ⟨_, .record hk hp⟩
        | int32 | int64 | bool | enum | fixed32 | fixed64 => rw [hk] at hs; cases hs
    · exact ⟨_, .packed hr hw hs⟩

/-- A record can be read from exactly the bodies that its schema admits. -/
theorem exists_parse_iff : (∃ r, schema.parse body = .ok r) ↔ schema.Admits body := by
  constructor
  · intro h
    induction hn : body.length using Nat.strongRecOn generalizing schema body with
    | _ n ih =>
      subst hn
      obtain ⟨r, h⟩ := h
      obtain ⟨fields, hs, hf⟩ := parse_eq_ok_iff.mp h
      have hc : ∀ f ∈ fields, ∀ field, schema.field? f.number = some field →
          ∃ values, field.Carries f.content values := by
        intro f hm field hfield
        obtain ⟨occurrence, -, ho⟩ :=
          exists_of_forall₂ hf (mem_named.mpr ⟨f, hm, hfield, rfl⟩)
        exact ⟨_, ho.1⟩
      refine .of_fields fields hs ?_ ?_
      · intro f hm field hfield
        exact (exists_carries_iff.mp (hc f hm field hfield)).1
      · intro f hm field inner bytes hfield hk hcontent
        have hl : bytes.length < body.length := by
          rw [← @Body.split_iff schema.name] at hs
          exact Body.length_lt_of_mem_split (by rw [hs]; exact hm) hcontent
        exact ih _ hl ((exists_carries_iff.mp (hc f hm field hfield)).2 inner bytes hk hcontent) rfl
  · intro h
    induction h with
    | @of_fields schema body fields hs hsuits _ ih =>
      have hc : ∀ entry ∈ schema.named fields, ∃ occurrence, FieldOf.Occurs entry occurrence := by
        rintro ⟨field, content⟩ he
        obtain ⟨f, hm, hfield, rfl⟩ := mem_named.mp he
        obtain ⟨values, hv⟩ := exists_carries_iff.mpr ⟨hsuits f hm field hfield,
          fun inner bytes => ih f hm field inner bytes hfield⟩
        exact ⟨(field.number, values), hv, rfl⟩
      obtain ⟨r, hr⟩ := exists_forall₂ hc
      exact ⟨r, parse_eq_ok_iff.mpr ⟨fields, hs, hr⟩⟩

end LayoutOf

/-! ## What fields read as -/

namespace Record

variable {r : Record} {number : Nat}

theorem has_iff_exists_mem : has r number = true ↔ ∃ values, (number, values) ∈ r := by
  simp only [has, List.any_eq_true, beq_iff_eq]
  constructor
  · intro h
    obtain ⟨⟨_, values⟩, hm, rfl⟩ := h
    exact ⟨values, hm⟩
  · intro h
    obtain ⟨values, hm⟩ := h
    exact ⟨_, hm, rfl⟩

theorem mem_values {value : Value} :
    value ∈ values r number ↔ ∃ values, (number, values) ∈ r ∧ value ∈ values := by
  simp only [values, List.mem_flatMap, List.mem_filter, beq_iff_eq]
  constructor
  · intro h
    obtain ⟨⟨_, values⟩, ⟨hm, rfl⟩, hv⟩ := h
    exact ⟨values, hm, hv⟩
  · intro h
    obtain ⟨values, hm, hv⟩ := h
    exact ⟨_, ⟨hm, rfl⟩, hv⟩

theorem values_of_not_has (h : has r number = false) : values r number = [] := by
  rw [List.eq_nil_iff_forall_not_mem]
  intro value hv
  obtain ⟨values, hm, -⟩ := mem_values.mp hv
  rw [has_iff_exists_mem.mpr ⟨values, hm⟩] at h
  cases h

theorem values_single (number : Nat) (values : List Value) :
    Record.values [(number, values)] number = values := by
  simp [Record.values]

theorem values_single_of_ne {number other : Nat} (h : other ≠ number) (values : List Value) :
    Record.values [(other, values)] number = [] := by
  simp [Record.values, h]

end Record

namespace FieldOf

/-- What a field reads as if nothing has been said of it. -/
def unset (field : Field) : Reading :=
  if field.repeated then .many []
  else match field.fallbackValue with
    | some value => .one value
    | none => .absent

/-- What a field reads as after one more occurrence: a repeated field as the values before it and
its own, a single one as its last value. -/
def put (field : Field) (values : List Value) (before : Option Reading) : Option Reading :=
  if field.repeated then
    match before with
    | some (.many earlier) => some (.many (earlier ++ values))
    | _ => some (.many values)
  else (values.getLast?.map .one).or before

/-- What the fields read as by their numbers, gathered from left to right. -/
def gather (occurrences : List (Field × List Value)) : Nat → Option Reading :=
  occurrences.foldl (fun found (field, values) =>
    Function.update found field.number (field.put values (found field.number))) fun _ => none

theorem gather_concat (occurrences : List (Field × List Value)) (field : Field)
    (values : List Value) : gather (occurrences ++ [(field, values)]) =
      Function.update (gather occurrences) field.number
        (field.put values (gather occurrences field.number)) := by
  unfold gather
  rw [List.foldl_append]
  rfl

/-- Only the values of a field matter to what it reads as. -/
theorem read_congr {field : Field} {r r' : Record}
    (h : r.values field.number = r'.values field.number) : field.read r = field.read r' := by
  unfold read Record.value?
  rw [h]

theorem read_of_repeated {field : Field} (h : field.repeated = true) (r : Record) :
    field.read r = .many (r.values field.number) := by
  unfold read
  rw [if_pos h]

theorem read_of_single {field : Field} (h : field.repeated = false) {r : Record} {value : Value}
    (hv : (r.values field.number).getLast? = some value) : field.read r = .one value := by
  unfold read Record.value?
  rw [if_neg (by simp [h]), hv]
  rfl

/-- A field that does not occur reads as if nothing had been said of it. -/
theorem read_of_not_has {field : Field} {r : Record} (h : r.has field.number = false) :
    field.read r = field.unset := by
  have hv := Record.values_of_not_has h
  unfold read unset Record.value?
  rw [hv]
  rfl

/-- One more occurrence: what is put to what a field has read as is what it reads as after it. -/
theorem put_eq {field : Field} {values : List Value} (before : Record)
    (hv : field.repeated = false → values ≠ []) :
    field.put values (if before.has field.number then some (field.read before) else none) =
      some (field.read (before ++ [(field.number, values)])) := by
  have hvalues : Record.values (before ++ [(field.number, values)]) field.number =
      Record.values before field.number ++ values := by
    rw [Record.values_append, Record.values_single]
  unfold put
  cases hrep : field.repeated with
  | true =>
    rw [if_pos rfl, read_of_repeated hrep, read_of_repeated hrep, hvalues]
    cases hb : before.has field.number with
    | true => rfl
    | false => rw [Record.values_of_not_has hb]; rfl
  | false =>
    obtain ⟨value, hlast⟩ : ∃ value, values.getLast? = some value :=
      ⟨_, List.getLast?_eq_some_getLast (hv hrep)⟩
    have hl : (Record.values (before ++ [(field.number, values)]) field.number).getLast? =
        some value := by
      rw [hvalues, List.getLast?_append, hlast]
      rfl
    rw [if_neg Bool.false_ne_true, hlast, read_of_single hrep hl]
    rfl

/-- An occurrence of another field changes nothing. -/
theorem read_concat_of_ne {field : Field} {number : Nat} (hn : number ≠ field.number)
    (before : Record) (values : List Value) :
    Record.has (before ++ [(number, values)]) field.number = Record.has before field.number ∧
      field.read (before ++ [(number, values)]) = field.read before := by
  constructor
  · simp [Record.has, hn]
  · refine read_congr ?_
    rw [Record.values_append, Record.values_single_of_ne hn, List.append_nil]

end FieldOf

namespace LayoutOf

variable {schema : Schema} {body : Bytes}

theorem number_of_field? {number : Nat} {field : Field} (h : schema.field? number = some field) :
    field.number = number := by
  have hp := List.find?_some h
  exact beq_iff_eq.mp hp

/-- The occurrences of a record, with what its schema says about their fields. -/
structure Recorded (schema : Schema) (occurrences : List (Field × List Value)) (r : Record) :
    Prop where
  record : r = occurrences.map fun occurrence => (occurrence.1.number, occurrence.2)
  named : ∀ occurrence ∈ occurrences,
    schema.field? occurrence.1.number = some occurrence.1
  single : ∀ occurrence ∈ occurrences, occurrence.1.repeated = false → occurrence.2 ≠ []

/-- A field reads as what has been gathered of it. -/
theorem Recorded.gather_eq {occurrences : List (Field × List Value)} {r : Record}
    (h : schema.Recorded occurrences r) {number : Nat} {field : Field}
    (hf : schema.field? number = some field) :
    FieldOf.gather occurrences number = if r.has number then some (field.read r) else none := by
  obtain rfl := number_of_field? hf
  obtain rfl := h.record
  have hnamed := h.named
  have hsingle := h.single
  clear h
  -- an occurrence at the end is the one that is gathered last
  induction occurrences using List.reverseRecOn with
  | nil => rfl
  | append_singleton occurrences last ih =>
    obtain ⟨other, values⟩ := last
    have ih := ih (fun o ho => hnamed o (List.mem_append_left _ ho))
      (fun o ho => hsingle o (List.mem_append_left _ ho))
    have hother := hnamed (other, values) (by simp)
    rw [FieldOf.gather_concat, List.map_append, List.map_singleton]
    dsimp only at hother ⊢
    by_cases hn : other.number = field.number
    · obtain rfl : other = field := by
        rw [hn, hf] at hother
        exact (Option.some.inj hother).symm
      have hhas : Record.has (occurrences.map (fun o => (o.1.number, o.2)) ++
          [(other.number, values)]) other.number = true := by
        simp [Record.has]
      rw [Function.update_self, hhas, if_pos rfl, ih]
      exact FieldOf.put_eq _ (hsingle (other, values) (by simp))
    · obtain ⟨hhas, hread⟩ := FieldOf.read_concat_of_ne hn
        (occurrences.map fun o => (o.1.number, o.2)) values
      rw [Function.update_of_ne (Ne.symm hn), ih, hhas, hread]

theorem ne_nil_of_carries {field : Field} {content : Content} {values : List Value}
    (h : field.Carries content values) (hr : field.repeated = false) : values ≠ [] := by
  cases h with
  | packed ht => rw [ht] at hr; cases hr
  | number | text | bytes | record => exact List.cons_ne_nil _ _

/-- What the fields of a body carry is what its record says of them. -/
theorem exists_recorded {fields : List WireField} {r : Record}
    (h : List.Forall₂ FieldOf.Occurs (schema.named fields) r) :
    ∃ occurrences, List.Forall₂ (fun entry occurrence => entry.1 = occurrence.1 ∧
      entry.1.Carries entry.2 occurrence.2) (schema.named fields) occurrences ∧
        schema.Recorded occurrences r := by
  have hn : ∀ entry ∈ schema.named fields, schema.field? entry.1.number = some entry.1 := by
    rintro ⟨field, content⟩ he
    obtain ⟨f, -, hf, -⟩ := mem_named.mp he
    dsimp only
    rw [number_of_field? hf]
    exact hf
  generalize schema.named fields = entries at h hn ⊢
  induction h with
  | nil => exact ⟨[], .nil, rfl, nofun, nofun⟩
  | @cons entry occurrence entries r ho _ ih =>
    obtain ⟨hfirst, hrest⟩ := List.forall_mem_cons.mp hn
    obtain ⟨occurrences, hc, hr⟩ := ih hrest
    obtain ⟨hcarries, hnumber⟩ := ho
    refine ⟨(entry.1, occurrence.2) :: occurrences, .cons ⟨rfl, hcarries⟩ hc, ?_, ?_, ?_⟩
    · rw [List.map_cons, ← hr.record, hnumber]
    · exact List.forall_mem_cons.mpr ⟨hfirst, hr.named⟩
    · exact List.forall_mem_cons.mpr ⟨ne_nil_of_carries hcarries, hr.single⟩

/-- A body is read exactly if its schema admits it, and otherwise there is a problem. It is made of
fields in one way only, and every field of the record reads as what is gathered of it from left to
right. -/
theorem parse_grammar (schema : Schema) (body : Bytes) :
    ((∃ r, schema.parse body = .ok r) ↔ schema.Admits body) ∧
    (¬schema.Admits body → ∃ problem, schema.parse body = .error problem) ∧
    (∀ fields parts fields' parts', List.Forall₂ WireField.Spells fields parts →
      parts.flatten = body → List.Forall₂ WireField.Spells fields' parts' →
      parts'.flatten = body → fields = fields' ∧ parts = parts') ∧
    ∀ r, schema.parse body = .ok r → ∃ fields occurrences,
      Spelled WireField.Spells fields body ∧
      List.Forall₂ (fun entry occurrence => entry.1 = occurrence.1 ∧
        entry.1.Carries entry.2 occurrence.2) (schema.named fields) occurrences ∧
      ∀ number field, schema.field? number = some field →
        r.has number = (FieldOf.gather occurrences number).isSome ∧
        field.read r = (FieldOf.gather occurrences number).getD field.unset := by
  refine ⟨exists_parse_iff, ?_, ?_, ?_⟩
  · intro h
    cases hp : schema.parse body with
    | ok r => exact absurd (exists_parse_iff.mp ⟨r, hp⟩) h
    | error problem => exact ⟨problem, rfl⟩
  · intro fields parts fields' parts' hf hb hf' hb'
    exact (Body.reads_field schema.name).unique_parts WireField.not_spells_nil hf hf'
      (hb.trans hb'.symm)
  · intro r hp
    obtain ⟨fields, hs, hf⟩ := parse_eq_ok_iff.mp hp
    obtain ⟨occurrences, hc, hr⟩ := exists_recorded hf
    refine ⟨fields, occurrences, hs, hc, fun number field hfield => ?_⟩
    rw [hr.gather_eq hfield]
    obtain rfl := number_of_field? hfield
    cases hhas : r.has field.number with
    | true => exact ⟨rfl, rfl⟩
    | false => exact ⟨rfl, FieldOf.read_of_not_has hhas⟩

end LayoutOf

end Checkpoint
