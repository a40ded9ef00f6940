import Checkpoint.Image.Catalog
import Checkpoint.Proofs.Bodies

/-! # Attributes of records

A record can be asked for an attribute by name, which fails if its type has no field of that name or
if the field does not read as what is asked for. A record that has been read from a body answers
every question that is asked of its type. -/
namespace Checkpoint

/-! ## Values of a kind -/

/-- A value is of the type that fields of the kind hold. Every occurrence in a record has values of
the kind of its field, and only a repeated field can occur without a value. -/
inductive Value.OfKind : Kind → Value → Prop
  | int32 (n : Int) : OfKind .int32 (.int n)
  | int64 (n : Int) : OfKind .int64 (.int n)
  | enum (n : Int) : OfKind .enum (.int n)
  | fixed32 (n : Nat) : OfKind .fixed32 (.int n)
  | fixed64 (n : Nat) : OfKind .fixed64 (.int n)
  | bool (b : Bool) : OfKind .bool (.flag b)
  | string (s : String) : OfKind .string (.text s)
  | bytes (b : Bytes) : OfKind .bytes (.bytes b)
  | message {schema : Schema} {r : Record} :
      (∀ occurrence ∈ r, ∀ field, schema.field? occurrence.1 = some field →
        field.repeated = false → occurrence.2 ≠ []) →
      (∀ occurrence ∈ r, ∀ field, schema.field? occurrence.1 = some field →
        ∀ value ∈ occurrence.2, OfKind field.kind value) →
      OfKind (.message schema) (.record r)

/-- The record is one of the type that the schema describes. -/
def LayoutOf.Typed (schema : Schema) (r : Record) : Prop :=
  (Value.record r).OfKind (.message schema)

theorem Kind.ofKind_ofNumber {kind : Kind} (h : kind.wireType ≠ .delimited) (n : Nat) :
    (kind.ofNumber n).OfKind kind := by
  cases kind with
  | int32 => exact .int32 _
  | int64 => exact .int64 _
  | enum => exact .enum _
  | fixed32 => exact .fixed32 n
  | fixed64 => exact .fixed64 n
  | bool => exact .bool _
  | string | bytes | message _ => exact absurd rfl h

/-- What a content carries is of the kind of its field, if this holds of the records inside. -/
theorem FieldOf.Carries.ofKind {field : Field} {content : Content} {values : List Value}
    (h : field.Carries content values)
    (hr : ∀ inner bytes r, content = .delimited bytes → field.kind = .message inner →
      inner.parse bytes = .ok r → inner.Typed r) : ∀ value ∈ values, value.OfKind field.kind := by
  cases h with
  | @number content n hw hn =>
    have hk : field.kind.wireType ≠ .delimited := by
      rw [← hw]
      cases content with
      | delimited bytes => cases hn
      | varint n | fixed64 n | fixed32 n => exact nofun
    simpa using Kind.ofKind_ofNumber hk n
  | packed _ hk _ =>
    intro value hv
    obtain ⟨n, -, rfl⟩ := List.mem_map.mp hv
    exact Kind.ofKind_ofNumber hk n
  | text hk => simpa [hk] using Value.OfKind.string _
  | bytes hk => simpa [hk] using Value.OfKind.bytes _
  | record hk hp => simpa [hk] using show Value.OfKind _ _ from hr _ _ _ rfl hk hp

namespace LayoutOf

variable {schema : Schema} {body : Bytes} {r : Record}

theorem typed_of_occurs {fields : List WireField}
    (h : List.Forall₂ FieldOf.Occurs (schema.named fields) r)
    (hr : ∀ f ∈ fields, ∀ (inner : Schema) bytes r, f.content = .delimited bytes →
      inner.parse bytes = .ok r → inner.Typed r) : schema.Typed r := by
  have ho : ∀ occurrence ∈ r, ∀ field, schema.field? occurrence.1 = some field →
      ∃ f ∈ fields, field.Carries f.content occurrence.2 := by
    intro occurrence hm field hf
    obtain ⟨⟨other, content⟩, he, hc, hn⟩ := exists_of_forall₂ h.flip hm
    obtain ⟨f, hmem, hfield, rfl⟩ := mem_named.mp he
    rw [← hn, number_of_field? hfield, hfield] at hf
    cases hf
    exact ⟨f, hmem, hc⟩
  refine .message ?_ ?_
  · intro occurrence hm field hf hrep
    obtain ⟨f, -, hc⟩ := ho occurrence hm field hf
    exact ne_nil_of_carries hc hrep
  · intro occurrence hm field hf
    obtain ⟨f, hmem, hc⟩ := ho occurrence hm field hf
    exact hc.ofKind fun inner bytes r hb _ hp => hr f hmem inner bytes r hb hp

/-- A record that has been read is of the type it has been read as. -/
theorem typed_of_parse (h : schema.parse body = .ok r) : schema.Typed r := by
  induction hn : body.length using Nat.strongRecOn generalizing schema body r with
  | _ n ih =>
    subst hn
    obtain ⟨fields, hs, hf⟩ := parse_eq_ok_iff.mp h
    -- a body inside is shorter, so its record has been seen to be typed
    refine typed_of_occurs hf fun f hm inner bytes r hb hp => ?_
    have hl : bytes.length < body.length := by
      rw [← @Body.split_iff schema.name] at hs
      exact Body.length_lt_of_mem_split (by rw [hs]; exact hm) hb
    exact ih _ hl hp rfl

end LayoutOf

/-! ## Questions -/

/-- Why a question about a record has no answer. -/
inductive AskFault where
  | noField (cause : NoField)
  /-- The attribute is not what it is taken for. -/
  | wrongType (record name : String)

namespace LayoutOf

variable {α : Type}

/-- What the attribute of a name reads as. -/
def ask (schema : Schema) (name : String) (r : Record) : Except AskFault Reading :=
  match schema.lookup name with
  | .ok field => .ok (field.read r)
  | .error cause => .error (.noField cause)

/-- An attribute that has been found, if it is what it is taken for. -/
def expect (schema : Schema) (name : String) : Option α → Except AskFault α
  | some a => .ok a
  | none => .error (.wrongType schema.name name)

/-- An attribute with one value. -/
def askOne (schema : Schema) (as? : Value → Option α) (name : String) (r : Record) :
    Except AskFault α := do
  match ← schema.ask name r with
  | .one value => schema.expect name (as? value)
  | .many _ | .absent => schema.expect name none

/-- An attribute with any number of values. -/
def askMany (schema : Schema) (as? : Value → Option α) (name : String) (r : Record) :
    Except AskFault (List α) := do
  match ← schema.ask name r with
  | .many values => values.mapM fun value => schema.expect name (as? value)
  | .one _ | .absent => schema.expect name none

/-- An attribute with one value, which is asked for only if the field occurs. -/
def askSet (schema : Schema) (as? : Value → Option α) (name : String) (r : Record) :
    Except AskFault (Option α) :=
  match schema.lookup name with
  | .ok field =>
    if r.has field.number then (schema.askOne as? name r).map some else .ok none
  | .error cause => .error (.noField cause)

/-- The records of a repeated attribute, each of which is asked in turn. -/
def askEach (schema : Schema) (inner : Record → Except AskFault α) (name : String) (r : Record) :
    Except AskFault (List α) := do
  (← schema.askMany Value.record? name r).mapM inner

/-- The record in an attribute, which is asked only if the field occurs. -/
def askSetIn (schema : Schema) (inner : Record → Except AskFault α) (name : String) (r : Record) :
    Except AskFault (Option α) := do
  (← schema.askSet Value.record? name r).mapM inner

/-- The record in an attribute, which is asked unless the attribute reads as absent. -/
def askIn (schema : Schema) (inner : Record → Except AskFault α) (name : String) (r : Record) :
    Except AskFault (Option α) := do
  match ← schema.ask name r with
  | .one value => (schema.expect name value.record? >>= inner).map some
  | .absent => .ok none
  | .many _ => schema.expect name none

/-- The attribute of a name is the field, which may be repeated or not. -/
structure Names (schema : Schema) (name : String) (repeated : Bool) (field : Field) : Prop where
  lookup : schema.lookup name = .ok field
  field? : schema.field? field.number = some field
  repeated : field.repeated = repeated

end LayoutOf

/-! ## Answers -/

/-- Whether fields of a kind hold numbers. -/
def Kind.isNumber : Kind → Bool
  | int32 | int64 | enum | fixed32 | fixed64 => true
  | bool | string | bytes | message _ => false

/-- Every value of a kind is what it is taken for. -/
def Kind.Holds {α : Type} (kind : Kind) (as? : Value → Option α) : Prop :=
  ∀ value : Value, value.OfKind kind → ∃ a, as? value = some a

namespace Kind

theorem holds_int {kind : Kind} (h : kind.isNumber = true) : kind.Holds Value.int? := by
  intro value hv
  cases hv with
  | int32 n | int64 n | enum n => exact ⟨n, rfl⟩
  | fixed32 n | fixed64 n => exact ⟨n, rfl⟩
  | bool | string | bytes | message => cases h

theorem holds_flag : Kind.bool.Holds Value.flag? := by
  intro value hv
  cases hv
  exact ⟨_, rfl⟩

theorem holds_text : Kind.string.Holds Value.text? := by
  intro value hv
  cases hv
  exact ⟨_, rfl⟩

theorem holds_bytes : Kind.bytes.Holds Value.bytes? := by
  intro value hv
  cases hv
  exact ⟨_, rfl⟩

theorem holds_record (inner : Schema) : (Kind.message inner).Holds Value.record? := by
  intro value hv
  cases hv
  exact ⟨_, rfl⟩

end Kind

theorem Value.OfKind.typed {value : Value} {inner : Schema} (h : value.OfKind (.message inner))
    {s : Record} (hs : value.record? = some s) : inner.Typed s := by
  cases h with
  | message hne hk =>
    cases hs
    exact .message hne hk

namespace LayoutOf.Typed

variable {α : Type} {schema inner : Schema} {r : Record} {name : String} {repeated : Bool}
  {field : Field} {as? : Value → Option α}

theorem ofKind (h : schema.Typed r) (hn : schema.Names name repeated field) {value : Value}
    (hv : value ∈ r.values field.number) : value.OfKind field.kind := by
  cases h with
  | message _ hk =>
    obtain ⟨values, hm, hv⟩ := Record.mem_values.mp hv
    exact hk _ hm field hn.field? value hv

theorem exists_of_value? (h : schema.Typed r) (hn : schema.Names name repeated field)
    (hk : field.kind.Holds as?) {value : Value} (hv : r.value? field.number = some value) :
    ∃ a, as? value = some a :=
  hk value (h.ofKind hn (List.mem_of_getLast? hv))

/-- A single field that occurs has a value. -/
theorem exists_value? (h : schema.Typed r) (hn : schema.Names name false field)
    (hhas : r.has field.number = true) :
    ∃ value, r.value? field.number = some value := by
  cases h with
  | message hne _ =>
    obtain ⟨values, hm⟩ := Record.has_iff_exists_mem.mp hhas
    obtain ⟨value, hv⟩ := List.exists_mem_of_ne_nil _ (hne _ hm field hn.field? hn.repeated)
    have hvalues := List.ne_nil_of_mem (Record.mem_values.mpr ⟨values, hm, hv⟩)
    exact ⟨_, List.getLast?_eq_some_getLast hvalues⟩

theorem ask (hn : schema.Names name repeated field) : schema.ask name r = .ok (field.read r) := by
  rw [LayoutOf.ask, hn.lookup]

theorem askOne (h : schema.Typed r) (name : String) (hn : schema.Names name false field)
    (hk : field.kind.Holds as?) {a : α} (ha : field.fallbackValue.bind as? = some a) :
    schema.askOne as? name r = .ok (((r.value? field.number).bind as?).getD a) := by
  rw [LayoutOf.askOne, ask hn, FieldOf.read, if_neg (by simp [hn.repeated])]
  cases hv : r.value? field.number with
  | none =>
    obtain ⟨value, hf, ha⟩ := Option.bind_eq_some_iff.mp ha
    simp only [Option.none_or, hf, Option.bind_none, Option.getD_none]
    show schema.expect name (as? value) = _
    rw [ha, expect]
  | some value =>
    obtain ⟨b, hb⟩ := h.exists_of_value? hn hk hv
    simp only [Option.some_or, Option.bind_some, hb, Option.getD_some]
    show schema.expect name (as? value) = _
    rw [hb, expect]

theorem askSet (h : schema.Typed r) (name : String) (hn : schema.Names name false field)
    (hk : field.kind.Holds as?) :
    schema.askSet as? name r = .ok ((r.value? field.number).bind as?) := by
  rw [LayoutOf.askSet, hn.lookup]
  dsimp only
  cases hhas : r.has field.number with
  | false =>
    rw [if_neg Bool.false_ne_true, Record.value?, Record.values_of_not_has hhas]
    rfl
  | true =>
    obtain ⟨value, hv⟩ := h.exists_value? hn hhas
    obtain ⟨a, ha⟩ := h.exists_of_value? hn hk hv
    have hread : schema.askOne as? name r = .ok a := by
      rw [LayoutOf.askOne, ask hn, FieldOf.read_of_single hn.repeated hv]
      show schema.expect name (as? value) = _
      rw [ha, expect]
    rw [if_pos rfl, hread, hv, Option.bind_some, ha]
    rfl

theorem askMany (h : schema.Typed r) (name : String) (hn : schema.Names name true field)
    (hk : field.kind.Holds as?) :
    schema.askMany as? name r = .ok ((r.values field.number).filterMap as?) := by
  have hall : ∀ value ∈ r.values field.number, ∃ a, as? value = some a :=
    fun value hv => hk value (h.ofKind hn hv)
  rw [LayoutOf.askMany, ask hn, FieldOf.read_of_repeated hn.repeated]
  show (r.values field.number).mapM _ = _
  generalize r.values field.number = values at hall
  induction values with
  | nil => rfl
  | cons value rest ih =>
    obtain ⟨⟨a, ha⟩, hrest⟩ := List.forall_mem_cons.mp hall
    rw [List.mapM_cons, ih hrest, List.filterMap_cons, ha]
    rfl

/-! ### Records inside -/

theorem record? (h : schema.Typed r) (hn : schema.Names name repeated field)
    (hk : field.kind = .message inner) {s : Record} (hs : r.record? field.number = some s) :
    inner.Typed s := by
  obtain ⟨value, hv, hs⟩ := Option.bind_eq_some_iff.mp hs
  exact (hk ▸ h.ofKind hn (List.mem_of_getLast? hv)).typed hs

theorem records (h : schema.Typed r) (hn : schema.Names name repeated field)
    (hk : field.kind = .message inner) : ∀ s ∈ r.records field.number, inner.Typed s := by
  intro s hs
  obtain ⟨value, hv, hs⟩ := List.mem_filterMap.mp hs
  exact (hk ▸ h.ofKind hn hv).typed hs

variable {question : Record → Except AskFault α} {answer : Record → α}

theorem askEach (h : schema.Typed r) (name : String) (hn : schema.Names name true field)
    (hk : field.kind = .message inner) (hq : ∀ s, inner.Typed s → question s = .ok (answer s)) :
    schema.askEach question name r = .ok ((r.records field.number).map answer) := by
  have hall : (r.records field.number).mapM question = .ok ((r.records field.number).map answer) :=
    mapM_eq_ok_iff.mpr (List.forall₂_map_right_iff.mpr
      (List.forall₂_same.mpr fun s hs => hq s (h.records hn hk s hs)))
  rw [LayoutOf.askEach, h.askMany name hn (hk ▸ Kind.holds_record inner)]
  exact hall

theorem askSetIn (h : schema.Typed r) (name : String) (hn : schema.Names name false field)
    (hk : field.kind = .message inner) (hq : ∀ s, inner.Typed s → question s = .ok (answer s)) :
    schema.askSetIn question name r = .ok ((r.record? field.number).map answer) := by
  rw [LayoutOf.askSetIn, h.askSet name hn (hk ▸ Kind.holds_record inner)]
  show (r.record? field.number).mapM question = _
  cases hr : r.record? field.number with
  | none => rfl
  | some s =>
    rw [Option.mapM_some, hq s (h.record? hn hk hr)]
    rfl

theorem askIn (h : schema.Typed r) (name : String) (hn : schema.Names name false field)
    (hk : field.kind = .message inner) (hq : ∀ s, inner.Typed s → question s = .ok (answer s)) :
    schema.askIn question name r = .ok ((r.record? field.number).map answer) := by
  rw [LayoutOf.askIn, ask hn]
  cases hv : r.value? field.number with
  | none =>
    have hread : field.read r = .absent := by
      rw [FieldOf.read, if_neg (by simp [hn.repeated]), hv, FieldOf.fallbackValue, hk]
      rfl
    rw [hread, Record.record?, hv]
    rfl
  | some value =>
    obtain ⟨s, hvs⟩ := h.exists_of_value? hn (hk ▸ Kind.holds_record inner) hv
    have hr : r.record? field.number = some s := by rw [Record.record?, hv]; exact hvs
    rw [FieldOf.read_of_single hn.repeated hv, hr]
    show (schema.expect name value.record? >>= question).map some = _
    rw [hvs]
    show (question s).map some = _
    rw [hq s (h.record? hn hk hr)]
    rfl

end LayoutOf.Typed

end Checkpoint
