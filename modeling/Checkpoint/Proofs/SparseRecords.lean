import Checkpoint.Document.Section
import Checkpoint.Proofs.AttributeValues
import Checkpoint.Proofs.Children
import Checkpoint.Proofs.Instants
import Checkpoint.Proofs.OptionalRows
import Checkpoint.Proofs.Packing

/-! # Sparse records

The records of delegation and of the cache have fields that may all be missing. The elements that are
written for a body are those of the fields that occur in it, in a fixed order and with what the last
occurrence says, and from the text it can be told which fields those are and what they say. -/
namespace Checkpoint

/-! ## What a field says -/

/-- How a field is read and written. -/
inductive Style where
  | int32
  | int64
  /-- Milliseconds, written as a date and time. -/
  | date
  | text
  /-- Bytes, written in hexadecimal. -/
  | hex
  /-- A truth value, written as an element that is there or not. -/
  | flag
  | expiration
  deriving DecidableEq

namespace Style

/-- The kind of the fields that are read and written so. -/
def kind : Style → Kind
  | int32 => .int32
  | int64 | date => .int64
  | text => .string
  | hex => .bytes
  | flag => .bool
  | expiration => .message Expiration.schema

/-- What a field can say; a truth value says something only if it is true. -/
def Saying : Style → Type
  | int32 | int64 | date => Int
  | text => String
  | hex => Bytes
  | flag => Unit
  | expiration => Expiration

/-- What a content says. -/
def decode : (style : Style) → Content → Option style.Saying
  | int32, .varint n => some (signedWord 32 n)
  | int64, .varint n | date, .varint n => some (signedWord 64 n)
  | text, .delimited bytes => some (Utf8.decodeLossy bytes)
  | hex, .delimited bytes => some bytes
  | flag, .varint n => if n = 0 then none else some ()
  | expiration, .delimited bytes =>
    match Expiration.schema.parse bytes with
    | .ok r => some (Expiration.ofRecord r)
    | .error _ => none
  | _, _ => none

/-- What a value in a record says. -/
def ofValue? : (style : Style) → Value → Option style.Saying
  | int32, value | int64, value | date, value => value.int?
  | text, value => value.text?
  | hex, value => value.bytes?
  | flag, value => if value.flag? = some true then some () else none
  | expiration, value => value.record?.map Expiration.ofRecord

/-- How it is written what a field says. -/
def write : (style : Style) → (tag : String) → style.Saying → List Markup
  | int32, tag, n | int64, tag, n => Markup.number tag n
  | date, tag, millis => Markup.date tag millis
  | text, tag, s => Markup.field tag s
  | hex, tag, bytes => Markup.field tag (Bytes.hex bytes)
  | flag, tag, () => [.empty tag]
  | expiration, tag, e => Markup.element tag true
    (Markup.optional Markup.number "millis" e.millis ++ Markup.flag "relative" e.isRelative)

end Style

/-- A field of a sparse record and the element it is written as. -/
structure Slot where
  tag : String
  number : Nat
  style : Style

namespace Slot

/-- What the last occurrence of the field says, if there is one. -/
def said (fields : List WireField) (slot : Slot) : Option slot.style.Saying :=
  (WireField.contents slot.number fields).getLast?.bind slot.style.decode

/-- What a record says of the field. -/
def saidIn (r : Record) (slot : Slot) : Option slot.style.Saying :=
  (r.value? slot.number).bind slot.style.ofValue?

end Slot

/-- The elements of a row of slots, for what is said. -/
def slotRow (said : (slot : Slot) → Option slot.style.Saying) (slots : List Slot) : List Markup :=
  Markup.optionalRow Slot.tag (fun slot => slot.style.write) said slots

section

variable (said : (slot : Slot) → Option slot.style.Saying)

theorem slotRow_nil : slotRow said [] = [] := rfl

theorem slotRow_cons (slot : Slot) (slots : List Slot) : slotRow said (slot :: slots) =
    Markup.optional slot.style.write slot.tag (said slot) ++ slotRow said slots := rfl

end

/-- The record types of which every field may be missing. -/
inductive SparseType where
  | delegationHeader
  | delegationKey
  | delegationToken
  | cachePool
  | cacheDirective
  | expiration

namespace SparseType

def schema : SparseType → Schema
  | delegationHeader => DelegationHeader.schema
  | delegationKey => DelegationKey.schema
  | delegationToken => DelegationToken.schema
  | cachePool => CachePool.schema
  | cacheDirective => CacheDirective.schema
  | expiration => Expiration.schema

/-- What is written for a record. -/
def markup : SparseType → Record → List Markup
  | delegationHeader, r => (DelegationHeader.ofRecord r).markup
  | delegationKey, r => (DelegationKey.ofRecord r).markup
  | delegationToken, r => (DelegationToken.ofRecord r).markup
  | cachePool, r => (CachePool.ofRecord r).markup
  | cacheDirective, r => (CacheDirective.ofRecord r).markup
  | expiration, r => (Expiration.ofRecord r).markup

/-- What stands around the elements of the fields: nothing, or an element, with a line break or not.
-/
def around? : SparseType → Option (String × Bool)
  | delegationHeader => none
  | delegationKey => some ("delegationKey", false)
  | delegationToken => some ("token", false)
  | cachePool => some ("pool", true)
  | cacheDirective => some ("directive", true)
  | expiration => some ("expiration", true)

def enclose (type : SparseType) (inside : List Markup) : List Markup :=
  match type.around? with
  | none => inside
  | some (tag, newline) => Markup.element tag newline inside

/-- The fields, in the order in which they are written. -/
def slots : SparseType → List Slot
  | delegationHeader => [⟨"currentId", 1, .int32⟩, ⟨"tokenSequenceNumber", 2, .int32⟩,
    ⟨"numDelegationKeys", 3, .int32⟩, ⟨"numTokens", 4, .int32⟩]
  | delegationKey => [⟨"id", 1, .int32⟩, ⟨"key", 3, .hex⟩, ⟨"expiry", 2, .date⟩]
  | delegationToken => [⟨"version", 1, .int32⟩, ⟨"owner", 2, .text⟩, ⟨"renewer", 3, .text⟩,
    ⟨"realUser", 4, .text⟩, ⟨"issueDate", 5, .date⟩, ⟨"maxDate", 6, .date⟩,
    ⟨"sequenceNumber", 7, .int32⟩, ⟨"masterKeyId", 8, .int32⟩, ⟨"expiryDate", 9, .date⟩]
  | cachePool => [⟨"poolName", 1, .text⟩, ⟨"ownerName", 2, .text⟩, ⟨"groupName", 3, .text⟩,
    ⟨"mode", 4, .int32⟩, ⟨"limit", 5, .int64⟩, ⟨"maxRelativeExpiry", 6, .int64⟩]
  | cacheDirective => [⟨"id", 1, .int64⟩, ⟨"path", 2, .text⟩, ⟨"replication", 3, .int32⟩,
    ⟨"pool", 4, .text⟩, ⟨"expiration", 5, .expiration⟩]
  | expiration => [⟨"millis", 1, .int64⟩, ⟨"relative", 2, .flag⟩]

end SparseType

/-! ## What the last occurrence says -/

/-- The last elements of two lists that are related are related. -/
theorem getLast?_of_forall₂ {α β : Type} {R : α → β → Prop} {as : List α} {bs : List β}
    (h : List.Forall₂ R as bs) : as = [] ∧ bs = [] ∨
      ∃ a b before, as.getLast? = some a ∧ bs = before ++ [b] ∧ R a b := by
  induction h with
  | nil => exact .inl ⟨rfl, rfl⟩
  | @cons a b as bs hab _ ih =>
    refine .inr ?_
    rcases ih with ⟨rfl, rfl⟩ | ⟨a', b', before, ha, rfl, hr⟩
    · exact ⟨a, b, [], rfl, rfl, hab⟩
    · exact ⟨a', b', b :: before, by rw [List.getLast?_cons, ha]; rfl, rfl, hr⟩

namespace Style

variable {style : Style} {field : Field} {content : Content} {values : List Value} {value : Value}

/-- What a content carries says what the content says. -/
theorem decode_of_carries (h : field.Carries content values) (hs : field.repeated = false)
    (hk : field.kind = style.kind) :
    style.decode content = values.getLast?.bind style.ofValue? := by
  cases h with
  | @number content n hw hn =>
    rw [hk] at hw ⊢
    cases content with
    | delimited bytes => cases hn
    | fixed64 m => cases style <;> cases hw
    | fixed32 m => cases style <;> cases hw
    | varint m =>
      obtain rfl : m = n := Option.some.inj hn
      cases style with
      | int32 | int64 | date => rfl
      | flag => by_cases hm : m = 0 <;> simp [decode, ofValue?, kind, Kind.ofNumber, Value.flag?, hm]
      | text | hex | expiration => cases hw
  | packed hr _ _ =>
    rw [hs] at hr
    cases hr
  | text hkind => cases style <;> first | rfl | cases hk.symm.trans hkind
  | bytes hkind => cases style <;> first | rfl | cases hk.symm.trans hkind
  | @record inner bytes r hkind hp =>
    cases style <;> cases hk.symm.trans hkind
    rw [decode, hp]
    rfl

/-- Every value of the kind says something, unless it is a truth value. -/
theorem ofValue?_isSome (h : value.OfKind style.kind) (hf : style ≠ .flag) :
    (style.ofValue? value).isSome = true := by
  cases style with
  | flag => exact absurd rfl hf
  | int32 | int64 | date | text | hex | expiration => cases h; rfl

end Style

namespace Slot

variable {schema : Schema} {fields : List WireField} {r : Record} {slot : Slot} {field : Field}

/-- The slot is one of a single field of the schema. -/
def Of (schema : Schema) (slot : Slot) : Prop :=
  ∃ field, schema.field? slot.number = some field ∧ field.kind = slot.style.kind ∧
    field.repeated = false

/-- A record that has been read says what the last occurrence in the body says. -/
theorem saidIn_eq_said (h : List.Forall₂ FieldOf.Occurs (schema.named fields) r)
    (hslot : slot.Of schema) : slot.saidIn r = slot.said fields := by
  obtain ⟨field, hfield, hk, hs⟩ := hslot
  rw [saidIn, said, Record.value?, Record.values_eq_flatten]
  rcases getLast?_of_forall₂ (LayoutOf.forall₂_carried h hfield) with
    ⟨hc, hv⟩ | ⟨content, values, before, hc, hv, hcarries⟩
  · rw [hc, hv]
    rfl
  · have hlast := List.getLast?_eq_some_getLast (LayoutOf.ne_nil_of_carries hcarries hs)
    rw [hc, hv, Option.bind_some, Style.decode_of_carries hcarries hs hk, List.flatten_append,
      List.flatten_singleton, List.getLast?_append, hlast]
    rfl

/-- Everything but a truth value says something exactly if the field occurs. -/
theorem said_isSome_iff (h : List.Forall₂ FieldOf.Occurs (schema.named fields) r)
    (hslot : slot.Of schema) (hf : slot.style ≠ .flag) :
    (slot.said fields).isSome = true ↔ ∃ f ∈ fields, f.number = slot.number := by
  obtain ⟨field, hfield, hk, hs⟩ := hslot
  rw [said]
  rcases getLast?_of_forall₂ (LayoutOf.forall₂_carried h hfield) with
    ⟨hc, -⟩ | ⟨content, values, before, hc, -, hcarries⟩
  · have hn : ¬∃ f ∈ fields, f.number = slot.number := by
      rintro ⟨f, hf, hn⟩
      have hm := WireField.mem_contents.mpr ⟨f, hf, hn, rfl⟩
      rw [hc] at hm
      cases hm
    rw [hc]
    exact iff_of_false Bool.false_ne_true hn
  · obtain ⟨f, hf', hn, -⟩ := WireField.mem_contents.mp (List.mem_of_getLast? hc)
    have hne := LayoutOf.ne_nil_of_carries hcarries hs
    have hkind := hcarries.ofKind (fun _ _ _ _ _ hp => LayoutOf.typed_of_parse hp) _
      (List.getLast_mem hne)
    rw [hk] at hkind
    rw [hc, Option.bind_some, Style.decode_of_carries hcarries hs hk,
      List.getLast?_eq_some_getLast hne, Option.bind_some]
    exact iff_of_true (Style.ofValue?_isSome hkind hf) ⟨f, hf', hn⟩

/-- A truth value says something if it reads as true. -/
theorem saidIn_flag (r : Record) (tag : String) (number : Nat) :
    saidIn r ⟨tag, number, .flag⟩ = if r.flag number then some () else none := by
  rw [saidIn, Record.flag]
  dsimp only
  cases r.value? number with
  | none => rfl
  | some value =>
    rw [Option.bind_some, Option.bind_some, Style.ofValue?]
    cases value.flag? with
    | none => rfl
    | some b => cases b <;> rfl

theorem saidIn_isSome_iff (r : Record) (hf : slot.style = .flag) :
    (slot.saidIn r).isSome = true ↔ r.flag slot.number = true := by
  obtain ⟨tag, number, style⟩ := slot
  obtain rfl : style = .flag := hf
  rw [saidIn_flag]
  cases r.flag number <;> exact Iff.rfl

end Slot

/-! ## Rows of slots -/

theorem Text.zeroPadded_zero (n : Nat) : zeroPadded 0 n = toString n := by
  simp [zeroPadded, padLeft]

theorem Text.toString_eq_zeroPaddedInt (n : Int) : toString n = zeroPaddedInt 0 n := by
  rw [zeroPaddedInt, zeroPadded_zero]
  cases n with
  | ofNat m => rfl
  | negSucc m => rw [if_pos (Int.negSucc_lt_zero m)]; rfl

/-- The decimal text of a number tells the number. -/
theorem Text.toString_injective : Function.Injective (toString : Int → String) := by
  intro n m h
  have hread : ∀ n : Int, takeSigned (toString n).toList = some (n, []) := by
    intro n
    have ht := @takeSigned_zeroPaddedInt 0 [] n rfl
    rwa [List.append_nil, ← toString_eq_zeroPaddedInt] at ht
  have hn := hread n
  rw [h, hread m] at hn
  exact (Prod.mk.inj (Option.some.inj hn)).1.symm

/-- The text of a date and time tells the instant. -/
theorem DateTime.render_ofMillis_injective :
    Function.Injective fun millis => (DateTime.ofMillis millis).render := by
  intro millis other h
  have ht := congrArg DateTime.ofText? h
  simp only [DateTime.ofText?_render] at ht
  rw [← DateTime.toMillis_ofMillis millis, Option.some.inj ht, DateTime.toMillis_ofMillis]

namespace Markup

/-- An element that is there if something is true is an optional one. -/
theorem flag_eq_optional (tag : String) (present : Bool) : flag tag present =
    optional (fun tag () => [empty tag]) tag (if present then some () else none) := by
  cases present <;> rfl

theorem optional_map {α β : Type} (write : String → β → List Markup) (tag : String) (f : α → β)
    (a : Option α) : optional write tag (a.map f) = optional (fun tag a => write tag (f a)) tag a := by
  cases a <;> rfl

theorem getD_map_eq_optional {α : Type} (write : α → List Markup) (tag : String) (a : Option α) :
    (a.map write).getD [] = optional (fun _ => write) tag a := by
  cases a <;> rfl

/-- Behind the milliseconds of an expiration, nothing is taken for them. -/
theorem begun?_relative (relative : Bool) (tag : String) (rest : List Markup) :
    begun? (visible (flag "relative" relative ++ closing tag true :: rest)) ≠ some "millis" := by
  cases relative with
  | false => exact nofun
  | true =>
    intro h
    exact absurd (Option.some.inj h) (by decide)

theorem tells_expiration (tag : String) : Tells tag (Style.expiration.write tag) where
  begun e rest := rfl
  inj {e e' rest rest'} he := by
    obtain ⟨millis, relative⟩ := e
    obtain ⟨millis', relative'⟩ := e'
    have hmillis : Tells "millis" (number "millis") := .field Text.toString_injective
    have hclosing : ∀ rest, begun? (visible (closing tag true :: rest)) ≠ some "relative" :=
      fun _ => nofun
    simp only [Style.write, element, List.cons_append, List.append_assoc, List.nil_append] at he
    obtain ⟨rfl, hinner⟩ := hmillis.optional_inj (begun?_relative _ tag _) (begun?_relative _ tag _)
      (List.cons.inj he).2
    rw [flag_eq_optional, flag_eq_optional] at hinner
    obtain ⟨hrelative, hrest⟩ := Tells.empty.optional_inj (hclosing _) (hclosing _) hinner
    have hsame : relative = relative' := by
      cases relative <;> cases relative' <;> first | rfl | cases hrelative
    exact ⟨by rw [hsame], (List.cons.inj hrest).2⟩

end Markup

/-- What is written for a field tells what it says. -/
theorem Style.tells (style : Style) (tag : String) : Markup.Tells tag (style.write tag) := by
  cases style with
  | int32 | int64 => exact .field Text.toString_injective
  | date => exact .field DateTime.render_ofMillis_injective
  | text => exact .field Function.injective_id
  | hex => exact .field Bytes.hex_injective
  | flag => exact .empty
  | expiration => exact Markup.tells_expiration tag

section Tags

open Markup (Inner Nested childrenFrom)

variable {slots : List Slot} {said : (slot : Slot) → Option slot.style.Saying}

theorem Style.nested_write {style : Style} {tag : String} (ht : Inner tag)
    (saying : style.Saying) : Nested (style.write tag saying) := by
  cases style with
  | int32 | int64 | date | text | hex => exact .field ht
  | flag => exact .empty ht
  | expiration =>
    exact .element ht (.append (.optional fun _ => .number .millis) (.flag .relative))

/-- What is said is written as one element. -/
theorem Style.childrenFrom_write {style : Style} {tag : String} (ht : Inner tag)
    (saying : style.Saying) : childrenFrom 1 (style.write tag saying) = [tag] := by
  cases style with
  | int32 | int64 | date | text | hex | flag => rfl
  | expiration =>
    have hs : Markup.Single tag (Style.expiration.write tag saying) :=
      .element ht (.append (.optional fun _ => .number .millis) (.flag .relative))
    exact hs.childrenFrom_one

/-- The elements of a row are those of the slots of which something is said. -/
theorem childrenFrom_slotRow (ht : ∀ slot ∈ slots, Inner slot.tag) :
    childrenFrom 1 (slotRow said slots) =
      (slots.filter fun slot => (said slot).isSome).map Slot.tag := by
  induction slots with
  | nil => rfl
  | cons slot slots ih =>
    obtain ⟨hslot, hslots⟩ := List.forall_mem_cons.mp ht
    have hnested : Nested (Markup.optional slot.style.write slot.tag (said slot)) :=
      .optional fun saying => Style.nested_write hslot saying
    rw [slotRow_cons, hnested.childrenFrom_append, ih hslots]
    cases hs : said slot with
    | none => rw [List.filter_cons_of_neg (by simp [hs])]; rfl
    | some saying =>
      rw [List.filter_cons_of_pos (by simp [hs]), Markup.optional,
        Style.childrenFrom_write hslot saying]
      rfl

end Tags

/-! ## Sparse records -/

namespace SparseType

open Markup (Inner Nested)

variable (type : SparseType) {fields fields' : List WireField} {body body' : Bytes} {r r' : Record}

theorem inner_tags : ∀ slot ∈ type.slots, Inner slot.tag := by
  cases type with
  | delegationHeader =>
    simp only [slots, List.forall_mem_cons]
    exact ⟨.currentId, .tokenSequenceNumber, .numDelegationKeys, .numTokens, nofun⟩
  | delegationKey =>
    simp only [slots, List.forall_mem_cons]
    exact ⟨.id, .key, .expiry, nofun⟩
  | delegationToken =>
    simp only [slots, List.forall_mem_cons]
    exact ⟨.version, .owner, .renewer, .realUser, .issueDate, .maxDate, .sequenceNumber,
      .masterKeyId, .expiryDate, nofun⟩
  | cachePool =>
    simp only [slots, List.forall_mem_cons]
    exact ⟨.poolName, .ownerName, .groupName, .mode, .limit, .maxRelativeExpiry, nofun⟩
  | cacheDirective =>
    simp only [slots, List.forall_mem_cons]
    exact ⟨.id, .path, .replication, .pool, .expiration, nofun⟩
  | expiration =>
    simp only [slots, List.forall_mem_cons]
    exact ⟨.millis, .relative, nofun⟩

theorem nodup_tags : (type.slots.map Slot.tag).Nodup := by cases type <;> decide

/-- Every slot is one of a field of the type. -/
theorem slots_of : ∀ slot ∈ type.slots, slot.Of type.schema := by
  cases type <;> simp only [slots, List.forall_mem_cons] <;>
    repeat' apply And.intro
  all_goals first | exact ⟨_, rfl, rfl, rfl⟩ | exact nofun

/-- Every field of the type has a slot, and only one. -/
theorem perm_numbers :
    (type.slots.map Slot.number).Perm (type.schema.fields.map FieldOf.number) := by
  cases type <;> decide

/-- What is written for a record is the row of what it says. -/
theorem markup_eq_saidIn (r : Record) :
    type.markup r = type.enclose (slotRow (Slot.saidIn r) type.slots) := by
  cases type with
  | delegationHeader =>
    simp only [markup, DelegationHeader.markup, enclose, around?, slots, slotRow_cons, slotRow_nil,
      List.append_nil, List.append_assoc]
    rfl
  | delegationKey =>
    simp only [markup, DelegationKey.markup, Markup.optional_map, enclose, around?, slots,
      slotRow_cons, slotRow_nil, List.append_nil, List.append_assoc]
    rfl
  | delegationToken =>
    simp only [markup, DelegationToken.markup, enclose, around?, slots, slotRow_cons, slotRow_nil,
      List.append_nil, List.append_assoc]
    rfl
  | cachePool =>
    simp only [markup, CachePool.markup, enclose, around?, slots, slotRow_cons, slotRow_nil,
      List.append_nil, List.append_assoc]
    rfl
  | cacheDirective =>
    have hexpiration : ((CacheDirective.ofRecord r).expiration.map Expiration.markup).getD [] =
        Markup.optional Style.expiration.write "expiration"
          (Slot.saidIn r ⟨"expiration", 5, .expiration⟩) := by
      rw [Markup.getD_map_eq_optional _ "expiration", CacheDirective.ofRecord, Record.record?,
        Option.map_bind]
      rfl
    simp only [markup, CacheDirective.markup, hexpiration, enclose, around?, slots, slotRow_cons,
      slotRow_nil, List.append_nil, List.append_assoc]
    rfl
  | expiration =>
    simp only [markup, Expiration.markup, Expiration.ofRecord, Markup.flag_eq_optional, enclose,
      around?, slots, slotRow_cons, slotRow_nil, Slot.saidIn_flag, List.append_nil]
    rfl

/-- What is written for a body that has been read is the row of what its fields say. -/
theorem markup_eq (h : type.schema.parse body = .ok r)
    (hf : Spelled WireField.Spells fields body) :
    type.markup r = type.enclose (slotRow (Slot.said fields) type.slots) := by
  have hoccurs := LayoutOf.occurs_of_parse h hf
  have hrow : slotRow (Slot.saidIn r) type.slots = slotRow (Slot.said fields) type.slots :=
    List.flatMap_congr fun slot hm => by
      rw [Slot.saidIn_eq_said hoccurs (type.slots_of slot hm)]
  rw [markup_eq_saidIn, hrow]

theorem nested_markup (r : Record) : Nested (type.markup r) := by
  cases type with
  | delegationHeader => exact DelegationHeader.nested _
  | delegationKey => exact (DelegationKey.single _).nested
  | delegationToken => exact (DelegationToken.single _).nested
  | cachePool => exact (CachePool.single _).nested
  | cacheDirective => exact (CacheDirective.single _).nested
  | expiration => exact Expiration.nested _

/-- What stands behind the elements of the fields is not taken for one of them. -/
theorem exists_around : ∃ before after, Markup.begun? (Markup.visible after) = none ∧
    ∀ inside, Markup.visible (type.enclose inside) = before ++ Markup.visible (inside ++ after) := by
  unfold enclose
  cases type.around? with
  | none => exact ⟨[], [], rfl, fun inside => by rw [List.append_nil]; rfl⟩
  | some around =>
    obtain ⟨tag, newline⟩ := around
    exact ⟨[.opening tag], [.closing tag newline], rfl, fun inside => rfl⟩

/-- Records that are written as the same text say the same. -/
theorem said_eq_of_renderAll (h : type.schema.parse body = .ok r)
    (hf : Spelled WireField.Spells fields body) (h' : type.schema.parse body' = .ok r')
    (hf' : Spelled WireField.Spells fields' body')
    (he : Markup.renderAll (type.markup r) = Markup.renderAll (type.markup r')) :
    ∀ slot ∈ type.slots, slot.said fields = slot.said fields' := by
  have hv := (type.nested_markup r).row.visible_eq (type.nested_markup r').row he
  obtain ⟨before, after, hafter, haround⟩ := type.exists_around
  rw [type.markup_eq h hf, type.markup_eq h' hf', haround, haround, List.append_cancel_left_eq] at hv
  exact Markup.optionalRow_inj (fun slot _ => slot.style.tells slot.tag) type.nodup_tags hafter
    hafter hv

/-- The elements that are written for a body are those of its fields. They are there, in their order
and each once, for just the fields that occur, a truth value if it reads as true, and say what the
last occurrence says, be it zero or empty. Two bodies that are read, and of which one says of some
field what the other does not say, are written as different texts. -/
theorem mirrors_body :
    (type.slots.map Slot.tag).Nodup ∧
    (type.slots.map Slot.number).Perm (type.schema.fields.map FieldOf.number) ∧
    (∀ body fields r, type.schema.parse body = .ok r → Spelled WireField.Spells fields body →
      type.markup r = type.enclose (slotRow (Slot.said fields) type.slots) ∧
      Markup.childrenFrom 1 (slotRow (Slot.said fields) type.slots) =
        (type.slots.filter fun slot => (slot.said fields).isSome).map Slot.tag ∧
      ∀ slot ∈ type.slots, (slot.said fields).isSome = true ↔
        if slot.style = .flag then r.flag slot.number = true
        else ∃ f ∈ fields, f.number = slot.number) ∧
    ∀ body body' fields fields' r r', type.schema.parse body = .ok r →
      type.schema.parse body' = .ok r' → Spelled WireField.Spells fields body →
      Spelled WireField.Spells fields' body' →
      (∃ slot ∈ type.slots, slot.said fields ≠ slot.said fields') →
      Markup.renderAll (type.markup r) ≠ Markup.renderAll (type.markup r') := by
  refine ⟨type.nodup_tags, type.perm_numbers, fun body fields r h hf => ?_, ?_⟩
  · have hoccurs := LayoutOf.occurs_of_parse h hf
    refine ⟨type.markup_eq h hf, childrenFrom_slotRow type.inner_tags, fun slot hm => ?_⟩
    have hslot := type.slots_of slot hm
    split
    · rename_i hflag
      rw [← Slot.saidIn_eq_said hoccurs hslot]
      exact Slot.saidIn_isSome_iff r hflag
    · rename_i hflag
      exact Slot.said_isSome_iff hoccurs hslot hflag
  · rintro body body' fields fields' r r' h h' hf hf' ⟨slot, hm, hne⟩ he
    exact hne (type.said_eq_of_renderAll h hf h' hf' he slot hm)

/-- A directive whose identifier is given twice, with an empty path. -/
def relativeDirective : Bytes := [42, 2, 16, 1, 8, 7, 18, 0, 8, 0]

def relativeFields : List WireField :=
  [⟨5, .delimited [16, 1]⟩, ⟨1, .varint 7⟩, ⟨2, .delimited []⟩, ⟨1, .varint 0⟩]

/-- A directive that says the same, but that its expiration is not relative. -/
def absoluteDirective : Bytes := [42, 2, 16, 0, 18, 0, 8, 0]

def absoluteFields : List WireField :=
  [⟨5, .delimited [16, 0]⟩, ⟨2, .delimited []⟩, ⟨1, .varint 0⟩]

/-- The last identifier is written, though it is zero, and the path, though it is empty. -/
theorem mirrors_body_directive :
    let r : Record := [(5, [.record [(2, [.flag true])]]), (1, [.int 7]), (2, [.text ""]),
      (1, [.int 0])]
    let r' : Record := [(5, [.record [(2, [.flag false])]]), (2, [.text ""]), (1, [.int 0])]
    cacheDirective.markup r = Markup.element "directive" true
      (Markup.number "id" 0 ++ Markup.field "path" "" ++
        Markup.element "expiration" true [.empty "relative"]) ∧
    Markup.renderAll (cacheDirective.markup r) ≠ Markup.renderAll (cacheDirective.markup r') := by
  intro r r'
  have hparse : CacheDirective.schema.parse relativeDirective = .ok r := by cbv
  have hparse' : CacheDirective.schema.parse absoluteDirective = .ok r' := by cbv
  have hinner : Expiration.schema.parse [16, 1] = .ok [(2, [.flag true])] := by cbv
  have hinner' : Expiration.schema.parse [16, 0] = .ok [(2, [.flag false])] := by cbv
  have hfields : Spelled WireField.Spells relativeFields relativeDirective := by
    rw [← @Body.split_iff ""]
    cbv
  have hfields' : Spelled WireField.Spells absoluteFields absoluteDirective := by
    rw [← @Body.split_iff ""]
    cbv
  obtain ⟨-, -, -, htold⟩ := mirrors_body cacheDirective
  refine ⟨rfl, htold _ _ _ _ r r' hparse hparse' hfields hfields'
    ⟨⟨"expiration", 5, .expiration⟩, by simp [slots], fun he => ?_⟩⟩
  have hsaid : Style.decode .expiration (.delimited [16, 1]) =
      Style.decode .expiration (.delimited [16, 0]) := he
  rw [Style.decode, hinner, Style.decode, hinner'] at hsaid
  cases hsaid

end SparseType

end Checkpoint
