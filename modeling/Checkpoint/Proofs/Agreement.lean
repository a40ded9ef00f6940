import Checkpoint.Proofs.Bodies
import Checkpoint.Image.Catalog

/-! # Records that say the same

A record is kept as what its body said, with fields in any order and values that later ones have
replaced. Two records say the same if the same fields occur in them and show the same values. What
sections take from records is the same for records that say the same. -/
namespace Checkpoint

/-- What a record shows of a field: all its values if the field is repeated, and else the last. -/
def FieldOf.shown (field : Field) (r : Record) : List Value :=
  if field.repeated then r.values field.number else (r.value? field.number).toList

/-- Values of a kind are the same, where records inside only have to say the same. -/
inductive Value.Agree : Kind → Value → Value → Prop
  | refl (kind : Kind) (value : Value) : Agree kind value value
  | record {schema : Schema} {r r' : Record} :
      (∀ field ∈ schema.fields, r.has field.number = r'.has field.number) →
      (∀ field ∈ schema.fields, (field.shown r).length = (field.shown r').length) →
      (∀ field ∈ schema.fields, ∀ value value',
        (value, value') ∈ (field.shown r).zip (field.shown r') → Agree field.kind value value') →
      Agree (.message schema) (.record r) (.record r')

/-- Two records of a type say the same. -/
def LayoutOf.Agree (schema : Schema) (r r' : Record) : Prop :=
  Value.Agree (.message schema) (.record r) (.record r')

section Relations

variable {α β γ : Type} {R : α → β → Prop}

theorem rel_of_toList {o : Option α} {o' : Option β} (h : List.Forall₂ R o.toList o'.toList) :
    Option.Rel R o o' := by
  cases o with
  | none =>
    cases o' with
    | none => exact .none
    | some b => cases h
  | some a =>
    cases o' with
    | none => cases h
    | some b => exact .some (List.forall₂_cons.mp h).1

theorem map_eq_of_rel {o : Option α} {o' : Option β} (h : Option.Rel R o o') {f : α → γ}
    {g : β → γ} (hf : ∀ {a b}, R a b → f a = g b) : o.map f = o'.map g := by
  cases h with
  | none => rfl
  | some h => exact congrArg some (hf h)

theorem map_eq_of_forall₂ {xs : List α} {ys : List β} (h : List.Forall₂ R xs ys) {f : α → γ}
    {g : β → γ} (hf : ∀ {a b}, R a b → f a = g b) : xs.map f = ys.map g := by
  induction h with
  | nil => rfl
  | cons h _ ih => exact congrArg₂ List.cons (hf h) ih

end Relations

/-- Whether values of a kind have no records inside. -/
def Kind.isPlain : Kind → Bool
  | message _ => false
  | int32 | int64 | bool | enum | fixed32 | fixed64 | string | bytes => true

namespace Value.Agree

theorem eq {kind : Kind} {value value' : Value} (h : Agree kind value value')
    (hk : kind.isPlain = true) : value = value' := by
  cases h with
  | refl => rfl
  | record => cases hk

/-- Values that hold records hold some that say the same. -/
theorem record? {inner : Schema} {value value' : Value} (h : Agree (.message inner) value value') :
    Option.Rel inner.Agree value.record? value'.record? := by
  cases h with
  | refl =>
    generalize value.record? = found
    cases found with
    | none => exact .none
    | some s => exact .some (.refl _ _)
  | record hh hl hv => exact .some (.record hh hl hv)

end Value.Agree

namespace LayoutOf

/-- Whether the field of a number is plain, and repeated or not. -/
def shows (schema : Schema) (number : Nat) (repeated : Bool) : Bool :=
  (schema.field? number).any fun field => field.repeated == repeated && field.kind.isPlain

theorem exists_of_shows {schema : Schema} {number : Nat} {repeated : Bool}
    (h : schema.shows number repeated = true) : ∃ field, schema.field? number = some field ∧
      field.repeated = repeated ∧ field.kind.isPlain = true := by
  rw [shows] at h
  cases hf : schema.field? number with
  | none => rw [hf] at h; cases h
  | some field =>
    rw [hf, Option.any_some, Bool.and_eq_true, beq_iff_eq] at h
    exact ⟨field, rfl, h⟩

/-- The field of a number holds records of a type, and is repeated or not. -/
def Nests (schema : Schema) (number : Nat) (repeated : Bool) (inner : Schema) : Prop :=
  ∃ field, schema.field? number = some field ∧ field.repeated = repeated ∧
    field.kind = .message inner

namespace Agree

variable {schema inner : Schema} {r r' : Record}

theorem refl (schema : Schema) (r : Record) : schema.Agree r r := Value.Agree.refl _ _

section Field

variable (h : schema.Agree r r') {number : Nat} {field : Field}
  (hf : schema.field? number = some field)
include h hf

theorem shown : List.Forall₂ (Value.Agree field.kind) (field.shown r) (field.shown r') := by
  have hm : field ∈ schema.fields := List.mem_of_find?_eq_some hf
  cases h with
  | refl => exact List.forall₂_same.mpr fun value _ => .refl _ value
  | record _ hl hv =>
    exact List.forall₂_iff_zip.mpr ⟨hl field hm, fun {value value'} => hv field hm value value'⟩

theorem forall₂_values (hr : field.repeated = true) :
    List.Forall₂ (Value.Agree field.kind) (r.values number) (r'.values number) := by
  have hs := h.shown hf
  rwa [FieldOf.shown, FieldOf.shown, if_pos hr, if_pos hr, number_of_field? hf] at hs

theorem rel_value? (hr : field.repeated = false) :
    Option.Rel (Value.Agree field.kind) (r.value? number) (r'.value? number) := by
  have hs := h.shown hf
  have hr : ¬field.repeated = true := by simp [hr]
  rw [FieldOf.shown, FieldOf.shown, if_neg hr, if_neg hr, number_of_field? hf] at hs
  exact rel_of_toList hs

end Field

/-! ### Plain fields -/

section Plain

variable (h : schema.Agree r r') (number : Nat)
include h

theorem values (hs : schema.shows number true = true) : r.values number = r'.values number := by
  obtain ⟨field, hf, hr, hk⟩ := exists_of_shows hs
  have hm := map_eq_of_forall₂ (h.forall₂_values hf hr) (f := id) (g := id) fun hv => hv.eq hk
  rwa [List.map_id, List.map_id] at hm

theorem value? (hs : schema.shows number false = true) : r.value? number = r'.value? number := by
  obtain ⟨field, hf, hr, hk⟩ := exists_of_shows hs
  have hm := map_eq_of_rel (h.rel_value? hf hr) (f := id) (g := id) fun hv => hv.eq hk
  rwa [Option.map_id_fun, id, id] at hm

theorem int? (hs : schema.shows number false = true) :
    r.int? number = r'.int? number := by
  rw [Record.int?, Record.int?, h.value? number hs]

theorem int (hs : schema.shows number false = true) :
    r.int number = r'.int number := by
  rw [Record.int, Record.int, h.int? number hs]

theorem nat (hs : schema.shows number false = true) :
    r.nat number = r'.nat number := by
  rw [Record.nat, Record.nat, h.int number hs]

theorem flag (hs : schema.shows number false = true) :
    r.flag number = r'.flag number := by
  rw [Record.flag, Record.flag, h.value? number hs]

theorem text? (hs : schema.shows number false = true) :
    r.text? number = r'.text? number := by
  rw [Record.text?, Record.text?, h.value? number hs]

theorem text (hs : schema.shows number false = true) :
    r.text number = r'.text number := by
  rw [Record.text, Record.text, h.text? number hs]

theorem bytes? (hs : schema.shows number false = true) :
    r.bytes? number = r'.bytes? number := by
  rw [Record.bytes?, Record.bytes?, h.value? number hs]

theorem bytes (hs : schema.shows number false = true) :
    r.bytes number = r'.bytes number := by
  rw [Record.bytes, Record.bytes, h.bytes? number hs]

theorem ints (hs : schema.shows number true = true) :
    r.ints number = r'.ints number := by
  rw [Record.ints, Record.ints, h.values number hs]

end Plain

/-! ### Records inside -/

section Nested

variable (h : schema.Agree r r') (number : Nat)
include h

theorem record? (hs : schema.Nests number false inner) :
    Option.Rel inner.Agree (r.record? number) (r'.record? number) := by
  obtain ⟨field, hf, hr, hk⟩ := hs
  have hv := hk ▸ h.rel_value? hf hr
  rw [Record.record?, Record.record?]
  generalize r.value? number = found, r'.value? number = found' at hv
  cases hv with
  | none => exact .none
  | some hv => exact hv.record?

theorem records (hs : schema.Nests number true inner) :
    List.Forall₂ inner.Agree (r.records number) (r'.records number) := by
  obtain ⟨field, hf, hr, hk⟩ := hs
  exact List.rel_filterMap (fun _ _ hv => Value.Agree.record? hv) (hk ▸ h.forall₂_values hf hr)

end Nested

end Agree

end LayoutOf

/-! ## Record types -/

section Types

variable {r r' : Record}

theorem Block.ofRecord_agree (h : schema.Agree r r') : ofRecord r = ofRecord r' := by
  rw [ofRecord, ofRecord, h.int 1 rfl, h.int 2 rfl, h.int 3 rfl]

theorem Lease.ofRecord_agree (h : schema.Agree r r') : ofRecord r = ofRecord r' := by
  rw [ofRecord, ofRecord, h.text 1 rfl, h.text 2 rfl]

theorem AclEntry.listOfRecord_agree (h : schema.Agree r r') : listOfRecord r = listOfRecord r' := by
  rw [listOfRecord, listOfRecord, h.ints 2 rfl]

theorem Xattr.ofRecord_agree (h : schema.Agree r r') : ofRecord r = ofRecord r' := by
  rw [ofRecord, ofRecord, h.nat 1 rfl, h.bytes 2 rfl]

theorem Xattr.listOfRecord_agree (h : listSchema.Agree r r') : listOfRecord r = listOfRecord r' :=
  map_eq_of_forall₂ (h.records 1 ⟨_, rfl, rfl, rfl⟩) ofRecord_agree

theorem TypeQuota.ofRecord_agree (h : schema.Agree r r') : ofRecord r = ofRecord r' := by
  rw [ofRecord, ofRecord, h.int? 1 rfl, h.int 2 rfl]

theorem TypeQuota.listOfRecord_agree (h : listSchema.Agree r r') :
    listOfRecord r = listOfRecord r' :=
  map_eq_of_forall₂ (h.records 1 ⟨_, rfl, rfl, rfl⟩) ofRecord_agree

theorem FileInode.ofRecord_agree (h : schema.Agree r r') : ofRecord r = ofRecord r' := by
  rw [ofRecord, ofRecord, h.int 1 rfl, h.int 2 rfl, h.int 3 rfl, h.int 4 rfl, h.nat 5 rfl,
    map_eq_of_forall₂ (h.records 6 ⟨_, rfl, rfl, rfl⟩) Block.ofRecord_agree,
    map_eq_of_rel (h.record? 7 ⟨_, rfl, rfl, rfl⟩) Lease.ofRecord_agree,
    map_eq_of_rel (h.record? 8 ⟨_, rfl, rfl, rfl⟩) AclEntry.listOfRecord_agree,
    map_eq_of_rel (h.record? 9 ⟨_, rfl, rfl, rfl⟩) Xattr.listOfRecord_agree, h.int? 10 rfl,
    h.flag 11 rfl]

theorem DirectoryInode.ofRecord_agree (h : schema.Agree r r') : ofRecord r = ofRecord r' := by
  rw [ofRecord, ofRecord, h.int 1 rfl, h.int? 2 rfl, h.int? 3 rfl, h.nat 4 rfl,
    map_eq_of_rel (h.record? 5 ⟨_, rfl, rfl, rfl⟩) AclEntry.listOfRecord_agree,
    map_eq_of_rel (h.record? 6 ⟨_, rfl, rfl, rfl⟩) Xattr.listOfRecord_agree,
    map_eq_of_rel (h.record? 7 ⟨_, rfl, rfl, rfl⟩) TypeQuota.listOfRecord_agree]

theorem SymlinkInode.ofRecord_agree (h : schema.Agree r r') : ofRecord r = ofRecord r' := by
  rw [ofRecord, ofRecord, h.nat 1 rfl, h.bytes 2 rfl, h.int 3 rfl, h.int 4 rfl]

theorem InodeContent.ofRecord_agree (h : Inode.schema.Agree r r') : ofRecord r = ofRecord r' := by
  have hf : Option.Rel FileInode.schema.Agree (r.record? 4) (r'.record? 4) :=
    h.record? 4 ⟨_, rfl, rfl, rfl⟩
  have hd : Option.Rel DirectoryInode.schema.Agree (r.record? 5) (r'.record? 5) :=
    h.record? 5 ⟨_, rfl, rfl, rfl⟩
  have hl : Option.Rel SymlinkInode.schema.Agree (r.record? 6) (r'.record? 6) :=
    h.record? 6 ⟨_, rfl, rfl, rfl⟩
  rw [ofRecord, ofRecord]
  generalize r.record? 4 = f, r'.record? 4 = f' at hf
  generalize r.record? 5 = d, r'.record? 5 = d' at hd
  generalize r.record? 6 = l, r'.record? 6 = l' at hl
  cases hf with
  | some hf => exact congrArg file (FileInode.ofRecord_agree hf)
  | none =>
    cases hd with
    | some hd => exact congrArg directory (DirectoryInode.ofRecord_agree hd)
    | none =>
      cases hl with
      | some hl => exact congrArg symlink (SymlinkInode.ofRecord_agree hl)
      | none => rfl

theorem Inode.ofRecord_agree (h : schema.Agree r r') : ofRecord r = ofRecord r' := by
  rw [ofRecord, ofRecord, h.int? 1 rfl, h.int 2 rfl, h.bytes 3 rfl, InodeContent.ofRecord_agree h]

theorem NameSystem.ofRecord_agree (h : schema.Agree r r') : ofRecord r = ofRecord r' := by
  rw [ofRecord, ofRecord, h.int 1 rfl, h.int 2 rfl, h.int 3 rfl, h.int 4 rfl, h.int 5 rfl,
    h.int 6 rfl]

theorem StringTable.entry_agree (h : entrySchema.Agree r r') (bound : Nat) :
    entry bound r = entry bound r' := by
  rw [entry, entry, h.int 1 rfl, h.text 2 rfl]

theorem InodeReference.ofRecord_agree (h : schema.Agree r r') : ofRecord r = ofRecord r' := by
  rw [ofRecord, ofRecord, h.int 1 rfl, h.bytes 2 rfl, h.int 3 rfl, h.int 4 rfl]

theorem DirectoryLinks.ofRecord_agree (h : schema.Agree r r') : ofRecord r = ofRecord r' := by
  rw [ofRecord, ofRecord, h.int 1 rfl, h.ints 2 rfl, h.ints 3 rfl]

theorem OpenFile.ofRecord_agree (h : schema.Agree r r') : ofRecord r = ofRecord r' := by
  rw [ofRecord, ofRecord, h.int 1 rfl, h.text 2 rfl]

theorem SnapshotHeader.ofRecord_agree (h : schema.Agree r r') : ofRecord r = ofRecord r' := by
  rw [ofRecord, ofRecord, h.int 1 rfl, h.ints 2 rfl, h.int 3 rfl]

theorem Snapshot.ofRecord_agree (h : schema.Agree r r') : ofRecord r = ofRecord r' := by
  have hroot : Option.Rel Inode.schema.Agree (r.record? 2) (r'.record? 2) :=
    h.record? 2 ⟨_, rfl, rfl, rfl⟩
  rw [ofRecord, ofRecord, h.int 1 rfl]
  generalize r.record? 2 = root, r'.record? 2 = root' at hroot
  cases hroot with
  | none => rfl
  | some hr => exact congrArg (Snapshot.mk _) (Inode.ofRecord_agree hr)

theorem DiffEntry.ofRecord_agree (h : schema.Agree r r') : ofRecord r = ofRecord r' := by
  rw [ofRecord, ofRecord, h.int? 1 rfl, h.int 2 rfl, h.int 3 rfl]

theorem FileDiff.ofRecord_agree (h : schema.Agree r r') : ofRecord r = ofRecord r' := by
  rw [ofRecord, ofRecord, h.int 1 rfl, h.int 2 rfl, h.bytes 3 rfl]

theorem DirectoryDiff.ofRecord_agree (h : schema.Agree r r') : ofRecord r = ofRecord r' := by
  rw [ofRecord, ofRecord, h.int 1 rfl, h.int 2 rfl, h.flag 3 rfl, h.bytes 4 rfl, h.int 6 rfl,
    h.ints 7 rfl, h.ints 8 rfl]

theorem CreatedEntry.ofRecord_agree (h : schema.Agree r r') : ofRecord r = ofRecord r' := by
  rw [ofRecord, ofRecord, h.bytes 1 rfl]

theorem DelegationHeader.ofRecord_agree (h : schema.Agree r r') : ofRecord r = ofRecord r' := by
  rw [ofRecord, ofRecord, h.int? 1 rfl, h.int? 2 rfl, h.int? 3 rfl, h.int? 4 rfl]

theorem DelegationKey.ofRecord_agree (h : schema.Agree r r') : ofRecord r = ofRecord r' := by
  rw [ofRecord, ofRecord, h.int? 1 rfl, h.int? 2 rfl, h.bytes? 3 rfl]

theorem DelegationToken.ofRecord_agree (h : schema.Agree r r') : ofRecord r = ofRecord r' := by
  rw [ofRecord, ofRecord, h.int? 1 rfl, h.text? 2 rfl, h.text? 3 rfl, h.text? 4 rfl, h.int? 5 rfl,
    h.int? 6 rfl, h.int? 7 rfl, h.int? 8 rfl, h.int? 9 rfl]

theorem CacheHeader.ofRecord_agree (h : schema.Agree r r') : ofRecord r = ofRecord r' := by
  rw [ofRecord, ofRecord, h.int 1 rfl, h.int 2 rfl, h.int 3 rfl]

theorem CachePool.ofRecord_agree (h : schema.Agree r r') : ofRecord r = ofRecord r' := by
  rw [ofRecord, ofRecord, h.text? 1 rfl, h.text? 2 rfl, h.text? 3 rfl, h.int? 4 rfl, h.int? 5 rfl,
    h.int? 6 rfl]

theorem Expiration.ofRecord_agree (h : schema.Agree r r') : ofRecord r = ofRecord r' := by
  rw [ofRecord, ofRecord, h.int? 1 rfl, h.flag 2 rfl]

theorem CacheDirective.ofRecord_agree (h : schema.Agree r r') : ofRecord r = ofRecord r' := by
  rw [ofRecord, ofRecord, h.int? 1 rfl, h.text? 2 rfl, h.int? 3 rfl, h.text? 4 rfl,
    map_eq_of_rel (h.record? 5 ⟨_, rfl, rfl, rfl⟩) Expiration.ofRecord_agree]

end Types

end Checkpoint
