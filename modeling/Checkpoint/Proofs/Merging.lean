import Checkpoint.Proofs.Attributes
import Checkpoint.Proofs.FieldOrder

/-! # Bodies one after the other

A body that has been read leaves nothing behind that what follows it could depend on. Another body
after it is read as if it stood alone, and the two of them as one record: a single field keeps what
it has been given last, and a repeated field the values of both. -/
namespace Checkpoint

namespace Body

variable {record : String} {f : WireField} {fields : List WireField} {body rest : Bytes}

/-- What has been found before stays in front of what is found. -/
theorem splitInto_append (found before : List WireField) (body : Bytes) :
    splitInto record (found ++ before) body =
      ⟨before.reverse ++ (splitInto record found body).fields,
        (splitInto record found body).problem⟩ := by
  induction found, body using splitInto.induct record with
  | case1 found => simp [splitInto]
  | case2 found b tail f rest hd _ ih =>
    rw [splitInto_of_field hd, splitInto_of_field hd]
    exact ih
  | case3 found b tail problem hd => simp [splitInto_of_error hd]

/-- The field in front is found first. -/
theorem split_of_field (h : field record body = .ok (f, rest)) :
    split record body = ⟨f :: (split record rest).fields, (split record rest).problem⟩ := by
  rw [split, splitInto_of_field h]
  exact splitInto_append [] [f] rest

/-- The fields of bytes that are spelled as fields are found before all that follows them. -/
theorem split_append (h : Spelled WireField.Spells fields body) (rest : Bytes) :
    split record (body ++ rest) =
      ⟨fields ++ (split record rest).fields, (split record rest).problem⟩ := by
  induction fields generalizing body with
  | nil =>
    rw [spelled_nil.mp h]
    rfl
  | cons f fields ih =>
    obtain ⟨first, others, rfl, hf, hothers⟩ := spelled_cons.mp h
    have hread := (reads_field record).ok hf (others ++ rest)
    rw [List.append_assoc, split_of_field hread, ih hothers]
    rfl

end Body

namespace LayoutOf

variable {schema : Schema} {first : Bytes} {r s : Record}

theorem named_append (schema : Schema) (fields others : List WireField) :
    schema.named (fields ++ others) = schema.named fields ++ schema.named others := by
  simp [named]

/-- A body behind one that has been read is read as if it stood alone. -/
theorem parse_append_eq (h : schema.parse first = .ok r) (second : Bytes) :
    schema.parse (first ++ second) = (schema.parse second).map (r ++ ·) := by
  obtain ⟨fields, hfields, hoccurs⟩ := parse_eq_ok_iff.mp h
  have hread : readFields parse schema fields = .ok r := readFields_iff.mpr hoccurs
  unfold readFields at hread
  rw [parse_eq, parse_eq, Body.split_append hfields, readFields, named_append, List.mapM_append,
    hread]
  dsimp only
  rw [← readFields]
  cases readFields parse schema (Body.split schema.name second).fields with
  | error problem => rfl
  | ok found =>
    cases (Body.split schema.name second).problem with
    | none => rfl
    | some problem => rfl

/-- A record `t` that says what `r` says and after it what `s` says: a single field has the value in
`s`, if it occurs there, and a repeated field has the values of both. -/
structure Merges (schema : Schema) (r s t : Record) : Prop where
  has : ∀ number, t.has number = (r.has number || s.has number)
  single : ∀ name field, schema.Names name false field →
    field.read t = if s.has field.number then field.read s else field.read r
  repeated : ∀ name field, schema.Names name true field → ∃ earlier later,
    field.read r = .many earlier ∧ field.read s = .many later ∧
      field.read t = .many (earlier ++ later)

/-- The occurrences of two records one after the other merge them. -/
theorem Typed.merges (hs : schema.Typed s) (r : Record) : schema.Merges r s (r ++ s) where
  has := Record.has_append r s
  single name field hn := by
    cases hhas : s.has field.number with
    | false =>
      rw [if_neg Bool.false_ne_true]
      refine FieldOf.read_congr ?_
      rw [Record.values_append, Record.values_of_not_has hhas, List.append_nil]
    | true =>
      obtain ⟨value, hv⟩ := hs.exists_value? hn hhas
      have hlast : (Record.values (r ++ s) field.number).getLast? = some value := by
        rw [Record.values_append, List.getLast?_append, show (s.values _).getLast? = _ from hv]
        rfl
      rw [if_pos rfl, FieldOf.read_of_single hn.repeated hlast,
        FieldOf.read_of_single hn.repeated hv]
  repeated name field hn := by
    simp only [FieldOf.read_of_repeated hn.repeated, Record.values_append]
    exact ⟨_, _, rfl, rfl, rfl⟩

/-- A body that is read can be followed by any other: the two together are read exactly if the other
one is, with the problem of the other one if it is not, and what is read merges the two records. -/
theorem parse_append (h : schema.parse first = .ok r) (second : Bytes) :
    ((∃ t, schema.parse (first ++ second) = .ok t) ↔ ∃ s, schema.parse second = .ok s) ∧
    (∀ problem, schema.parse (first ++ second) = .error problem ↔
      schema.parse second = .error problem) ∧
    ∀ s t, schema.parse second = .ok s → schema.parse (first ++ second) = .ok t →
      schema.Merges r s t := by
  rw [parse_append_eq h]
  cases hp : schema.parse second with
  | error problem => exact ⟨by simp [Except.map], fun other => by simp [Except.map], nofun⟩
  | ok found =>
    refine ⟨by simp [Except.map], fun other => by simp [Except.map], ?_⟩
    rintro s t hs ht
    obtain rfl := Except.ok.inj hs
    obtain rfl := Except.ok.inj ht
    exact (typed_of_parse hp).merges r

/-- A file with one block and one access control entry. -/
def openedFile : Bytes := [8, 3, 50, 2, 8, 1, 66, 5, 21, 64, 0, 0, 0]

/-- Another block, and an access control entry in the place of the one before. -/
def continuedFile : Bytes := [50, 2, 8, 2, 66, 5, 21, 128, 0, 0, 0]

def openedRecord : Record :=
  [(1, [.int 3]), (6, [.record [(1, [.int 1])]]), (8, [.record [(2, [.int 64])]])]

def continuedRecord : Record := [(6, [.record [(1, [.int 2])]]), (8, [.record [(2, [.int 128])]])]

theorem parse_append_continuedFile :
    (∃ t, FileInode.schema.parse (openedFile ++ continuedFile) = .ok t ∧
      FileInode.schema.Merges openedRecord continuedRecord t) ∧
    FileInode.schema.parse (openedFile ++ [8]) = .error (.truncatedVarint "INodeFile") := by
  have hopened : FileInode.schema.parse openedFile = .ok openedRecord := by cbv
  have hcontinued : FileInode.schema.parse continuedFile = .ok continuedRecord := by cbv
  have hcut : FileInode.schema.parse [8] = .error (.truncatedVarint "INodeFile") := by cbv
  obtain ⟨haccepted, -, hmerges⟩ := parse_append hopened continuedFile
  obtain ⟨t, ht⟩ := haccepted.mpr ⟨_, hcontinued⟩
  exact ⟨⟨t, ht, hmerges _ t hcontinued ht⟩, ((parse_append hopened [8]).2.1 _).mpr hcut⟩

end LayoutOf

end Checkpoint
