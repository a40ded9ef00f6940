import Mathlib.Algebra.Group.Nat.Defs
import Checkpoint.Proofs.Failures
import Checkpoint.Proofs.Names

/-! # Taking packed words apart

Permissions, access control entries and attribute names are put together from their parts by shifts,
and what is shown for a word is what its parts say, whatever the bits hold that belong to no part.
A word is taken to be the concatenation of its parts here, so that a part is found where it was put
by the laws of slices of a concatenation. -/
namespace Checkpoint

/-! ## Parts of a word -/

theorem bitField_toNat {n : Nat} (word : BitVec n) (offset width : Nat) :
    bitField word.toNat offset width = (word.extractLsb' offset width).toNat := by
  rw [bitField, Nat.one_shiftLeft, BitVec.extractLsb'_toNat]

/-! ## Digits -/

namespace Text

/-- The last digits of a number, as many as the width says. -/
def digits (base : Nat) : Nat → Nat → List Char
  | 0, _ => []
  | width + 1, n => digits base width (n / base) ++ [(n % base).digitChar]

/-- A number that has no more digits than the width is padded to exactly its last digits. -/
theorem padLeft_toDigits {base : Nat} (hbase : 1 < base) (width : Nat) {n : Nat}
    (hn : n < base ^ (width + 1)) :
    padLeft (width + 1) '0' (String.ofList (Nat.toDigits base n)) =
      String.ofList (digits base (width + 1) n) := by
  rw [padLeft, String.length_ofList, ← String.ofList_append]
  congr 1
  induction width generalizing n with
  | zero =>
    have hlt : n < base := by simpa using hn
    rw [Nat.toDigits_of_lt_base hlt]
    simp [digits, Nat.mod_eq_of_lt hlt]
  | succ width ih =>
    rw [digits]
    by_cases hlt : n < base
    · -- the quotient is zero, and the digit that stands for it is one of the padding
      have hzero := ih (n := 0) (Nat.pow_pos (by omega))
      rw [Nat.toDigits_zero] at hzero
      rw [Nat.toDigits_of_lt_base hlt, Nat.div_eq_of_lt hlt, Nat.mod_eq_of_lt hlt, ← hzero,
        ← List.replicate_succ']
      rfl
    · have hdiv : n / base < base ^ (width + 1) := by
        rw [Nat.div_lt_iff_lt_mul (by omega), ← Nat.pow_succ]
        exact hn
      rw [Nat.toDigits_of_base_le hbase (by omega), ← ih hdiv, List.length_append,
        List.length_singleton, Nat.add_sub_add_right, List.append_assoc]

end Text

/-- A mode is shown with four octal digits. -/
theorem Permission.modeText_eq (mode : Nat) :
    modeText mode = String.ofList (Text.digits 8 4 (mode &&& 0o1777)) :=
  Text.padLeft_toDigits (by decide) 3 (Nat.lt_of_le_of_lt Nat.and_le_right (by decide))

example : Permission.modeText 0o42755 = "0755" := by decide

/-! ## Permissions -/

/-- What a permission is put together from. -/
structure PermissionParts where
  user : BitVec 24
  group : BitVec 24
  mode : BitVec 16

namespace PermissionParts

def word (p : PermissionParts) : Nat :=
  p.user.toNat <<< 40 ||| p.group.toNat <<< 16 ||| p.mode.toNat

theorem word_eq (p : PermissionParts) : p.word = (p.user ++ p.group ++ p.mode).toNat := by
  simp only [word, BitVec.toNat_append, Nat.shiftLeft_or_distrib, ← Nat.shiftLeft_add]

theorem ofWord_word (p : PermissionParts) :
    Permission.ofWord p.word = ⟨p.user.toNat, p.group.toNat, p.mode.toNat⟩ := by
  rw [word_eq]
  simp only [Permission.ofWord, bitField_toNat, Nat.reduceAdd]
  congr 2
  · rw [BitVec.append_assoc]
    exact BitVec.extractLsb'_append_eq_left
  · rw [BitVec.extractLsb'_append_eq_of_le (by decide)]
    exact BitVec.extractLsb'_append_eq_right
  · exact BitVec.extractLsb'_append_eq_right

/-- What is shown for a permission, or the problem with the first identifier that is too large. -/
def shown (p : PermissionParts) (strings : StringTable) : Except RecordProblem String :=
  if strings.bound < p.user.toNat then .error (.idOutOfRange p.user.toNat)
  else if strings.bound < p.group.toNat then .error (.idOutOfRange p.group.toNat)
  else .ok (strings.texts[p.user.toNat]?.getD "null" ++ ":" ++
    strings.texts[p.group.toNat]?.getD "null" ++ ":" ++
    String.ofList (Text.digits 8 4 (p.mode.toNat &&& 0o1777)))

theorem render_ofWord (p : PermissionParts) (strings : StringTable) :
    (Permission.ofWord p.word).render strings = p.shown strings := by
  rw [ofWord_word, shown, Permission.render]
  simp only [StringTable.lookup_natCast, Permission.modeText_eq]
  by_cases hu : strings.bound < p.user.toNat
  · rw [if_pos hu, if_pos hu]
    rfl
  · by_cases hg : strings.bound < p.group.toNat
    · rw [if_neg hu, if_neg hu, if_pos hg, if_pos hg]
      rfl
    · rw [if_neg hu, if_neg hu, if_neg hg, if_neg hg]
      rfl

end PermissionParts

/-! ## Access control entries -/

/-- The labels of subjects, by their codes. -/
def AclSubject.labels : List String := ["user", "group", "mask", "other"]

/-- What an access control entry is put together from. The two bits on top mean nothing. -/
structure AclParts where
  unused : BitVec 2
  name : BitVec 24
  scope : BitVec 1
  subject : BitVec 2
  action : BitVec 3

namespace AclParts

def word (e : AclParts) : Nat :=
  e.unused.toNat <<< 30 ||| e.name.toNat <<< 6 ||| e.scope.toNat <<< 5 |||
    e.subject.toNat <<< 3 ||| e.action.toNat

theorem word_eq (e : AclParts) :
    e.word = (e.unused ++ e.name ++ e.scope ++ e.subject ++ e.action).toNat := by
  simp only [word, BitVec.toNat_append, Nat.shiftLeft_or_distrib, ← Nat.shiftLeft_add]

theorem bitField_name (e : AclParts) : bitField e.word 6 24 = e.name.toNat := by
  rw [word_eq, bitField_toNat, BitVec.extractLsb'_append_eq_of_le (by decide),
    BitVec.extractLsb'_append_eq_of_le (by decide), BitVec.extractLsb'_append_eq_of_le (by decide)]
  exact congrArg _ BitVec.extractLsb'_append_eq_right

theorem bitField_scope (e : AclParts) : bitField e.word 5 1 = e.scope.toNat := by
  rw [word_eq, bitField_toNat, BitVec.extractLsb'_append_eq_of_le (by decide),
    BitVec.extractLsb'_append_eq_of_le (by decide)]
  exact congrArg _ BitVec.extractLsb'_append_eq_right

theorem bitField_subject (e : AclParts) : bitField e.word 3 2 = e.subject.toNat := by
  rw [word_eq, bitField_toNat, BitVec.extractLsb'_append_eq_of_le (by decide)]
  exact congrArg _ BitVec.extractLsb'_append_eq_right

theorem bitField_action (e : AclParts) : bitField e.word 0 3 = e.action.toNat := by
  rw [word_eq, bitField_toNat]
  exact congrArg _ BitVec.extractLsb'_append_eq_right

/-- The text for an entry. -/
def text (e : AclParts) (strings : StringTable) : String :=
  (if e.scope = 1 then "default:" else "") ++ AclSubject.labels.get e.subject.toFin ++ ":" ++
    strings.texts[e.name.toNat]?.getD "" ++ ":" ++ AclEntry.actionTexts.get e.action.toFin

/-- What is shown for a list of entries, or the problem with the first identifier that is too
large. -/
def shownAll (entries : List AclParts) (strings : StringTable) :
    Except RecordProblem (List String) :=
  match entries.find? fun e => strings.bound < e.name.toNat with
  | some e => .error (.idOutOfRange e.name.toNat)
  | none => .ok (entries.map (·.text strings))

theorem isDefault_ofWord (e : AclParts) :
    (AclEntry.ofWord e.word).isDefault = decide (e.scope = 1) := by
  have hall : ∀ scope : BitVec 1, (scope.toNat == 1) = decide (scope = 1) := by decide
  rw [AclEntry.ofWord, bitField_scope]
  exact hall e.scope

theorem label_ofWord (e : AclParts) :
    (AclEntry.ofWord e.word).subject.label = AclSubject.labels.get e.subject.toFin := by
  have hall : ∀ code < 4, AclSubject.labels[code]? = some (AclSubject.ofBits code).label := by
    decide
  have h := hall e.subject.toNat e.subject.isLt
  rw [List.getElem?_eq_getElem e.subject.isLt] at h
  rw [AclEntry.ofWord, bitField_subject]
  exact (Option.some.inj h).symm

theorem actionText_ofWord (e : AclParts) :
    AclEntry.actionText (AclEntry.ofWord e.word).action =
      AclEntry.actionTexts.get e.action.toFin := by
  have h := AclEntry.actionTexts_bitField e.word
  rw [bitField_action, List.getElem?_eq_getElem e.action.isLt] at h
  exact (Option.some.inj h).symm

theorem render_ofWord (e : AclParts) (strings : StringTable) :
    (AclEntry.ofWord e.word).render strings =
      if strings.bound < e.name.toNat then .error (.idOutOfRange e.name.toNat)
      else .ok (e.text strings) := by
  have hname : (AclEntry.ofWord e.word).nameId = e.name.toNat := bitField_name e
  rw [AclEntry.render, hname, StringTable.lookup_natCast, isDefault_ofWord, label_ofWord,
    actionText_ofWord]
  by_cases h : strings.bound < e.name.toNat
  · rw [if_pos h, if_pos h]
    rfl
  · rw [if_neg h, if_neg h, text]
    simp only [decide_eq_true_eq]
    rfl

/-- A list of entries is shown as a whole, or not at all. -/
theorem renderAll_ofWord (entries : List AclParts) (strings : StringTable) :
    AclEntry.renderAll (entries.map fun e => AclEntry.ofWord e.word) strings =
      shownAll entries strings := by
  induction entries with
  | nil => rfl
  | cons e rest ih =>
    rw [AclEntry.renderAll] at ih ⊢
    rw [List.map_cons, List.mapM_cons, ih, render_ofWord, shownAll, shownAll]
    by_cases h : strings.bound < e.name.toNat
    · rw [if_pos h, List.find?_cons_of_pos (by simpa using h)]
      rfl
    · rw [if_neg h, List.find?_cons_of_neg (by simpa using h)]
      cases rest.find? fun e => strings.bound < e.name.toNat <;> rfl

theorem listOfRecord_eq {entries : List AclParts} {r : Record}
    (h : r.ints 2 = entries.map fun e => (e.word : Int)) :
    AclEntry.listOfRecord r = entries.map fun e => AclEntry.ofWord e.word := by
  rw [AclEntry.listOfRecord, h, List.map_map]
  rfl

end AclParts

/-! ## Attribute names -/

/-- The namespaces, by their codes. -/
def XattrNamespace.coded : List XattrNamespace := [user, trusted, security, system, raw]

/-- What the name of an attribute is put together from. The five bits below mean nothing. -/
structure XattrParts where
  ns : BitVec 3
  name : BitVec 24
  unused : BitVec 5

namespace XattrParts

/-- The two lower bits of the namespace stand on top and the upper one behind the identifier. -/
def word (x : XattrParts) : Nat :=
  (x.ns.toNat % 4) <<< 30 ||| x.name.toNat <<< 6 ||| (x.ns.toNat / 4) <<< 5 ||| x.unused.toNat

theorem toNat_lower (x : XattrParts) : (x.ns.extractLsb' 0 2).toNat = x.ns.toNat % 4 :=
  BitVec.extractLsb'_toNat 0 2 x.ns

theorem toNat_upper (x : XattrParts) : (x.ns.extractLsb' 2 1).toNat = x.ns.toNat / 4 := by
  rw [BitVec.extractLsb'_toNat, Nat.shiftRight_eq_div_pow]
  exact Nat.mod_eq_of_lt (Nat.div_lt_of_lt_mul x.ns.isLt)

theorem word_eq (x : XattrParts) :
    x.word = (x.ns.extractLsb' 0 2 ++ x.name ++ x.ns.extractLsb' 2 1 ++ x.unused).toNat := by
  simp only [word, ← toNat_lower, ← toNat_upper, BitVec.toNat_append, Nat.shiftLeft_or_distrib,
    ← Nat.shiftLeft_add]

theorem bitField_lower (x : XattrParts) : bitField x.word 30 2 = x.ns.toNat % 4 := by
  rw [word_eq, bitField_toNat, BitVec.append_assoc, BitVec.append_assoc, ← toNat_lower]
  exact congrArg _ BitVec.extractLsb'_append_eq_left

theorem bitField_upper (x : XattrParts) : bitField x.word 5 1 = x.ns.toNat / 4 := by
  rw [word_eq, bitField_toNat, BitVec.extractLsb'_append_eq_of_le (by decide), ← toNat_upper]
  exact congrArg _ BitVec.extractLsb'_append_eq_right

theorem nameId_word (x : XattrParts) : Xattr.nameId x.word = x.name.toNat := by
  rw [Xattr.nameId, word_eq, bitField_toNat, BitVec.extractLsb'_append_eq_of_le (by decide),
    BitVec.extractLsb'_append_eq_of_le (by decide)]
  exact congrArg _ BitVec.extractLsb'_append_eq_right

/-- The namespace of a name, or the problem with bits that stand for none. -/
def shownSpace (x : XattrParts) : Except RecordProblem XattrNamespace :=
  match XattrNamespace.coded[x.ns.toNat]? with
  | some ns => .ok ns
  | none => .error (.unknownNamespace x.ns.toNat)

/-- The text of a name, or the problem with an identifier that is too large or unassigned. -/
def shownName (x : XattrParts) (strings : StringTable) : Except RecordProblem String :=
  if strings.bound < x.name.toNat then .error (.idOutOfRange x.name.toNat)
  else match strings.texts[x.name.toNat]? with
    | some text => .ok text
    | none => .error (.unnamedAttribute x.name.toNat)

theorem ofWord_word (x : XattrParts) : XattrNamespace.ofWord x.word = x.shownSpace := by
  have hall : ∀ bits < 8, XattrNamespace.ofBits? bits = XattrNamespace.coded[bits]? := by decide
  have hbits : x.ns.toNat % 4 + 4 * (x.ns.toNat / 4) = x.ns.toNat := Nat.mod_add_div _ 4
  rw [XattrNamespace.ofWord, bitField_lower, bitField_upper, hbits, hall _ x.ns.isLt]
  rfl

theorem name_word (x : XattrParts) (strings : StringTable) :
    Xattr.name x.word strings = x.shownName strings := by
  rw [Xattr.name, nameId_word, StringTable.lookup_natCast, shownName]
  by_cases h : strings.bound < x.name.toNat
  · rw [if_pos h, if_pos h]
    rfl
  · rw [if_neg h, if_neg h]
    cases strings.texts[x.name.toNat]? <;> rfl

end XattrParts

/-! ## Whatever the parts are -/

/-- Whatever the parts of a permission, of a list of access control entries and of the name of an
attribute are, the words that they are put together to are shown as the parts say, and the bits that
mean nothing make no difference. -/
theorem StringTable.shows_parts (strings : StringTable) :
    (∀ p : PermissionParts, (Permission.ofWord p.word).render strings = p.shown strings) ∧
    (∀ (entries : List AclParts) (r : Record),
      r.ints 2 = entries.map (fun e => (e.word : Int)) →
      AclEntry.renderAll (AclEntry.listOfRecord r) strings = AclParts.shownAll entries strings) ∧
    ∀ x : XattrParts, XattrNamespace.ofWord x.word = x.shownSpace ∧
      Xattr.name x.word strings = x.shownName strings := by
  refine ⟨fun p => p.render_ofWord strings, fun entries r h => ?_,
    fun x => ⟨x.ofWord_word, x.name_word strings⟩⟩
  rw [AclParts.listOfRecord_eq h, AclParts.renderAll_ofWord]

/-- Two entries of a group that the table does not name, the second with a bit set that belongs to
no part, and one of a user. -/
def sharedEntries : List AclParts :=
  [⟨0, 3, 0, 1, 5⟩, ⟨2, 3, 1, 1, 7⟩, ⟨3, 1, 0, 0, 6⟩]

def sharedRecord : Record := [(2, sharedEntries.map fun e => .int e.word)]

theorem StringTable.shows_parts_sharedRecord :
    sharedRecord.ints 2 = sharedEntries.map (fun e => (e.word : Int)) ∧
    AclEntry.renderAll (AclEntry.listOfRecord sharedRecord) (.ofList 3 [(1, "hdfs")]) =
      .ok ["group::r-x", "default:group::rwx", "user:hdfs:rw-"] := by
  have hints : sharedRecord.ints 2 = sharedEntries.map (fun e => (e.word : Int)) := by decide
  refine ⟨hints, ((shows_parts (.ofList 3 [(1, "hdfs")])).2.1 _ _ hints).trans ?_⟩
  rfl

end Checkpoint
