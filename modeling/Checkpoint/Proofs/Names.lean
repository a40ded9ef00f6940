import Checkpoint.Proofs.Silent

/-! # Names of inodes

When the look-ups in a string table succeed, said of the table's records, and from it that inodes
are written by silent transcribers which succeed exactly if their names resolve. -/
namespace Checkpoint

/-- A string table that knows what a section makes known. -/
structure NameTable.Describes (names : NameTable) (table : StringTable) : Prop where
  bound : table.bound = names.bound
  mem : ∀ id, id ∈ table.texts ↔ id ∈ names.assigned

variable {names : NameTable} {table : StringTable}

theorem StringTable.lookup_natCast (table : StringTable) (id : Nat) :
    table.lookup id =
      if table.bound < id then .error (.idOutOfRange id) else .ok table.texts[id]? := by
  simp only [StringTable.lookup, Int.natCast_nonneg, true_and, Int.toNat_natCast]
  by_cases h : table.bound < id
  · rw [if_neg (Int.not_le.mpr h), if_pos h]
  · rw [if_pos (Int.not_lt.mp h), if_neg h]

theorem StringTable.mem_insert_all (entries : List (Nat × String)) (id : Nat) :
    id ∈ (entries.foldl (fun table (id, text) => table.insert id text) table).texts ↔
      id ∈ table.texts ∨ id ∈ entries.map Prod.fst := by
  induction entries generalizing table with
  | nil => simp
  | cons entry rest ih =>
    rw [List.foldl_cons, ih]
    simp only [StringTable.insert, Std.TreeMap.mem_insert, Std.LawfulEqCmp.compare_eq_iff_eq,
      List.map_cons, List.mem_cons]
    tauto

theorem StringTable.bound_insert_all (entries : List (Nat × String)) :
    (entries.foldl (fun table (id, text) => table.insert id text) table).bound = table.bound := by
  induction entries generalizing table with
  | nil => rfl
  | cons entry rest ih => exact ih

/-- A table that is put together from entries knows their identifiers and no others. -/
theorem NameTable.describes_ofList (bound : Nat) (entries : List (Nat × String)) :
    (⟨bound, entries.map Prod.fst⟩ : NameTable).Describes (.ofList bound entries) where
  bound := StringTable.bound_insert_all entries
  mem id := by
    rw [StringTable.ofList, StringTable.mem_insert_all]
    simp [StringTable.empty]

namespace NameTable.Describes

theorem lookup (h : names.Describes table) (id : Nat) : table.lookup id =
    if id ≤ names.bound then .ok table.texts[id]? else .error (.idOutOfRange id) := by
  rw [StringTable.lookup_natCast, h.bound, ← ite_not]
  simp only [Int.ofNat_lt, Nat.not_lt]

theorem exists_render_iff (h : names.Describes table) (p : Permission) :
    (∃ text, p.render table = .ok text) ↔ p.Resolves names := by
  simp only [Permission.render, Permission.Resolves, h.lookup]
  by_cases hu : p.userId ≤ names.bound <;> by_cases hg : p.groupId ≤ names.bound <;>
    simp [hu, hg, bind, Except.bind, pure, Except.pure]

theorem exists_renderAll_iff (h : names.Describes table) (acl : List AclEntry) :
    (∃ texts, AclEntry.renderAll acl table = .ok texts) ↔ ∀ e ∈ acl, e.Resolves names := by
  induction acl with
  | nil => simp [AclEntry.renderAll, pure, Except.pure]
  | cons e rest ih =>
    rw [List.forall_mem_cons, ← ih, AclEntry.Resolves, AclEntry.renderAll, AclEntry.renderAll,
      List.mapM_cons]
    by_cases hn : e.nameId ≤ names.bound
    · cases List.mapM (fun e => AclEntry.render e table) rest <;>
        simp [AclEntry.render, h.lookup, hn, bind, Except.bind, pure, Except.pure]
    · simp [AclEntry.render, h.lookup, hn, bind, Except.bind]

theorem exists_namespace_iff (word : Nat) :
    (∃ text, (XattrNamespace.ofWord word).map XattrNamespace.label = .ok text) ↔
      bitField word 30 2 + 4 * bitField word 5 1 ≤ 4 := by
  simp only [XattrNamespace.ofWord]
  generalize bitField word 30 2 + 4 * bitField word 5 1 = bits
  match bits with
  | 0 | 1 | 2 | 3 | 4 => simp [XattrNamespace.ofBits?, Except.map]
  | n + 5 => simp [XattrNamespace.ofBits?, Except.map]

theorem exists_name_iff (h : names.Describes table) (word : Nat) :
    (∃ text, Xattr.name word table = .ok text) ↔
      Xattr.nameId word ≤ names.bound ∧ Xattr.nameId word ∈ names.assigned := by
  simp only [Xattr.name, h.lookup, ← h.mem]
  by_cases hb : Xattr.nameId word ≤ names.bound
  · cases ht : table.texts[Xattr.nameId word]? with
    | none =>
      have : Xattr.nameId word ∉ table.texts := by simpa using ht
      simp [hb, this, bind, Except.bind, throw, throwThe, MonadExceptOf.throw]
    | some text =>
      have : Xattr.nameId word ∈ table.texts := by
        rw [← Std.TreeMap.isSome_getElem?_iff_mem, ht]; rfl
      simp [hb, this, bind, Except.bind, pure, Except.pure]
  · simp [hb, bind, Except.bind]

end NameTable.Describes

open Transcriber

/-! ## Parts of inodes -/

section Parts

variable (h : names.Describes table)
include h

theorem Permission.scribe_silent (p : Permission) :
    (Scribe.found "permission" (p.render table)).Silent (p.Resolves names) :=
  (Silent.found ..).congr (h.exists_render_iff p)

theorem Xattr.scribe_silent (x : Xattr) : (x.scribe table).Silent (x.Resolves names) := by
  have hns := (Silent.found "ns" _).congr (NameTable.Describes.exists_namespace_iff x.word)
  have hname := (Silent.found "name" _).congr (h.exists_name_iff x.word)
  refine (Silent.element (hns.bind (hname.bind (.write _))) "xattr" false).congr ?_
  simp [Xattr.Resolves]

theorem Xattr.scribeList_silent (xattrs : Option (List Xattr)) :
    (Xattr.scribeList table xattrs).Silent (∀ x ∈ xattrs.getD [], x.Resolves names) := by
  cases xattrs with
  | none => exact (Silent.write []).congr (by simp)
  | some xs => exact (Silent.forEach fun x _ => x.scribe_silent h).element "xattrs" false

theorem AclEntry.scribeList_silent (acl : List AclEntry) :
    (AclEntry.scribeList table acl).Silent (∀ e ∈ acl, e.Resolves names) := by
  refine Silent.congr (p := ∃ texts, AclEntry.renderAll acl table = .ok texts) ?_
    (h.exists_renderAll_iff acl)
  rw [AclEntry.scribeList]
  split
  · rename_i problem he
    exact (Silent.fail _).congr (by simp [he])
  · rename_i he
    exact (Silent.write []).congr (by simp [he])
  · rename_i texts _ he
    exact (Silent.write _).congr (by simp [he])

theorem InodeContent.scribe_silent_some (c : InodeContent) :
    (c.scribe (some table)).Silent (c.Resolves names) := by
  cases c with
  | file f =>
    exact ((Silent.write _).bind ((f.permission.scribe_silent h).bind
      ((Xattr.scribeList_silent h f.xattrs).bind ((AclEntry.scribeList_silent h f.acl).bind
        (.write _))))).congr (by simp [InodeContent.Resolves])
  | directory d =>
    exact ((Silent.write _).bind ((d.permission.scribe_silent h).bind
      ((Xattr.scribeList_silent h d.xattrs).bind ((AclEntry.scribeList_silent h d.acl).bind
        (.write _))))).congr (by simp [InodeContent.Resolves])
  | symlink l =>
    exact ((l.permission.scribe_silent h).bind (.write _)).congr (by simp [InodeContent.Resolves])
  | bare => exact Silent.write []

end Parts

theorem InodeContent.scribe_silent_none (c : InodeContent) :
    (c.scribe none).Silent (c = .bare) := by
  cases c with
  | file f => exact ((Silent.write _).bind (.fail _)).congr (by simp)
  | directory d => exact ((Silent.write _).bind (.fail _)).congr (by simp)
  | symlink l => exact (Silent.fail _).congr (by simp)
  | bare => exact (Silent.write []).congr (by simp)

/-- What is known of the string table of an image, if there is one. -/
def NameTable.DescribesAny : Option NameTable → Option StringTable → Prop :=
  Option.Rel NameTable.Describes

/-- An inode is written without reading, and as a whole exactly if its names resolve. -/
theorem Inode.scribe_silent {names : Option NameTable} {strings : Option StringTable}
    (h : NameTable.DescribesAny names strings) (i : Inode) :
    (i.scribe strings).Silent (i.Resolves names) := by
  cases h with
  | none =>
    exact ((Silent.write _).bind i.content.scribe_silent_none).congr (by simp [Inode.Resolves])
  | some h =>
    refine ((Silent.write _).bind (i.content.scribe_silent_some h)).congr ?_
    by_cases hb : i.content = .bare <;> simp [Inode.Resolves, InodeContent.Resolves, hb]

end Checkpoint
