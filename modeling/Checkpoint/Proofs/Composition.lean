import Checkpoint.Proofs.Lister

/-! # What transcribers are composed of

Every section is read by a chain of few kinds of steps: reading a record, writing, failing. What is
kept by each kind of step and by chaining is therefore kept by the scribe of every section. A first
thing of this kind is that a step which succeeds has not met what comes after the bytes of its
stream. -/
namespace Checkpoint

/-- The problems that are met while records are read and written; with a string table at hand none
is missed. -/
def Problem.MetWith (strings : Option StringTable) : Problem → Prop
  | malformed _ | unknownDiffType _ | count (.shortfall ..) => True
  | stringTableNotLoaded => strings = none
  | format _ | count .leftover => False

namespace Transcriber

/-- Does a step without writing; what it would write is put into its result. -/
def gather {τ σ α β : Type} (result : List σ → α → β) (step : Transcriber σ α) : Transcriber τ β :=
  fun s => ⟨[], (step.run s).outcome.map (result (step.run s).written), (step.run s).stream⟩

/-- Put together from the steps that sections are read with. -/
inductive Composed (strings : Option StringTable) : {τ α : Type} → Transcriber τ α → Prop
  | pure {τ α : Type} (a : α) : Composed strings (pure a : Transcriber τ α)
  | write {τ : Type} (items : List τ) : Composed strings (write items)
  | fail {τ α : Type} {problem : Problem} : problem.MetWith strings →
      Composed strings (fail problem : Transcriber τ α)
  | record {τ : Type} (schema : Schema) :
      Composed strings (ofReader (ByteStream.readRecord? schema) : Transcriber τ (Option Record))
  | bind {τ α β : Type} {first : Transcriber τ α} {next : α → Transcriber τ β} :
      Composed strings first → (∀ a, Composed strings (next a)) →
        Composed strings (first >>= next)
  /-- A step may depend on how many bytes are unread. -/
  | sized {τ α : Type} {step : Nat → Transcriber τ α} : (∀ n, Composed strings (step n)) →
      Composed strings fun s => step s.unread.length s
  | gather {τ σ α β : Type} {step : Transcriber σ α} (result : List σ → α → β) :
      Composed strings step → Composed strings (gather result step : Transcriber τ β)

namespace Composed

variable {strings : Option StringTable} {τ α : Type} {schema : Schema} {declared : Int}
  {body : Record → Transcriber τ Unit}

theorem discard {t : Transcriber τ α} (ht : Composed strings t) :
    Composed strings (discard t : Transcriber τ Unit) :=
  .bind ht fun _ => .pure ()

theorem nextRecord {missing : Problem} (h : missing.MetWith strings) :
    Composed strings (Transcriber.nextRecord schema missing : Transcriber τ Record) := by
  have he : (Transcriber.nextRecord schema missing : Transcriber τ Record) =
      ofReader (ByteStream.readRecord? schema) >>= fun found =>
        found.elim (Transcriber.fail missing) Pure.pure := by
    funext s
    have hn := @run_ofReader τ _ s (ByteStream.readRecord? schema)
    have hr := @run_nextRecord τ s schema missing
    cases hread : ByteStream.readRecord? schema s with
    | error problem t => rw [hread] at hn hr; exact hr.trans (run_bind_error hn).symm
    | ok found t =>
      rw [hread] at hn hr
      refine Eq.trans ?_ (run_bind_ok hn).symm
      cases found with
      | none => exact hr
      | some r => exact hr
  rw [he]
  refine .bind (.record schema) fun found => ?_
  cases found with
  | none => exact .fail h
  | some r => exact .pure r

theorem header (schema : Schema) :
    Composed strings (ofReader (ByteStream.readHeader schema) : Transcriber τ Record) := by
  rw [ofReader_readHeader]
  exact .nextRecord trivial

theorem forEach {elements : List α} {body : α → Transcriber τ Unit}
    (hb : ∀ a, Composed strings (body a)) :
    Composed strings (Transcriber.forEach elements body) := by
  induction elements with
  | nil => exact .pure ()
  | cons a rest ih =>
    rw [forEach_cons]
    exact .bind (hb a) fun _ => ih

theorem countedInto (hb : ∀ record, Composed strings (body record)) (left found : Nat) :
    Composed strings (Transcriber.countedInto schema declared body left found []) := by
  induction left generalizing found with
  | zero => exact .pure found
  | succ left ih =>
    rw [countedInto_succ]
    exact .bind (.nextRecord trivial) fun record => .bind (hb record) fun _ => ih (found + 1)

theorem counted (hb : ∀ record, Composed strings (body record)) :
    Composed strings (Transcriber.counted schema declared body) :=
  .countedInto hb declared.toNat 0

theorem untilEndInto (hb : ∀ record, Composed strings (body record)) (limit found : Nat) :
    Composed strings (Transcriber.untilEndInto schema body limit found []) := by
  induction limit generalizing found with
  | zero => exact .pure found
  | succ limit ih =>
    rw [untilEndInto_succ]
    refine .bind (.record schema) fun next => ?_
    cases next with
    | none => exact .pure found
    | some record => exact .bind (hb record) fun _ => ih (found + 1)

theorem untilEnd (hb : ∀ record, Composed strings (body record)) :
    Composed strings (Transcriber.untilEnd schema body) :=
  .sized fun n => .untilEndInto hb (n + 1) 0

theorem element {body : Scribe α} {tag : String} {newline : Bool} (hb : Composed strings body) :
    Composed strings (Scribe.element tag newline body) :=
  .bind (.write _) fun _ => .bind hb fun a => .bind (.write _) fun _ => .pure a

theorem found {tag : String} {text : Except RecordProblem String} :
    Composed strings (Scribe.found tag text) := by
  cases text with
  | ok text => exact .write _
  | error problem => exact .fail trivial

end Composed

end Transcriber

open Transcriber (Composed)

/-! ## Inodes -/

section Inode

variable {strings : Option StringTable} {table : StringTable}

theorem Xattr.composed (x : Xattr) : Composed strings (Xattr.scribe table x) :=
  .element (.bind .found fun _ => .bind .found fun _ => .write _)

theorem Xattr.composed_scribeList (xattrs : Option (List Xattr)) :
    Composed strings (Xattr.scribeList table xattrs) := by
  cases xattrs with
  | none => exact .pure ()
  | some xattrs => exact .element (.forEach Xattr.composed)

theorem AclEntry.composed_scribeList (acl : List AclEntry) :
    Composed strings (AclEntry.scribeList table acl) := by
  rw [AclEntry.scribeList]
  split
  · exact .fail trivial
  · exact .pure ()
  · exact .write _

theorem StringTable.composed_need : Composed strings (StringTable.need strings) := by
  cases strings with
  | none => exact .fail rfl
  | some table => exact .pure table

theorem InodeContent.composed (c : InodeContent) : Composed strings (c.scribe strings) := by
  cases c with
  | file f =>
    exact .bind (.write _) fun _ => .bind StringTable.composed_need fun _ => .bind .found fun _ =>
      .bind (Xattr.composed_scribeList _) fun _ => .bind (AclEntry.composed_scribeList _) fun _ =>
        .write _
  | directory d =>
    exact .bind (.write _) fun _ => .bind StringTable.composed_need fun _ => .bind .found fun _ =>
      .bind (Xattr.composed_scribeList _) fun _ => .bind (AclEntry.composed_scribeList _) fun _ =>
        .write _
  | symlink l =>
    exact .bind StringTable.composed_need fun _ => .bind .found fun _ => .write _
  | bare => exact .pure ()

theorem Inode.composed (i : Inode) : Composed strings (i.scribe strings) :=
  .bind (.write _) fun _ => i.content.composed

end Inode

/-! ## Sections -/

section Section

variable {strings : Option StringTable}

theorem DirectoryDiff.composed (d : DirectoryDiff) : Composed strings d.scribe :=
  .element (.bind (.write _) fun _ => .discard (.counted fun _ => .write _))

theorem DiffEntry.composed (e : DiffEntry) : Composed strings e.scribe := by
  rw [DiffEntry.scribe]
  split
  · exact .element (.bind (.write _) fun _ => .discard (.counted fun _ => .write _))
  · exact .element (.bind (.write _) fun _ => .discard (.counted fun _ => DirectoryDiff.composed _))
  · exact .fail trivial

theorem StringTable.composed_entry (bound : Nat) (r : Record) : Composed strings (do
    Transcriber.write [← entry bound r] : Transcriber (Nat × String) Unit) := by
  by_cases h : Fits bound r
  · rw [entry_of_fits h]
    exact .bind (.pure _) fun _ => .write _
  · rw [entry_of_not_fits h]
    exact .bind (.fail trivial) fun _ => .write _

theorem StringTable.composed : Composed strings StringTable.scribe := by
  have hl : Composed strings lister :=
    .bind (.header schema) fun _ => .bind (.discard (.counted fun r => composed_entry _ r))
      fun _ => .pure _
  have he : StringTable.scribe = Transcriber.gather StringTable.counted lister := funext run_scribe
  rw [he]
  exact .gather _ hl

/-- The section of every kind is read by a chain of such steps. -/
theorem SectionKind.composed (strings : Option StringTable) (kind : SectionKind) :
    Composed strings (kind.scribe strings) := by
  have keep : ∀ {t : Scribe Nat}, Composed strings t →
      Composed strings (t >>= fun count => (pure (count, strings) : Scribe _)) :=
    fun ht => .bind ht fun _ => .pure _
  cases kind with
  | nsInfo => exact keep (.bind (.header _) fun _ => .bind (.write _) fun _ => .pure 1)
  | stringTable => exact .bind StringTable.composed fun _ => .pure _
  | inode =>
    exact keep (.bind (.header _) fun _ => .element (.bind (.write _) fun _ =>
      .counted fun _ => .element (Inode.composed _)))
  | inodeReference => exact keep (.element (.untilEnd fun _ => .write _))
  | inodeDir => exact keep (.element (.untilEnd fun _ => .write _))
  | filesUnderConstruction => exact keep (.element (.untilEnd fun _ => .write _))
  | snapshot =>
    exact keep (.bind (.header _) fun _ => .element (.bind (.write _) fun _ =>
      .counted fun _ => .element (.bind (.write _) fun _ => .element (Inode.composed _))))
  | snapshotDiff => exact keep (.element (.untilEnd fun _ => DiffEntry.composed _))
  | secretManager =>
    exact keep (.bind (.header _) fun _ => .bind (.element (.bind (.write _) fun _ =>
      .bind (.discard (.counted fun _ => .write _)) fun _ => .discard (.counted fun _ => .write _)))
        fun _ => .pure _)
  | cacheManager =>
    exact keep (.bind (.header _) fun _ => .bind (.element (.bind (.write _) fun _ =>
      .bind (.discard (.counted fun _ => .write _)) fun _ => .discard (.counted fun _ => .write _)))
        fun _ => .pure _)

end Section

end Checkpoint
