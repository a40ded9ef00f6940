import Checkpoint.Proofs.Agreement
import Checkpoint.Proofs.Faults

/-! # Plans

A plan is a transcriber laid open: what it writes, and which record it reads next, given the records
before. Following a plan gives the run of the transcriber, and with it the records that were read
and whether the run ended because one could not be read. What two runs of a plan have written is
compared by the records they have read. -/
namespace Checkpoint

namespace ByteStream

variable {schema : Schema} {s t : ByteStream}

/-- A record takes at least one byte. -/
theorem unread_lt_of_readRecord? {record : Record}
    (h : readRecord? schema s = .ok (some record) t) : t.unread.length < s.unread.length := by
  obtain ⟨frame, rfl, hf⟩ := exists_frame_of_readRecord? h
  have hlength := List.length_pos_iff.mpr hf.ne_nil
  rw [List.length_append]
  omega

theorem unread_le_of_readRecord? {found : Option Record}
    (h : readRecord? schema s = .ok found t) : t.unread.length ≤ s.unread.length := by
  cases found with
  | some record => exact Nat.le_of_lt (unread_lt_of_readRecord? h)
  | none =>
    obtain ⟨-, rfl⟩ := eq_end_of_readRecord? h
    exact Nat.zero_le _

end ByteStream

/-- A record that has been read, with its type. -/
structure Taken where
  schema : Schema
  record : Record

/-- Two records of one type that say the same. -/
def Taken.Agree (first second : Taken) : Prop :=
  first.schema = second.schema ∧ first.schema.Agree first.record second.record

/-- What is done up to the end, or up to the next record and with each that may be found there. -/
inductive Plan (τ α : Type) where
  | done (a : α)
  | fail (problem : Problem)
  | write (items : List τ) (next : Plan τ α)
  /-- Reads a record or the end of the stream, and refuses what must not be found. -/
  | read (schema : Schema) (refuse : Option Record → Option Problem)
      (next : Option Record → Plan τ α)

/-- A run, with the records that have been read. -/
structure Account (τ α : Type) extends Transcript τ α where
  taken : List Taken
  /-- Whether the run has ended because a record could not be read or was refused. -/
  refused : Bool

namespace Account

variable {τ α β : Type}

/-- Goes on with another run, unless this one has failed. -/
def andThen (first : Account τ α) (next : α → ByteStream → Account τ β) : Account τ β :=
  match first.outcome with
  | .error problem =>
    ⟨⟨first.written, .error problem, first.stream⟩, first.taken, first.refused⟩
  | .ok a =>
    let second := next a first.stream
    ⟨second.toTranscript.after first.written, first.taken ++ second.taken, second.refused⟩

/-- Some records have been read before, or the end. -/
def afterReading (schema : Schema) (found : Option Record) (rest : Account τ α) : Account τ α :=
  { rest with taken := found.toList.map (Taken.mk schema) ++ rest.taken }

/-- Nothing has been written, and the result holds what would have been. -/
def gathered {σ : Type} (result : List σ → α → β) (account : Account σ α) : Account τ β where
  written := []
  outcome := account.outcome.map (result account.written)
  stream := account.stream
  taken := account.taken
  refused := account.refused

end Account

namespace Plan

variable {τ α β : Type}

/-- Goes on where a plan is done. -/
def bind : Plan τ α → (α → Plan τ β) → Plan τ β
  | done a, next => next a
  | fail problem, _ => fail problem
  | write items plan, next => write items (plan.bind next)
  | read schema refuse plan, next => read schema refuse fun found => (plan found).bind next

/-- The run of a plan on a stream. -/
def follow : Plan τ α → ByteStream → Account τ α
  | done a, s => ⟨⟨[], .ok a, s⟩, [], false⟩
  | fail problem, s => ⟨⟨[], .error problem, s⟩, [], false⟩
  | write items next, s =>
    let rest := next.follow s
    { rest with toTranscript := rest.toTranscript.after items }
  | read schema refuse next, s =>
    match ByteStream.readRecord? schema s with
    | .error problem t => ⟨⟨[], .error problem, t⟩, [], true⟩
    | .ok found t =>
      match refuse found with
      | some problem => ⟨⟨[], .error problem, t⟩, [], true⟩
      | none => ((next found).follow t).afterReading schema found

section Follow

variable {schema : Schema} {refuse : Option Record → Option Problem}
  {next : Option Record → Plan τ α} {s t : ByteStream} {found : Option Record}

theorem follow_read_error {problem : RecordProblem}
    (h : ByteStream.readRecord? schema s = .error problem t) :
    (read schema refuse next).follow s = ⟨⟨[], .error problem, t⟩, [], true⟩ := by
  rw [follow, h]

theorem follow_read_refused {problem : Problem}
    (h : ByteStream.readRecord? schema s = .ok found t) (hr : refuse found = some problem) :
    (read schema refuse next).follow s = ⟨⟨[], .error problem, t⟩, [], true⟩ := by
  rw [follow, h]
  dsimp only
  rw [hr]

theorem follow_read_ok (h : ByteStream.readRecord? schema s = .ok found t)
    (hr : refuse found = none) :
    (read schema refuse next).follow s = ((next found).follow t).afterReading schema found := by
  rw [follow, h]
  dsimp only
  rw [hr]

/-- A plan that reads is stopped at once, or goes on with what it has found. -/
theorem follow_read_cases (schema : Schema) (refuse : Option Record → Option Problem)
    (next : Option Record → Plan τ α) (s : ByteStream) :
    (∃ problem t, (read schema refuse next).follow s = ⟨⟨[], .error problem, t⟩, [], true⟩) ∨
      ∃ found t, refuse found = none ∧
        (read schema refuse next).follow s = ((next found).follow t).afterReading schema found := by
  cases h : ByteStream.readRecord? schema s with
  | error problem t => exact .inl ⟨_, t, follow_read_error h⟩
  | ok found t =>
    cases hr : refuse found with
    | some problem => exact .inl ⟨problem, t, follow_read_refused h hr⟩
    | none => exact .inr ⟨found, t, hr, follow_read_ok h hr⟩

end Follow

theorem follow_bind (plan : Plan τ α) (next : α → Plan τ β) (s : ByteStream) :
    (plan.bind next).follow s = (plan.follow s).andThen fun a t => (next a).follow t := by
  induction plan generalizing s with
  | done a => rfl
  | fail problem => rfl
  | write items plan ih =>
    rw [bind, follow, ih]
    rw [follow, Account.andThen, Account.andThen]
    dsimp only [Transcript.after]
    cases (plan.follow s).outcome with
    | error problem => rfl
    | ok a => simp
  | read schema refuse plan ih =>
    rw [bind]
    cases hr : ByteStream.readRecord? schema s with
    | error problem t => rw [follow_read_error hr, follow_read_error hr]; rfl
    | ok found t =>
      cases hf : refuse found with
      | some problem => rw [follow_read_refused hr hf, follow_read_refused hr hf]; rfl
      | none =>
        rw [follow_read_ok hr hf, follow_read_ok hr hf, ih]
        simp only [Account.andThen, Account.afterReading]
        cases ((plan found).follow t).outcome with
        | error problem => rfl
        | ok a => simp [Transcript.after]

/-! ## Parts of plans -/

/-- Reads a record that has to be there. -/
def need (schema : Schema) (missing : Problem) : Plan τ Record :=
  read schema (fun found => if found.isNone then some missing else none) fun
    | none => fail missing
    | some record => done record

/-- Reads the record that a section starts with. -/
def header (schema : Schema) : Plan τ Record :=
  need schema (.malformed (.missingHeader schema.name))

/-- Only writes something. -/
def only (items : List τ) : Plan τ Unit := write items (done ())

/-- Follows `body` for `left` records more; `found` have been read before. -/
def countedInto (schema : Schema) (declared : Int) (body : Record → Plan τ Unit) :
    (left found : Nat) → Plan τ Nat
  | 0, found => done found
  | left + 1, found =>
    (need schema (.count (.shortfall schema.name declared found))).bind fun record =>
      (body record).bind fun _ => countedInto schema declared body left (found + 1)

/-- Follows `body` for the declared number of records. -/
def counted (schema : Schema) (declared : Int) (body : Record → Plan τ Unit) : Plan τ Nat :=
  countedInto schema declared body declared.toNat 0

/-- Leaves the result out. -/
def discard (plan : Plan τ α) : Plan τ Unit := plan.bind fun _ => done ()

/-- Follows `body` for the records up to the end, at most `limit` of them, unless one is refused;
`found` have been read before. -/
def untilEndInto (schema : Schema) (refuse : Record → Option Problem)
    (body : Record → Plan τ Unit) : (limit found : Nat) → Plan τ Nat
  | 0, found => done found
  | limit + 1, found => read schema (fun next => next.bind refuse) fun
    | none => done found
    | some record => (body record).bind fun _ => untilEndInto schema refuse body limit (found + 1)

/-- Puts what would be written into the result. -/
def gather {σ : Type} (result : List σ → α → β) : Plan σ α → Plan τ β
  | done a => done (result [] a)
  | fail problem => fail problem
  | write items next => next.gather fun rest => result (items ++ rest)
  | read schema refuse next => read schema refuse fun found => (next found).gather result

/-- What a transcriber does that reads nothing. -/
def quiet (t : Transcriber τ Unit) : Plan τ Unit :=
  match (t.run ⟨[], none⟩).outcome with
  | .ok () => only t.output
  | .error problem => write t.output (fail problem)

def element {α : Type} (tag : String) (newline : Bool) (body : Plan Markup α) : Plan Markup α :=
  write [.opening tag] (body.bind fun a => write [.closing tag newline] (done a))

theorem follow_gather {σ : Type} (plan : Plan σ α) (result : List σ → α → β) (s : ByteStream) :
    (plan.gather result : Plan τ β).follow s = (plan.follow s).gathered result := by
  induction plan generalizing result s with
  | done a => rfl
  | fail problem => rfl
  | write items next ih =>
    rw [gather, ih, follow]
    rfl
  | read schema refuse next ih =>
    rw [gather]
    cases hr : ByteStream.readRecord? schema s with
    | error problem t => rw [follow_read_error hr, follow_read_error hr]; rfl
    | ok found t =>
      cases hf : refuse found with
      | some problem => rw [follow_read_refused hr hf, follow_read_refused hr hf]; rfl
      | none =>
        rw [follow_read_ok hr hf, follow_read_ok hr hf, ih]
        rfl

/-- Following the plan is running the transcriber. -/
def Describes (plan : Plan τ α) (t : Transcriber τ α) : Prop :=
  ∀ s, (plan.follow s).toTranscript = t.run s

namespace Describes

open Transcriber

variable {plan : Plan τ α} {t : Transcriber τ α} {schema : Schema}

theorem done (a : α) : (Plan.done a : Plan τ α).Describes (Pure.pure a) := fun _ => rfl

/-- A chain is described on a stream if its first part is. -/
theorem bind_at {s : ByteStream} (h : (plan.follow s).toTranscript = t.run s)
    {next : α → Plan τ β} {next' : α → Transcriber τ β} (hn : ∀ a, (next a).Describes (next' a)) :
    ((plan.bind next).follow s).toTranscript = (t >>= next').run s := by
  rw [follow_bind, Account.andThen]
  rcases hr : t.run s with ⟨written, outcome, mid⟩
  rw [hr] at h
  rw [h]
  cases outcome with
  | error problem => rw [run_bind_error hr]
  | ok a => rw [run_bind_ok hr, ← hn a mid]

theorem bind (h : plan.Describes t) {next : α → Plan τ β} {next' : α → Transcriber τ β}
    (hn : ∀ a, (next a).Describes (next' a)) : (plan.bind next).Describes (t >>= next') :=
  fun s => bind_at (h s) hn

theorem discard (h : plan.Describes t) : plan.discard.Describes (Functor.discard t) :=
  h.bind fun _ => done ()

theorem write_bind (items : List τ) {next : Plan τ α} {next' : Transcriber τ α}
    (hn : next.Describes next') :
    (Plan.write items next).Describes (Transcriber.write items >>= fun _ => next') := by
  intro s
  rw [follow, hn s, run_bind_ok (run_write items)]

theorem only (items : List τ) : (Plan.only items).Describes (Transcriber.write items) :=
  fun _ => congrArg (Transcript.mk · _ _) (List.append_nil items)

theorem need (schema : Schema) (missing : Problem) :
    (Plan.need schema missing : Plan τ Record).Describes (nextRecord schema missing) := by
  intro s
  rw [run_nextRecord, Plan.need]
  cases hr : ByteStream.readRecord? schema s with
  | error problem t => rw [follow_read_error hr]
  | ok found t =>
    cases found with
    | none => rw [follow_read_refused hr rfl]
    | some record => rw [follow_read_ok hr rfl]; rfl

theorem header (schema : Schema) : (Plan.header schema : Plan τ Record).Describes
    (ofReader (ByteStream.readHeader schema)) := by
  rw [ofReader_readHeader]
  exact need schema _

theorem counted {declared : Int} {body : Record → Plan τ Unit}
    {body' : Record → Transcriber τ Unit} (hb : ∀ record, (body record).Describes (body' record)) :
    (Plan.counted schema declared body).Describes (Transcriber.counted schema declared body') := by
  have hloop : ∀ left found, (Plan.countedInto schema declared body left found).Describes
      (Transcriber.countedInto schema declared body' left found []) := by
    intro left
    induction left with
    | zero => exact done
    | succ left ih =>
      intro found
      rw [countedInto_succ]
      exact bind (need schema _) fun record => bind (hb record) fun _ => ih (found + 1)
  exact hloop declared.toNat 0

/-- A record is refused if its body fails at once. -/
theorem untilEndInto {refuse : Record → Option Problem} {body : Record → Plan τ Unit}
    {body' : Record → Transcriber τ Unit}
    (hr : ∀ record problem, refuse record = some problem →
      body' record = Transcriber.fail problem)
    (hb : ∀ record, refuse record = none → (body record).Describes (body' record))
    (limit found : Nat) : (Plan.untilEndInto schema refuse body limit found).Describes
      (Transcriber.untilEndInto schema body' limit found []) := by
  induction limit generalizing found with
  | zero => exact done found
  | succ limit ih =>
    intro s
    have hread := @run_ofReader τ _ s (ByteStream.readRecord? schema)
    rw [untilEndInto_succ, Plan.untilEndInto]
    cases hs : ByteStream.readRecord? schema s with
    | error problem t =>
      rw [hs] at hread
      rw [follow_read_error hs, run_bind_error hread]
    | ok next t =>
      rw [hs] at hread
      rw [run_bind_ok hread]
      cases next with
      | none => rw [follow_read_ok hs rfl]; rfl
      | some record =>
        cases hf : refuse record with
        | some problem =>
          rw [follow_read_refused hs hf]
          dsimp only
          rw [hr record problem hf, run_bind_error run_fail]
          rfl
        | none =>
          rw [follow_read_ok hs hf]
          exact congrArg (Transcript.after []) (bind (hb record hf) (fun _ => ih (found + 1)) t)

theorem element {α : Type} {tag : String} {newline : Bool} {body : Plan Markup α}
    {body' : Scribe α} (hb : body.Describes body') :
    (Plan.element tag newline body).Describes (Scribe.element tag newline body') :=
  write_bind _ (bind hb fun a => write_bind _ (done a))

theorem quiet {t : Transcriber τ Unit} {p : Prop} (ht : t.Silent p) :
    (Plan.quiet t).Describes t := by
  obtain ⟨written, outcome, hr, -⟩ := ht
  intro s
  rw [Plan.quiet, output, hr, hr]
  cases outcome with
  | ok _ => exact congrArg (Transcript.mk · _ _) (List.append_nil written)
  | error problem => exact congrArg (Transcript.mk · _ _) (List.append_nil written)

theorem gather {σ : Type} {plan : Plan σ α} {t : Transcriber σ α} (h : plan.Describes t)
    (result : List σ → α → β) : (plan.gather result : Plan τ β).Describes
      (Transcriber.gather result t) := by
  intro s
  have hs := h s
  rw [follow_gather, Account.gathered, hs]
  rfl

end Describes

/-! ## Comparing runs -/

/-- The plan reads nothing. -/
def Idle : Plan τ α → Prop
  | done _ | fail _ => True
  | write _ next => next.Idle
  | read .. => False

/-- What is done after a record depends only on what the record says, and if the end of the stream
is taken, then so that `atEnd` holds of what is done after it. -/
def Sound (atEnd : Plan τ α → Prop) : Plan τ α → Prop
  | done _ | fail _ => True
  | write _ next => next.Sound atEnd
  | read schema refuse next =>
    (∀ r r', schema.Agree r r' → next (some r) = next (some r')) ∧
      (∀ r, (next (some r)).Sound atEnd) ∧ (refuse none = none → atEnd (next none))

theorem Idle.follow {plan : Plan τ α} (h : plan.Idle) (s s' : ByteStream) :
    (plan.follow s).taken = [] ∧ (plan.follow s).refused = false ∧
      (plan.follow s).written = (plan.follow s').written ∧
        (plan.follow s).outcome = (plan.follow s').outcome := by
  induction plan with
  | done a => exact ⟨rfl, rfl, rfl, rfl⟩
  | fail problem => exact ⟨rfl, rfl, rfl, rfl⟩
  | write items next ih =>
    obtain ⟨ht, hr, hw, ho⟩ := ih h
    exact ⟨ht, hr, congrArg (items ++ ·) hw, ho⟩
  | read => exact h.elim

/-- Two runs of a sound plan that have read the same, and both went to their end or both did not,
have written the same. -/
theorem Sound.written_eq {plan : Plan τ α} (h : plan.Sound Idle) {s s' : ByteStream}
    (ht : List.Forall₂ Taken.Agree (plan.follow s).taken (plan.follow s').taken)
    (hr : (plan.follow s).refused = (plan.follow s').refused) :
    (plan.follow s).written = (plan.follow s').written ∧
      ((plan.follow s).refused = false → (plan.follow s).outcome = (plan.follow s').outcome) := by
  induction plan generalizing s s' with
  | done a => exact ⟨rfl, fun _ => rfl⟩
  | fail problem => exact ⟨rfl, fun _ => rfl⟩
  | write items next ih =>
    obtain ⟨hw, ho⟩ := ih h ht hr
    exact ⟨congrArg (items ++ ·) hw, ho⟩
  | read schema refuse next ih =>
    obtain ⟨hagree, hnext, hend⟩ := h
    rcases follow_read_cases schema refuse next s with ⟨problem, t, hs⟩ | ⟨found, t, hf, hs⟩ <;>
      rcases follow_read_cases schema refuse next s' with
        ⟨problem', t', hs'⟩ | ⟨found', t', hf', hs'⟩ <;> rw [hs, hs'] at ht hr ⊢
    · exact ⟨rfl, nofun⟩
    · -- the other run has found the end, and nothing is refused behind it
      cases found' with
      | some r' => cases ht
      | none =>
        have hi := (hend hf').follow t' t'
        cases hr.trans hi.2.1
    · cases found with
      | some r => cases ht
      | none =>
        have hi := (hend hf).follow t t
        cases hr.symm.trans hi.2.1
    · cases found with
      | none =>
        have hi := (hend hf).follow t t'
        cases found' with
        | none => exact ⟨hi.2.2.1, fun _ => hi.2.2.2⟩
        | some r' =>
          simp only [Account.afterReading, hi.1] at ht
          cases ht
      | some r =>
        cases found' with
        | none =>
          have hi := (hend hf').follow t' t'
          simp only [Account.afterReading, hi.1] at ht
          cases ht
        | some r' =>
          obtain ⟨⟨-, hrecord⟩, ht⟩ := List.forall₂_cons.mp ht
          have hn := hagree r r' hrecord
          rw [← hn] at ht hr ⊢
          obtain ⟨hw, ho⟩ := ih (some r) (hnext r) ht hr
          exact ⟨hw, ho⟩

/-! ### Parts of sound plans -/

namespace Sound

variable {atEnd : Plan τ α → Prop} {plan : Plan τ α} {schema : Schema}

theorem bind {atEnd' : Plan τ β → Prop} {next : α → Plan τ β} (h : plan.Sound atEnd)
    (hn : ∀ a, (next a).Sound atEnd')
    (he : ∀ plan : Plan τ α, atEnd plan → atEnd' (plan.bind next)) :
    (plan.bind next).Sound atEnd' := by
  induction plan with
  | done a => exact hn a
  | fail problem => exact trivial
  | write items plan ih => exact ih h
  | read schema refuse plan ih =>
    obtain ⟨hagree, hrest, hend⟩ := h
    exact ⟨fun r r' hr => congrArg (Plan.bind · next) (hagree r r' hr),
      fun r => ih (some r) (hrest r), fun hr => he _ (hend hr)⟩

theorem done (a : α) : (Plan.done a : Plan τ α).Sound atEnd := trivial

theorem discard (h : plan.Sound fun _ => False) : plan.discard.Sound fun _ => False :=
  h.bind (fun _ => trivial) fun _ => False.elim

theorem only {items : List τ} {atEnd : Plan τ Unit → Prop} : (Plan.only items).Sound atEnd :=
  trivial

/-- What follows a record that has to be there depends on what the record says. -/
theorem need_bind {missing : Problem} {next : Record → Plan τ α}
    (hagree : ∀ r r', schema.Agree r r' → next r = next r') (hn : ∀ r, (next r).Sound atEnd) :
    ((need schema missing).bind next).Sound atEnd :=
  ⟨hagree, hn, nofun⟩

theorem counted {declared : Int} {body : Record → Plan τ Unit}
    (hagree : ∀ r r', schema.Agree r r' → body r = body r')
    (hb : ∀ r, (body r).Sound fun _ => False) :
    (Plan.counted schema declared body).Sound fun _ => False := by
  have hloop : ∀ left found,
      (Plan.countedInto schema declared body left found).Sound fun _ => False := by
    intro left
    induction left with
    | zero => exact fun found => trivial
    | succ left ih =>
      exact fun found => need_bind
        (fun r r' hr => congrArg (Plan.bind · _) (hagree r r' hr))
        fun r => (hb r).bind (fun _ => ih (found + 1)) fun _ => False.elim
  exact hloop declared.toNat 0

theorem untilEndInto {refuse : Record → Option Problem} {body : Record → Plan τ Unit}
    (hagree : ∀ r r', schema.Agree r r' → body r = body r')
    (hb : ∀ r, (body r).Sound fun _ => False) (limit found : Nat) :
    (Plan.untilEndInto schema refuse body limit found).Sound Idle := by
  induction limit generalizing found with
  | zero => exact trivial
  | succ limit ih =>
    exact ⟨fun r r' hr => congrArg (Plan.bind · _) (hagree r r' hr),
      fun r => (hb r).bind (fun _ => ih (found + 1)) fun _ => False.elim, fun _ => trivial⟩

theorem quiet (t : Transcriber τ Unit) (atEnd : Plan τ Unit → Prop) :
    (Plan.quiet t).Sound atEnd := by
  rw [Plan.quiet]
  split <;> exact trivial

theorem gather {σ : Type} {plan : Plan σ α} (h : plan.Sound fun _ => False)
    (result : List σ → α → β) : (plan.gather result : Plan τ β).Sound fun _ => False := by
  induction plan generalizing result with
  | done a => exact trivial
  | fail problem => exact trivial
  | write items next ih => exact ih h _
  | read schema refuse next ih =>
    obtain ⟨hagree, hrest, hend⟩ := h
    exact ⟨fun r r' hr => congrArg (Plan.gather result) (hagree r r' hr),
      fun r => ih (some r) (hrest r) result, hend⟩

end Sound

theorem Idle.bind {plan : Plan τ α} (h : plan.Idle) {next : α → Plan τ β}
    (hn : ∀ a, (next a).Idle) : (plan.bind next).Idle := by
  induction plan with
  | done a => exact hn a
  | fail problem => exact trivial
  | write items plan ih => exact ih h
  | read => exact h.elim

/-- Whether the end of the stream can be taken is not changed by an element around it. -/
theorem Sound.element {α : Type} {tag : String} {newline : Bool} {plan : Plan Markup α}
    {atEnd : Plan Markup α → Prop} (h : plan.Sound atEnd) (he : ∀ plan, atEnd plan →
      atEnd (plan.bind fun a => .write [.closing tag newline] (.done a))) :
    (Plan.element tag newline plan).Sound atEnd :=
  h.bind (fun _ => trivial) he

/-! ### The limit of a loop -/

/-- A run that does not fail gives no bytes back. -/
theorem unread_le_of_follow {plan : Plan τ α} {s : ByteStream} {a : α}
    (h : (plan.follow s).outcome = .ok a) :
    (plan.follow s).stream.unread.length ≤ s.unread.length := by
  induction plan generalizing s with
  | done b => exact Nat.le_refl _
  | fail problem => cases h
  | write items next ih => exact ih h
  | read schema refuse next ih =>
    cases hr : ByteStream.readRecord? schema s with
    | error problem t => rw [follow_read_error hr] at h; cases h
    | ok found t =>
      cases hf : refuse found with
      | some problem => rw [follow_read_refused hr hf] at h; cases h
      | none =>
        rw [follow_read_ok hr hf] at h ⊢
        exact Nat.le_trans (ih found h) (ByteStream.unread_le_of_readRecord? hr)

/-- A loop that may take more records than there are bytes takes all there are. -/
theorem follow_untilEndInto_limit {schema : Schema} {refuse : Record → Option Problem}
    {body : Record → Plan τ Unit} {limit limit' : Nat} (found : Nat) {s : ByteStream}
    (h : s.unread.length < limit) (h' : s.unread.length < limit') :
    (untilEndInto schema refuse body limit found).follow s =
      (untilEndInto schema refuse body limit' found).follow s := by
  induction limit generalizing limit' found s with
  | zero => omega
  | succ limit ih =>
    obtain ⟨limit', rfl⟩ := Nat.exists_eq_add_one_of_ne_zero (Nat.ne_zero_of_lt h')
    rw [untilEndInto, untilEndInto]
    cases hr : ByteStream.readRecord? schema s with
    | error problem t => rw [follow_read_error hr, follow_read_error hr]
    | ok next t =>
      cases next with
      | none => rw [follow_read_ok hr rfl, follow_read_ok hr rfl]
      | some record =>
        cases hf : refuse record with
        | some problem => rw [follow_read_refused hr hf, follow_read_refused hr hf]
        | none =>
          have ht := ByteStream.unread_lt_of_readRecord? hr
          rw [follow_read_ok hr hf, follow_read_ok hr hf, follow_bind, follow_bind]
          congr 1
          simp only [Account.andThen]
          cases ho : ((body record).follow t).outcome with
          | error problem => rfl
          | ok _ =>
            have hu := unread_le_of_follow ho
            have hlimit := Nat.lt_of_le_of_lt hu (Nat.lt_of_lt_of_le ht (Nat.le_of_lt_succ h))
            have hlimit' := Nat.lt_of_le_of_lt hu (Nat.lt_of_lt_of_le ht (Nat.le_of_lt_succ h'))
            rw [ih (found + 1) hlimit hlimit']

end Plan

end Checkpoint
