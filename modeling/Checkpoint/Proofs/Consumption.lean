import Mathlib.Algebra.GroupWithZero.Nat
import Mathlib.Algebra.Order.BigOperators.Group.List
import Mathlib.Algebra.Order.Group.Nat
import Checkpoint.Proofs.Arrangement
import Checkpoint.Proofs.Listing
import Checkpoint.Proofs.ReadFailures

/-! # What reading consumes

A record takes at least one byte of its stream. So there are never more records than bytes, however
many of them a header declares, and however many the records of a section declare again. -/
namespace Checkpoint

/-! ## Counted loops -/

namespace Transcriber

variable {schema : Schema} {declared : Int}

/-- Lists a record as it is read, with the number of bytes that are left behind it. -/
def noteLeft (record : Record) : Transcriber (Record × Nat) Unit := fun s =>
  ⟨[(record, s.unread.length)], .ok (), s⟩

theorem run_noteLeft {record : Record} {s : ByteStream} :
    (noteLeft record).run s = ⟨[(record, s.unread.length)], .ok (), s⟩ := rfl

/-- A loop that takes `left` records more takes all of them, or fails at a record before. Every one
that it takes leaves fewer bytes than there were before it. -/
theorem run_countedInto_noteLeft (left found : Nat) (s : ByteStream) :
    let run := (countedInto schema declared noteLeft left found []).run s
    (s.unread.length :: run.written.map Prod.snd).Pairwise (· > ·) ∧
      (run.outcome = .ok (found + left) ∧ run.written.length = left ∨
        ∃ problem, run.outcome = .error problem ∧ problem.IsMalformed ∧
          run.written.length < left) := by
  induction left generalizing found s with
  | zero => exact ⟨List.pairwise_singleton _ _, .inl ⟨rfl, rfl⟩⟩
  | succ left ih =>
    have hn := @run_nextRecord (Record × Nat) s schema
      (.count (.shortfall schema.name declared found))
    dsimp only
    rw [countedInto_succ]
    cases hr : ByteStream.readRecord? schema s with
    | error problem t =>
      rw [hr] at hn
      rw [run_bind_error hn]
      exact ⟨List.pairwise_singleton _ _, .inr ⟨_, rfl, trivial, Nat.succ_pos left⟩⟩
    | ok next t =>
      cases next with
      | none =>
        rw [hr] at hn
        rw [run_bind_error hn]
        exact ⟨List.pairwise_singleton _ _, .inr ⟨_, rfl, trivial, Nat.succ_pos left⟩⟩
      | some record =>
        rw [hr] at hn
        rw [run_bind_ok hn, run_bind_ok run_noteLeft]
        obtain ⟨hfalling, hend⟩ := ih (found + 1) t
        have hlt := ByteStream.unread_lt_of_readRecord? hr
        refine ⟨List.pairwise_cons.mpr ⟨fun after hm => ?_, hfalling⟩, ?_⟩
        · rcases List.mem_cons.mp hm with rfl | hm
          · exact hlt
          · exact Nat.lt_trans ((List.pairwise_cons.mp hfalling).1 after hm) hlt
        · rcases hend with ⟨ho, hl⟩ | ⟨problem, ho, hp, hl⟩
          · exact .inl ⟨ho.trans (congrArg _ (Nat.succ_add_eq_add_succ found left)),
              congrArg (· + 1) hl⟩
          · exact .inr ⟨problem, ho, hp, Nat.succ_lt_succ hl⟩

end Transcriber

/-- Numbers that fall, from `n` on, are at most `n`. -/
theorem length_le_of_falling {n : Nat} {numbers : List Nat}
    (h : (n :: numbers).Pairwise (· > ·)) : numbers.length ≤ n := by
  induction numbers generalizing n with
  | nil => exact Nat.zero_le n
  | cons m rest ih =>
    obtain ⟨hn, hrest⟩ := List.pairwise_cons.mp h
    exact Nat.lt_of_le_of_lt (ih hrest) (hn m List.mem_cons_self)

/-! ## Conversions -/

/-- How many records are decoded when a plan is followed on a stream. What is refused has been
decoded before. -/
def Plan.decoded {τ α : Type} : Plan τ α → ByteStream → Nat
  | done _, _ | fail _, _ => 0
  | write _ next, s => next.decoded s
  | read schema refuse next, s =>
    match ByteStream.readRecord? schema s with
    | .error _ _ => 0
    | .ok found t =>
      found.toList.length +
        match refuse found with
        | some _ => 0
        | none => (next found).decoded t

/-- How many records are decoded when the section of a kind is read. -/
def SectionKind.decoded (kind : SectionKind) (strings : Option StringTable) (s : ByteStream) : Nat :=
  (kind.plan strings (s.unread.length + 1)).decoded s

/-- How many records are decoded in a visit of sections, which ends in the first section that is not
completed. -/
def Session.decoded (settings : Settings) (streamOf : SectionEntry → ByteStream) :
    List SectionEntry → Session → Nat
  | [], _ => 0
  | entry :: rest, session =>
    match entry.kind with
    | none => decoded settings streamOf rest session
    | some kind =>
      let visit := session.visitKnown settings streamOf entry kind
      kind.decoded session.strings (streamOf entry) +
        match visit.failure with
        | some _ => 0
        | none => decoded settings streamOf rest visit.session

/-- How many records of its sections are decoded when an image is converted; none if it cannot be
opened. -/
def Settings.decoded (settings : Settings) (image : Bytes) : Nat :=
  match Summary.read image with
  | .error _ => 0
  | .ok summary =>
    match settings.codecs.choose summary.codec with
    | .error _ => 0
    | .ok codec =>
      ({} : Session).decoded settings (codec.stream image)
        (SectionEntry.visitOrder summary.sections)

namespace Plan

variable {τ α : Type}

/-- Whatever the records that have been read ask for, there are no more of them than bytes. -/
theorem decoded_le (plan : Plan τ α) (s : ByteStream) : plan.decoded s ≤ s.unread.length := by
  induction plan generalizing s with
  | done a => exact Nat.zero_le _
  | fail problem => exact Nat.zero_le _
  | write items next ih => exact ih s
  | read schema refuse next ih =>
    rw [decoded]
    cases hr : ByteStream.readRecord? schema s with
    | error problem t => exact Nat.zero_le _
    | ok found t =>
      have htaken : found.toList.length + t.unread.length ≤ s.unread.length := by
        cases found with
        | none => exact (Nat.zero_add _).trans_le (ByteStream.unread_le_of_readRecord? hr)
        | some record =>
          rw [Option.toList_some, List.length_singleton, Nat.add_comm]
          exact ByteStream.unread_lt_of_readRecord? hr
      refine Nat.le_trans (Nat.add_le_add_left ?_ _) htaken
      cases refuse found with
      | some problem => exact Nat.zero_le _
      | none => exact ih found t

/-- Every record that a run goes on with has been decoded. -/
theorem length_taken_le (plan : Plan τ α) (s : ByteStream) :
    (plan.follow s).taken.length ≤ plan.decoded s := by
  induction plan generalizing s with
  | done a => exact Nat.zero_le _
  | fail problem => exact Nat.zero_le _
  | write items next ih => exact ih s
  | read schema refuse next ih =>
    rw [decoded]
    cases hr : ByteStream.readRecord? schema s with
    | error problem t => rw [follow_read_error hr]; exact Nat.zero_le _
    | ok found t =>
      cases hf : refuse found with
      | some problem => rw [follow_read_refused hr hf]; exact Nat.zero_le _
      | none =>
        rw [follow_read_ok hr hf, Account.afterReading, List.length_append, List.length_map]
        dsimp only
        rw [hf]
        exact Nat.add_le_add_left (ih found t) _

end Plan

namespace Session

variable {settings : Settings} {streamOf : SectionEntry → ByteStream}

theorem sum_readings_le (entries : List SectionEntry) (session : Session) :
    ((session.readings settings streamOf entries).sections.map List.length).sum ≤
      session.decoded settings streamOf entries := by
  induction entries generalizing session with
  | nil => exact Nat.le_refl 0
  | cons entry rest ih =>
    cases hk : entry.kind with
    | none =>
      rw [readings_of_none hk, decoded, hk]
      exact ih session
    | some kind =>
      have htaken : (kind.account session.strings (streamOf entry)).taken.length ≤
          kind.decoded session.strings (streamOf entry) := Plan.length_taken_le _ _
      rw [decoded, hk]
      dsimp only
      cases hf : (session.visitKnown settings streamOf entry kind).failure with
      | some failure =>
        rw [readings_of_failure hk hf]
        exact htaken
      | none =>
        rw [readings_of_done hk hf]
        exact Nat.add_le_add htaken (ih _)

/-- The bytes of a section bound its records, also if the visit ends in it. -/
theorem decoded_le (entries : List SectionEntry) (session : Session) :
    session.decoded settings streamOf entries ≤
      ((entries.filter (·.kind.isSome)).map fun entry => (streamOf entry).unread.length).sum := by
  induction entries generalizing session with
  | nil => exact Nat.le_refl 0
  | cons entry rest ih =>
    rw [decoded]
    cases hk : entry.kind with
    | none =>
      rw [List.filter_cons_of_neg (by simp [hk])]
      exact ih session
    | some kind =>
      rw [List.filter_cons_of_pos (by simp [hk]), List.map_cons, List.sum_cons]
      refine Nat.add_le_add (Plan.decoded_le _ _) ?_
      split
      · exact Nat.zero_le _
      · exact ih _

end Session

/-- The stream of a section that is stored as it is has no more bytes than the table says. -/
theorem length_stream_stored_le (image : Bytes) (entry : SectionEntry) :
    (CodecChoice.stored.stream image entry).unread.length ≤ entry.length.toNat :=
  (Bytes.length_slice ..).trans_le (Nat.min_le_left ..)

theorem Settings.decoded_le {settings : Settings} {image : Bytes} {summary : Summary}
    (hr : Summary.read image = .ok summary)
    (hc : settings.codecs.choose summary.codec = .ok .stored) :
    settings.decoded image ≤
      ((summary.sections.filter (·.kind.isSome)).map fun entry => entry.length.toNat).sum := by
  have hperm := (SectionEntry.visitOrder_steady summary.sections).perm
  rw [decoded, hr]
  dsimp only
  rw [hc]
  refine Nat.le_trans (Session.decoded_le _ _) ?_
  rw [← ((hperm.filter _).map _).sum_nat]
  exact List.sum_le_sum fun entry _ => length_stream_stored_le image entry

theorem Settings.sum_readings_le (settings : Settings) (image : Bytes) :
    ((settings.readings image).sections.map List.length).sum ≤ settings.decoded image := by
  rw [readings, decoded]
  cases Summary.read image with
  | error cause => exact Nat.le_refl 0
  | ok summary =>
    dsimp only
    cases settings.codecs.choose summary.codec with
    | error cause => exact Nat.le_refl 0
    | ok codec => exact Session.sum_readings_le _ _

/-- A declared count never makes reading run past the bytes. Each record that a counted loop takes
leaves fewer bytes, so there are at most as many as bytes; the loop ends well only after the declared
number, none if that is negative, which is what it counts, and otherwise with a record that is
malformed or missing. The plan by which a section is read decodes no more records than there are
bytes in its stream. In a conversion of sections that are stored as they are, no more records are
decoded than the known sections have bytes. -/
theorem records_le_bytes :
    (∀ (schema : Schema) (declared : Int) (s : ByteStream),
      let run := (Transcriber.counted schema declared Transcriber.noteLeft).run s
      (s.unread.length :: run.written.map Prod.snd).Pairwise (· > ·) ∧
      run.written.length ≤ min declared.toNat s.unread.length ∧
      (∀ n, run.outcome = .ok n → n = run.written.length ∧ n = declared.toNat) ∧
      (∀ problem, run.outcome = .error problem → problem.IsMalformed) ∧
      ((s.unread.length : Int) < declared → ∃ problem, run.outcome = .error problem)) ∧
    (∀ (kind : SectionKind) (strings : Option StringTable) (s : ByteStream),
      (kind.account strings s).toTranscript = (kind.scribe strings).run s ∧
      (kind.account strings s).taken.length ≤ kind.decoded strings s ∧
      kind.decoded strings s ≤ s.unread.length) ∧
    ∀ (settings : Settings) (image : Bytes) (summary : Summary),
      Summary.read image = .ok summary → settings.codecs.choose summary.codec = .ok .stored →
      ((settings.readings image).sections.map List.length).sum ≤ settings.decoded image ∧
      settings.decoded image ≤
        ((summary.sections.filter (·.kind.isSome)).map fun entry => entry.length.toNat).sum := by
  refine ⟨fun schema declared s => ?_, fun kind strings s => ⟨kind.toTranscript_account strings s,
    Plan.length_taken_le _ s, Plan.decoded_le _ s⟩, fun settings image summary hr hc =>
      ⟨settings.sum_readings_le image, settings.decoded_le hr hc⟩⟩
  intro run
  obtain ⟨hfalling, hend⟩ : (s.unread.length :: run.written.map Prod.snd).Pairwise (· > ·) ∧ _ :=
    Transcriber.run_countedInto_noteLeft declared.toNat 0 s
  have hbytes := length_le_of_falling hfalling
  rw [List.length_map] at hbytes
  rcases hend with ⟨ho, hl⟩ | ⟨problem, ho, hp, hl⟩
  · refine ⟨hfalling, Nat.le_min.mpr ⟨Nat.le_of_eq hl, hbytes⟩, fun n hn => ?_, ?_, ?_⟩
    · have hfound : n = declared.toNat :=
        (Except.ok.inj (hn.symm.trans ho)).trans (Nat.zero_add _)
      exact ⟨hfound.trans hl.symm, hfound⟩
    · intro problem he
      cases ho.symm.trans he
    · intro hlt
      have hdeclared : run.written.length = declared.toNat := hl
      omega
  · refine ⟨hfalling, Nat.le_min.mpr ⟨Nat.le_of_lt hl, hbytes⟩, ?_, ?_, fun _ => ⟨problem, ho⟩⟩
    · intro n he
      cases ho.symm.trans he
    · intro problem' he
      obtain rfl : problem = problem' := Except.error.inj (ho.symm.trans he)
      exact hp

/-- Of a stream of three bytes at most three records are taken, whatever is declared, and an image
whose known sections have 40 bytes has at most so many records. -/
theorem records_le_bytes_small :
    (∃ problem, ((Transcriber.counted DirectoryLinks.schema (2 ^ 63 - 1)
      Transcriber.noteLeft).run ⟨[2, 8, 1], none⟩).outcome = .error problem ∧
        problem.IsMalformed) ∧
    ({} : Settings).decoded smallImage ≤ 40 := by
  obtain ⟨hloop, -, hconversion⟩ := records_le_bytes
  obtain ⟨-, -, -, hproblem, hfails⟩ := hloop DirectoryLinks.schema (2 ^ 63 - 1) ⟨[2, 8, 1], none⟩
  obtain ⟨problem, ho⟩ := hfails (by decide)
  refine ⟨⟨problem, ho, hproblem problem ho⟩, ?_⟩
  exact (hconversion {} smallImage smallSummary read_smallImage rfl).2

end Checkpoint
