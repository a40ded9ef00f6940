import Mathlib.Data.List.Infix
import Checkpoint.Proofs.Acceptance
import Checkpoint.Proofs.Fields

/-! # Listing records

What loops over records make of a stream of frames, whatever is done with the records. A counted
loop yields the declared records and stops right behind them. A loop to the end yields the records
of the frames that are wholly there, and notices if the stream ends inside of a frame. -/
namespace Checkpoint

/-- The frame is a varint of the body's length, of any form, and then the body. -/
def Bytes.InFrame (body frame : Bytes) : Prop :=
  ∃ length, frame = length ++ body ∧ Varint.Spells body.length length

/-- The first `k` of the parts lie wholly inside the bytes, and no more of them do. -/
structure Bytes.HoldsWhole (bytes : Bytes) (parts : List Bytes) (k : Nat) : Prop where
  le_length : k ≤ parts.length
  start : (parts.take k).flatten <+: bytes
  most : ∀ j ≤ parts.length, (parts.take j).flatten <+: bytes → j ≤ k

/-- The bytes end where one of the parts ends, or before the first of them. -/
def Bytes.EndsBetween (bytes : Bytes) (parts : List Bytes) : Prop :=
  ∃ j ≤ parts.length, bytes = (parts.take j).flatten

theorem framed_of_inFrame {schema : Schema} {body frame : Bytes} {record : Record}
    (hf : body.InFrame frame) (hl : body.length ≤ maxRecordBytes)
    (hp : schema.parse body = .ok record) : Framed schema record frame := by
  obtain ⟨length, rfl, hs⟩ := hf
  exact ⟨length, body, rfl, Varint.spells_iff.mp hs, hl, hp⟩

/-- Bodies that are read as records stand in frames of these records. -/
theorem forall₂_framed {schema : Schema} {bodies frames : List Bytes} {records : List Record}
    (hf : List.Forall₂ Bytes.InFrame bodies frames)
    (hl : ∀ body ∈ bodies, body.length ≤ maxRecordBytes)
    (hp : List.Forall₂ (fun body record => schema.parse body = .ok record) bodies records) :
    List.Forall₂ (Framed schema) records frames := by
  induction hf generalizing records with
  | nil =>
    cases hp
    exact .nil
  | @cons body frame bodies frames hframe _ ih =>
    cases hp with
    | cons hparse hp =>
      obtain ⟨hbody, hl⟩ := List.forall_mem_cons.mp hl
      exact .cons (framed_of_inFrame hframe hbody hparse) (ih hl hp)

namespace Bytes

/-- A start of some parts is made of the first of them and a part of the next. -/
theorem exists_cut {parts : List Bytes} {bytes : Bytes} (h : bytes <+: parts.flatten) :
    ∃ before after more, parts = before ++ after ∧ bytes = before.flatten ++ more ∧
      (more = [] ∨
        ∃ part rest, after = part :: rest ∧ more <+: part ∧ more ≠ [] ∧ more ≠ part) := by
  induction parts generalizing bytes with
  | nil => exact ⟨[], [], [], rfl, List.prefix_nil.mp h, .inl rfl⟩
  | cons part rest ih =>
    rcases cut_append h with ⟨hp, hne⟩ | ⟨more, rfl, hp⟩
    · by_cases hnil : bytes = []
      · exact ⟨[], part :: rest, [], rfl, hnil, .inl rfl⟩
      · exact ⟨[], part :: rest, bytes, rfl, rfl, .inr ⟨part, rest, rfl, hp, hnil, hne⟩⟩
    · obtain ⟨before, after, more, rfl, rfl, hm⟩ := ih hp
      exact ⟨part :: before, after, more, rfl, by simp, hm⟩

section Cut

variable {before after : List Bytes} {more : Bytes}

/-- Bytes that go on after some parts, but not for a whole other one, hold these parts. -/
theorem holdsWhole_append (hm : ∀ part rest, after = part :: rest → ¬part <+: more) :
    HoldsWhole (before.flatten ++ more) (before ++ after) before.length where
  le_length := by simp
  start := by simp
  most j hj hp := by
    by_contra hlt
    -- a whole part more than there are before the cut would have to stand in what is left
    obtain ⟨i, rfl⟩ := Nat.exists_eq_add_of_lt (Nat.lt_of_not_le hlt)
    cases after with
    | nil =>
      rw [List.append_nil] at hj
      omega
    | cons part rest =>
      rw [Nat.add_assoc, List.take_length_add_append, List.take_succ_cons, List.flatten_append,
        List.prefix_append_right_inj, List.flatten_cons] at hp
      exact hm part rest rfl ((List.prefix_append _ _).trans hp)

/-- Such bytes end inside of a part if there is something after the whole ones. -/
theorem not_endsBetween_append (hm : ∀ part rest, after = part :: rest → ¬part <+: more)
    (hne : more ≠ []) : ¬EndsBetween (before.flatten ++ more) (before ++ after) := by
  rintro ⟨j, hj, he⟩
  have hk := (holdsWhole_append hm).most j hj (he ▸ List.prefix_rfl)
  have hle : (before ++ after).take j <+: before := by
    rw [List.take_append_of_le_length hk]
    exact List.take_prefix _ _
  have hl := congrArg List.length he
  have hs := (List.IsPrefix.flatten hle).length_le
  have hpos := List.length_pos_iff.mpr hne
  rw [List.length_append] at hl
  omega

end Cut

end Bytes

namespace Transcriber

/-- Lists a record as it is read. -/
def note (record : Record) : Transcriber Record Unit := write [record]

theorem run_note {record : Record} {s : ByteStream} : (note record).run s = ⟨[record], .ok (), s⟩ :=
  rfl

theorem note_rounds (schema : Schema) : Rounds schema note (Framed schema) fun record => [record] :=
  .write _

section Frames

variable {schema : Schema} {records : List Record} {frames : List Bytes}

/-- A counted loop lists the records of as many frames, whatever follows them. -/
theorem run_countedInto_frames (h : List.Forall₂ (Framed schema) records frames) {declared : Int}
    (found : Nat) (rest : ByteStream) :
    (countedInto schema declared note records.length found []).run
      ⟨frames.flatten ++ rest.unread, rest.fault⟩ =
        ⟨records, .ok (found + records.length), rest⟩ := by
  induction h generalizing found with
  | nil => rfl
  | @cons record frame records frames hf _ ih =>
    have hn : (nextRecord schema (.count (.shortfall schema.name declared found)) :
        Transcriber Record Record).run ⟨frame ++ (frames.flatten ++ rest.unread), rest.fault⟩ =
          ⟨[], .ok record, ⟨frames.flatten ++ rest.unread, rest.fault⟩⟩ := by
      rw [run_nextRecord, ByteStream.readRecord?_of_framed hf]
    rw [List.flatten_cons, List.append_assoc, List.length_cons, countedInto_succ, run_bind_ok hn,
      run_bind_ok run_note, ih, Nat.succ_add_eq_add_succ]
    rfl

/-- A loop to the end that comes to bytes it cannot read as a record has read none of them. -/
theorem run_untilEndInto_error {τ : Type} {body : Record → Transcriber τ Unit} {s t : ByteStream}
    {problem : RecordProblem} (h : ByteStream.readRecord? schema s = .error problem t)
    (limit found : Nat) : (untilEndInto schema body (limit + 1) found []).run s =
      ⟨[], .error problem, t⟩ := by
  rw [untilEndInto_succ]
  refine run_bind_error ?_
  rw [run_ofReader, h]

/-- A loop to the end lists the records of the frames that are wholly there. It ends with the stream
if that ends between two frames, and fails otherwise. -/
theorem run_untilEnd_frames (h : List.Forall₂ (Framed schema) records frames) {part : Bytes}
    (hp : part <+: frames.flatten) : ∃ k, part.HoldsWhole frames k ∧
      (part.EndsBetween frames →
        (untilEnd schema note).run ⟨part, none⟩ = ⟨records.take k, .ok k, ⟨[], none⟩⟩) ∧
      (¬part.EndsBetween frames → ∃ problem s, (untilEnd schema note).run ⟨part, none⟩ =
        ⟨records.take k, .error (.malformed problem), s⟩) := by
  obtain ⟨before, after, more, rfl, rfl, hm⟩ := Bytes.exists_cut hp
  have hbefore := List.forall₂_take before.length h
  rw [List.take_left] at hbefore
  have hk := hbefore.length_eq
  obtain ⟨limit, hl, hrun⟩ := (note_rounds schema).run_untilEnd_append ⟨before, hbefore, rfl⟩ more
  obtain ⟨limit, rfl⟩ := Nat.exists_eq_add_of_lt hl
  rw [List.flatMap_singleton', hk] at hrun
  have hafter := List.forall₂_drop before.length h
  rw [List.drop_left] at hafter
  rcases hm with rfl | ⟨frame, rest, rfl, hcut, hnil, hne⟩
  · -- the stream ends behind a whole frame, and no other frame is empty
    have hnone : ∀ frame rest, after = frame :: rest → ¬frame <+: [] := by
      rintro frame rest rfl hf
      obtain ⟨record, -, hframed, -, -⟩ := List.forall₂_cons_right_iff.mp hafter
      exact hframed.ne_nil (List.prefix_nil.mp hf)
    refine ⟨before.length, Bytes.holdsWhole_append hnone, fun _ => ?_, fun hn => ?_⟩
    · rw [hrun]
      exact congrArg (Transcript.mk · _ _) (List.append_nil _)
    · exact absurd ⟨before.length, by simp, by simp⟩ hn
  · have hnone : ∀ frame' rest', frame :: rest = frame' :: rest' → ¬frame' <+: more := by
      rintro _ _ ⟨⟩ hf
      exact hne (hcut.eq_of_length_le hf.length_le)
    obtain ⟨record, -, hframed, -, -⟩ := List.forall₂_cons_right_iff.mp hafter
    obtain ⟨problem, s, he⟩ := ByteStream.readRecord?_cut hframed hcut hnil hne
    refine ⟨before.length, Bytes.holdsWhole_append hnone, fun hn => ?_, fun _ => ?_⟩
    · exact absurd hn (Bytes.not_endsBetween_append hnone hnil)
    · refine ⟨problem, s, ?_⟩
      rw [hrun, run_untilEndInto_error he]
      exact congrArg (Transcript.mk · _ _) (List.append_nil _)

/-- Records that are framed by any varints of their lengths are listed one by one. A counted loop
lists and counts as many as it is told and leaves the stream right behind them, whatever follows. A
loop to the end, wherever the stream is cut, lists the records that are wholly there; it ends with
the stream exactly if the cut is between two frames, and fails otherwise, after these records. -/
theorem frames_listed {bodies : List Bytes}
    (hf : List.Forall₂ Bytes.InFrame bodies frames)
    (hl : ∀ body ∈ bodies, body.length ≤ maxRecordBytes)
    (hp : List.Forall₂ (fun body record => schema.parse body = .ok record) bodies records) :
    (∀ n ≤ records.length, ∀ rest : ByteStream, (counted schema n note).run
      ⟨(frames.take n).flatten ++ rest.unread, rest.fault⟩ = ⟨records.take n, .ok n, rest⟩) ∧
    ∀ part : Bytes, part <+: frames.flatten → ∃ k, part.HoldsWhole frames k ∧
      (part.EndsBetween frames →
        (untilEnd schema note).run ⟨part, none⟩ = ⟨records.take k, .ok k, ⟨[], none⟩⟩) ∧
      (¬part.EndsBetween frames → ∃ problem s, (untilEnd schema note).run ⟨part, none⟩ =
        ⟨records.take k, .error (.malformed problem), s⟩) := by
  have h := forall₂_framed hf hl hp
  refine ⟨fun n hn rest => ?_, fun part => run_untilEnd_frames h⟩
  have hloop : (countedInto schema n note (records.take n).length 0 []).run _ = _ :=
    run_countedInto_frames (List.forall₂_take n h) 0 rest
  rw [List.length_take_of_le hn, Nat.zero_add] at hloop
  exact hloop

/-- Two rows of children, the first with a length that is padded: the first one is taken alone, and
the loop to the end fails behind it if the stream ends inside of the second. -/
theorem frames_listed_twoRows :
    (counted DirectoryLinks.schema 1 note).run ⟨[132, 0, 8, 1, 16, 2, 2, 8], none⟩ =
      ⟨[[(1, [.int 1]), (2, [.int 2])]], .ok 1, ⟨[2, 8], none⟩⟩ ∧
    ∃ problem s, (untilEnd DirectoryLinks.schema note).run ⟨[132, 0, 8, 1, 16, 2, 2, 8], none⟩ =
      ⟨[[(1, [.int 1]), (2, [.int 2])]], .error (.malformed problem), s⟩ := by
  have hpadded : Varint.Spells 4 [132, 0] := by
    refine ⟨?_, by decide⟩
    exact .more (b := 132) (by decide) (.last (b := 0) (by decide))
  have hshort : Varint.Spells 2 [2] := by
    refine ⟨?_, by decide⟩
    exact .last (b := 2) (by decide)
  have hf : List.Forall₂ Bytes.InFrame [[8, 1, 16, 2], [8, 2]]
      [[132, 0, 8, 1, 16, 2], [2, 8, 2]] :=
    .cons ⟨[132, 0], rfl, hpadded⟩ (.cons ⟨[2], rfl, hshort⟩ .nil)
  have hp : List.Forall₂ (fun body record => DirectoryLinks.schema.parse body = .ok record)
      [[8, 1, 16, 2], [8, 2]] [[(1, [.int 1]), (2, [.int 2])], [(1, [.int 2])]] :=
    .cons (by cbv) (.cons (by cbv) .nil)
  obtain ⟨hcounted, hcut⟩ := frames_listed hf (by decide) hp
  obtain ⟨k, hk, -, hfail⟩ := hcut [132, 0, 8, 1, 16, 2, 2, 8] ⟨[2], rfl⟩
  have hle : k ≤ 2 := hk.le_length
  have hge : 1 ≤ k := hk.most 1 (by decide) (by decide)
  have hne : k ≠ 2 := by
    rintro rfl
    exact absurd hk.start (by decide)
  obtain rfl : k = 1 := by omega
  refine ⟨hcounted 1 (by decide) ⟨[2, 8], none⟩, hfail ?_⟩
  unfold Bytes.EndsBetween
  decide

end Frames

end Transcriber

end Checkpoint
