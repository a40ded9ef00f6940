import Checkpoint.Proofs.Delimited
import Checkpoint.Proofs.Grammar

/-! # Loops over records

What loops over records take, in terms of what one round takes. A round reads a record and whatever
belongs to it; if the rounds are the spellings of things of some type, a counted loop takes the
spellings of so many of them, and a loop to the end takes a stream that holds nothing else. A stream
that is cut between two rounds is taken by a loop to the end as if it had never been longer, and one
that is cut anywhere else is not taken at all. -/
namespace Checkpoint.Transcriber

variable {τ γ : Type} {schema : Schema} {body : Record → Transcriber τ Unit}
  {spells : γ → Bytes → Prop} {markup : γ → List τ}

/-- Every round takes the spelling of a thing and writes its markup, and every spelling is taken. -/
structure Rounds (schema : Schema) (body : Record → Transcriber τ Unit)
    (spells : γ → Bytes → Prop) (markup : γ → List τ) : Prop where
  delimited : ∀ record, (body record).Delimited
  takes : ∀ {taken written},
    (∃ record, Led schema record (fun rest => (body record).Takes rest written ()) taken) ↔
      ∃ x, spells x taken ∧ written = markup x

namespace Rounds

theorem takes_countedInto (hr : Rounds schema body spells markup) {declared : Int}
    {left found : Nat} {taken : Bytes} {written : List τ} {n : Nat} :
    (countedInto schema declared body left found []).Takes taken written n ↔
      n = found + left ∧
        ∃ xs, xs.length = left ∧ Spelled spells xs taken ∧ written = xs.flatMap markup := by
  induction left generalizing found taken written with
  | zero =>
    rw [countedInto_zero, takes_pure]
    constructor
    · rintro ⟨rfl, rfl, rfl⟩
      exact ⟨rfl, [], rfl, by simp, rfl⟩
    · rintro ⟨rfl, xs, hl, hs, rfl⟩
      obtain rfl := List.length_eq_zero_iff.mp hl
      exact ⟨spelled_nil.mp hs, rfl, rfl⟩
  | succ left ih =>
    have hloop : ∀ found, (countedInto schema declared body left found []).Delimited :=
      fun found => .countedInto hr.delimited left found
    have hn : (nextRecord schema (.count (.shortfall schema.name declared found)) :
        Transcriber τ Record).Delimited := .nextRecord trivial
    rw [countedInto_succ, takes_bind hn fun record =>
      .bind (hr.delimited record) fun _ => hloop _]
    constructor
    · rintro ⟨first, before, record, more, after, rfl, rfl, hf, hm⟩
      obtain ⟨rfl, hframe⟩ := takes_nextRecord.mp hf
      obtain ⟨middle, during, u, rest, after, rfl, rfl, hb, hl⟩ :=
        (takes_bind (hr.delimited record) fun _ => hloop _).mp hm
      obtain ⟨x, hx, rfl⟩ := hr.takes.mp ⟨record, first, middle, rfl, hframe, hb⟩
      obtain ⟨rfl, xs, rfl, hs, rfl⟩ := ih.mp hl
      refine ⟨Nat.succ_add_eq_add_succ found _, x :: xs, rfl, ?_, by simp⟩
      exact spelled_cons.mpr ⟨_, rest, by simp, hx, hs⟩
    · rintro ⟨rfl, xs, hl, hs, rfl⟩
      obtain ⟨x, xs, rfl⟩ := List.exists_cons_of_length_eq_add_one hl
      obtain ⟨part, rest, rfl, hx, hxs⟩ := spelled_cons.mp hs
      obtain ⟨record, first, middle, rfl, hf, hb⟩ := hr.takes.mpr ⟨x, hx, rfl⟩
      have hl : (countedInto schema declared body left (found + 1) []).Takes rest _
          (found + (left + 1)) :=
        ih.mpr ⟨(Nat.succ_add_eq_add_succ found left).symm, xs, by simpa using hl, hxs, rfl⟩
      exact ⟨first, [], record, middle ++ rest, _, by simp, by simp, .nextRecord hf, hb.bind hl⟩

/-- A counted loop takes the spellings of as many things as are declared. -/
theorem takes_counted (hr : Rounds schema body spells markup) {declared : Int} {taken : Bytes}
    {written : List τ} {n : Nat} : (counted schema declared body).Takes taken written n ↔
      n = declared.toNat ∧ ∃ xs, xs.length = declared.toNat ∧ Spelled spells xs taken ∧
        written = xs.flatMap markup := by
  rw [counted, hr.takes_countedInto, Nat.zero_add]

theorem ne_nil (hr : Rounds schema body spells markup) {x : γ} {taken : Bytes}
    (hx : spells x taken) : taken ≠ [] := by
  obtain ⟨record, first, rest, rfl, hf, -⟩ := hr.takes.mpr ⟨x, hx, rfl⟩
  intro he
  exact hf.ne_nil (List.append_eq_nil_iff.mp he).1

theorem length_le (hr : Rounds schema body spells markup) {xs : List γ} {bytes : Bytes}
    (hs : Spelled spells xs bytes) : xs.length ≤ bytes.length := by
  induction xs generalizing bytes with
  | nil => simp
  | cons x xs ih =>
    obtain ⟨first, rest, rfl, hx, hs⟩ := spelled_cons.mp hs
    have hf := List.length_pos_iff.mpr (hr.ne_nil hx)
    have := ih hs
    simp only [List.length_cons, List.length_append]
    omega

theorem run_untilEndInto (hr : Rounds schema body spells markup) {x : γ} {taken : Bytes}
    (hx : spells x taken) (limit found : Nat) (rest : Bytes) :
    (untilEndInto schema body (limit + 1) found []).run ⟨taken ++ rest, none⟩ =
      ((untilEndInto schema body limit (found + 1) []).run ⟨rest, none⟩).after (markup x) := by
  obtain ⟨record, first, middle, rfl, hf, hb⟩ := hr.takes.mpr ⟨x, hx, rfl⟩
  have hn := @run_ofReader τ _ ⟨first ++ middle ++ rest, none⟩ (ByteStream.readRecord? schema)
  rw [List.append_assoc, ByteStream.readRecord?_of_framed hf] at hn
  rw [List.append_assoc, untilEndInto_succ, run_bind_ok hn]
  exact run_bind_ok (hb rest)

/-- A loop to the end that comes to spellings writes their markup and goes on behind them. -/
theorem run_untilEndInto_append (hr : Rounds schema body spells markup) {xs : List γ}
    {bytes : Bytes} (hs : Spelled spells xs bytes) (limit found : Nat) (rest : Bytes) :
    (untilEndInto schema body (xs.length + limit) found []).run ⟨bytes ++ rest, none⟩ =
      ((untilEndInto schema body limit (found + xs.length) []).run ⟨rest, none⟩).after
        (xs.flatMap markup) := by
  induction xs generalizing bytes found with
  | nil =>
    rw [spelled_nil.mp hs]
    simp [Transcript.after]
  | cons x xs ih =>
    obtain ⟨first, others, rfl, hx, hs⟩ := spelled_cons.mp hs
    have hl : (x :: xs).length + limit = xs.length + limit + 1 := by
      rw [List.length_cons]
      omega
    rw [hl, List.append_assoc, hr.run_untilEndInto hx, ih hs]
    simp [Transcript.after, Nat.add_comm, Nat.add_left_comm]

/-- A loop to the end goes through the spellings that the stream starts with, and has rounds left
for everything behind them. -/
theorem run_untilEnd_append (hr : Rounds schema body spells markup) {xs : List γ} {bytes : Bytes}
    (hs : Spelled spells xs bytes) (rest : Bytes) :
    ∃ limit, rest.length < limit ∧ (untilEnd schema body).run ⟨bytes ++ rest, none⟩ =
      ((untilEndInto schema body limit xs.length []).run ⟨rest, none⟩).after
        (xs.flatMap markup) := by
  obtain ⟨spare, hl⟩ := Nat.exists_eq_add_of_le (hr.length_le hs)
  have h := hr.run_untilEndInto_append hs (spare + rest.length + 1) 0 rest
  have hlimit : xs.length + (spare + rest.length + 1) = (bytes ++ rest).length + 1 := by
    rw [List.length_append]
    omega
  rw [hlimit, Nat.zero_add] at h
  exact ⟨spare + rest.length + 1, by omega, h⟩

/-- A loop to the end takes a stream that is made of spellings, and writes their markup. -/
theorem run_untilEnd (hr : Rounds schema body spells markup) {xs : List γ} {bytes : Bytes}
    (hs : Spelled spells xs bytes) : (untilEnd schema body).run ⟨bytes, none⟩ =
      ⟨xs.flatMap markup, .ok xs.length, ⟨[], none⟩⟩ := by
  obtain ⟨limit, hl, h⟩ := hr.run_untilEnd_append hs []
  obtain ⟨limit, rfl⟩ := Nat.exists_eq_add_of_lt hl
  rw [List.append_nil] at h
  rw [h]
  exact congrArg (Transcript.mk · _ _) (List.append_nil _)

/-- What a loop to the end takes is made of spellings. -/
theorem spelled_of_untilEnd (hr : Rounds schema body spells markup) {bytes : Bytes}
    {written : List τ} {n : Nat} {s : ByteStream}
    (h : (untilEnd schema body).run ⟨bytes, none⟩ = ⟨written, .ok n, s⟩) :
    ∃ xs, Spelled spells xs bytes ∧ written = xs.flatMap markup ∧ n = xs.length ∧
      s = ⟨[], none⟩ := by
  have loop : ∀ limit found bytes written, bytes.length < limit →
      (untilEndInto schema body limit found []).run ⟨bytes, none⟩ = ⟨written, .ok n, s⟩ →
        ∃ xs, Spelled spells xs bytes ∧ written = xs.flatMap markup ∧ n = found + xs.length ∧
          s = ⟨[], none⟩ := by
    -- every round reads something, so the limit is not reached before the end
    intro limit
    induction limit with
    | zero => intro found bytes written hl; omega
    | succ limit ih =>
      intro found bytes written hl h
      rw [untilEndInto_succ] at h
      obtain ⟨before, read, mid, after, hf, hm, rfl⟩ := run_bind_eq_ok h
      rw [run_ofReader] at hf
      cases hread : ByteStream.readRecord? schema ⟨bytes, none⟩ with
      | error problem t => rw [hread] at hf; cases hf
      | ok found' t =>
        rw [hread] at hf
        cases hf
        cases read with
        | none =>
          obtain ⟨rfl, rfl⟩ := ByteStream.eq_nil_of_readRecord? hread
          cases hm
          exact ⟨[], by simp, rfl, rfl, rfl⟩
        | some record =>
          obtain ⟨first, rest, rfl, rfl, hf⟩ := ByteStream.framed_of_readRecord? hread
          obtain ⟨during, u, mid, after, hb, hl', rfl⟩ := run_bind_eq_ok hm
          obtain ⟨middle, rest, rfl, rfl, hk⟩ := (hr.delimited record).takes hb
          obtain ⟨x, hx, rfl⟩ := hr.takes.mp ⟨record, first, middle, rfl, hf, hk⟩
          have hp := List.length_pos_iff.mpr (hr.ne_nil hx)
          obtain ⟨xs, hs, rfl, rfl, rfl⟩ := ih (found + 1) rest after (by
            simp only [List.length_append] at hl hp; omega) hl'
          exact ⟨x :: xs, spelled_cons.mpr ⟨_, rest, by simp, hx, hs⟩, by simp,
            by simp only [List.length_cons]; omega, rfl⟩
  obtain ⟨xs, hs, hw, hn, he⟩ := loop (bytes.length + 1) 0 bytes written (by omega) h
  exact ⟨xs, hs, hw, by simpa using hn, he⟩

/-- A stream that is cut within a spelling is not taken. -/
theorem short_of_spells (hr : Rounds schema body spells markup) {x : γ} {taken part : Bytes}
    (hx : spells x taken) (hp : part <+: taken) (hnil : part ≠ []) (hne : part ≠ taken)
    (limit found : Nat) :
    (untilEndInto schema body (limit + 1) found []).FallsShort part (markup x) := by
  obtain ⟨record, first, rest, rfl, hf, hb⟩ := hr.takes.mpr ⟨x, hx, rfl⟩
  have hn := @run_ofReader τ _ ⟨part, none⟩ (ByteStream.readRecord? schema)
  rw [FallsShort, untilEndInto_succ]
  rcases cut_append hp with ⟨hq, he⟩ | ⟨more, rfl, hq⟩
  · obtain ⟨problem, s, hc⟩ := ByteStream.readRecord?_cut hf hq hnil he
    rw [hc] at hn
    exact ⟨[], problem, s, run_bind_error hn, List.nil_prefix, trivial⟩
  · rw [ByteStream.readRecord?_of_framed hf] at hn
    obtain ⟨before, problem, s, he, hw, hm⟩ :=
      (hr.delimited record).short hb hq fun he => hne (by rw [he])
    refine ⟨before, problem, s, ?_, hw, hm⟩
    rw [run_bind_ok hn]
    exact congrArg _ (run_bind_error he)

/-- A stream that is cut between spellings has some of them; one that is cut elsewhere is not taken,
and no more is written of it than of the whole. -/
theorem untilEnd_cut (hr : Rounds schema body spells markup) {xs : List γ} {parts : List Bytes}
    {part : Bytes} (hs : List.Forall₂ spells xs parts) (hp : part <+: parts.flatten) :
    (∃ k ≤ xs.length, part = (parts.take k).flatten) ∨
      (untilEnd schema body).FallsShort part (xs.flatMap markup) := by
  have loop : ∀ limit found, part.length < limit →
      (∃ k ≤ xs.length, part = (parts.take k).flatten) ∨
        (untilEndInto schema body limit found []).FallsShort part (xs.flatMap markup) := by
    -- the cut is before the first spelling, inside of it or after it
    induction hs generalizing part with
    | nil =>
      intro limit found hl
      exact .inl ⟨0, Nat.le_refl _, List.prefix_nil.mp hp⟩
    | @cons x first xs parts hx hs ih =>
      intro limit found hl
      obtain ⟨limit, rfl⟩ := Nat.exists_eq_add_of_lt (Nat.zero_lt_of_lt hl)
      rw [Nat.zero_add]
      by_cases hnil : part = []
      · exact .inl ⟨0, Nat.zero_le _, by simp [hnil]⟩
      rcases cut_append hp with ⟨hq, he⟩ | ⟨more, rfl, hq⟩
      · obtain ⟨before, problem, s, hc, hw, hm⟩ := hr.short_of_spells hx hq hnil he limit found
        exact .inr ⟨before, problem, s, hc, hw.trans (List.prefix_append ..), hm⟩
      · have hf := List.length_pos_iff.mpr (hr.ne_nil hx)
        rcases ih hq limit (found + 1) (by
          simp only [List.length_append] at hl; omega) with ⟨k, hk, rfl⟩ | hshort
        · exact .inl ⟨k + 1, Nat.succ_le_succ hk, by simp⟩
        · obtain ⟨before, problem, s, hc, hw, hm⟩ := hshort
          refine .inr ⟨markup x ++ before, problem, s, ?_,
            (List.prefix_append_right_inj _).mpr hw, hm⟩
          rw [hr.run_untilEndInto hx, hc]
          rfl
  exact loop (part.length + 1) 0 (Nat.lt_succ_self _)

end Rounds

end Checkpoint.Transcriber
