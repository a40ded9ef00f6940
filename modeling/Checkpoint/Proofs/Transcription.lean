import Checkpoint.Document.Section
import Checkpoint.Proofs.Frame

/-! # Runs of transcribers

How a run of a compound transcriber is put together from runs of its parts. The loops keep what they
have written in an accumulator; here each is brought into the form of one round followed by the
loop for what is left. -/
namespace Checkpoint

/-- A run before which something else has been written. -/
def Transcript.after {τ α : Type} (before : List τ) (run : Transcript τ α) : Transcript τ α :=
  ⟨before ++ run.written, run.outcome, run.stream⟩

namespace Transcriber

variable {τ α β : Type} {s t : ByteStream} {written : List τ} {problem : Problem}

@[simp] theorem run_pure (a : α) : (pure a : Transcriber τ α).run s = ⟨[], .ok a, s⟩ := rfl

@[simp] theorem run_write (items : List τ) : (write items).run s = ⟨items, .ok (), s⟩ := rfl

@[simp] theorem run_fail : (fail problem : Transcriber τ α).run s = ⟨[], .error problem, s⟩ := rfl

theorem run_bind_ok {first : Transcriber τ α} {next : α → Transcriber τ β} {a : α}
    (h : first.run s = ⟨written, .ok a, t⟩) :
    (first >>= next).run s = ((next a).run t).after written := by
  change andThen first next s = _
  simp only [andThen, h, Transcript.after]

theorem run_bind_error {first : Transcriber τ α} {next : α → Transcriber τ β}
    (h : first.run s = ⟨written, .error problem, t⟩) :
    (first >>= next).run s = ⟨written, .error problem, t⟩ := by
  change andThen first next s = _
  simp only [andThen, h]

theorem run_discard_ok {t' : Transcriber τ α} {a : α} (h : t'.run s = ⟨written, .ok a, t⟩) :
    (discard t' : Transcriber τ Unit).run s = ⟨written, .ok (), t⟩ :=
  (run_bind_ok h).trans (congrArg (Transcript.mk · _ _) (List.append_nil written))

theorem run_discard_error {t' : Transcriber τ α} (h : t'.run s = ⟨written, .error problem, t⟩) :
    (discard t' : Transcriber τ Unit).run s = ⟨written, .error problem, t⟩ :=
  run_bind_error h

/-- A chain that succeeds is made of two steps that succeed. -/
theorem run_bind_eq_ok {first : Transcriber τ α} {next : α → Transcriber τ β} {b : β}
    (h : (first >>= next).run s = ⟨written, .ok b, t⟩) :
    ∃ before a mid after, first.run s = ⟨before, .ok a, mid⟩ ∧
      (next a).run mid = ⟨after, .ok b, t⟩ ∧ written = before ++ after := by
  rcases hf : first.run s with ⟨before, outcome, mid⟩
  cases outcome with
  | error problem => rw [run_bind_error hf] at h; cases h
  | ok a =>
    rw [run_bind_ok hf] at h
    rcases hn : (next a).run mid with ⟨after, outcome, last⟩
    rw [hn] at h
    cases h
    exact ⟨before, a, mid, after, rfl, hn, rfl⟩

theorem run_ofReader (reader : Reader α) : (ofReader reader : Transcriber τ α).run s =
    match reader s with
    | .ok a s => ⟨[], .ok a, s⟩
    | .error problem s => ⟨[], .error problem, s⟩ := rfl

/-- Reads a record that has to be there. -/
def nextRecord (schema : Schema) (missing : Problem) : Transcriber τ Record := fun s =>
  match ByteStream.readRecord? schema s with
  | .ok (some record) t => ⟨[], .ok record, t⟩
  | .ok none t => ⟨[], .error missing, t⟩
  | .error problem t => ⟨[], .error problem, t⟩

theorem run_nextRecord {schema : Schema} {missing : Problem} :
    (nextRecord schema missing : Transcriber τ Record).run s =
      match ByteStream.readRecord? schema s with
      | .ok (some record) t => ⟨[], .ok record, t⟩
      | .ok none t => ⟨[], .error missing, t⟩
      | .error problem t => ⟨[], .error problem, t⟩ := rfl

theorem ofReader_readHeader (schema : Schema) :
    (ofReader (ByteStream.readHeader schema) : Transcriber τ Record) =
      nextRecord schema (.malformed (.missingHeader schema.name)) := by
  funext s
  change (ofReader (ByteStream.readHeader schema) : Transcriber τ Record).run s =
    (nextRecord schema _ : Transcriber τ Record).run s
  rw [run_ofReader, run_nextRecord]
  cases h : ByteStream.readRecord? schema s with
  | error cause t => rw [ByteStream.readHeader, ByteStream.bind_error h]
  | ok found t =>
    rw [ByteStream.readHeader, ByteStream.bind_ok h]
    cases found <;> rfl

section Element

variable {tag : String} {newline : Bool} {body : Scribe α} {inside : List Markup}

theorem run_element_ok {a : α} (h : body.run s = ⟨inside, .ok a, t⟩) :
    (Scribe.element tag newline body).run s =
      ⟨Markup.element tag newline inside, .ok a, t⟩ := by
  change (write [Markup.opening tag] >>= fun _ => body >>= fun a =>
    write [Markup.closing tag newline] >>= fun _ => pure a).run s = _
  rw [run_bind_ok (run_write _), run_bind_ok h, run_bind_ok (run_write _)]
  rfl

theorem run_element_error (h : body.run s = ⟨inside, .error problem, t⟩) :
    (Scribe.element tag newline body).run s = ⟨.opening tag :: inside, .error problem, t⟩ := by
  change (write [Markup.opening tag] >>= fun _ => body >>= fun a =>
    write [Markup.closing tag newline] >>= fun _ => pure a).run s = _
  rw [run_bind_ok (run_write _), run_bind_error h]
  rfl

end Element

/-- A round of a loop does a step and hands on what has been written, last first. If the loop only
puts that in front of its own output, the round may as well write as it goes. -/
theorem round_eq (step : Transcriber τ Unit) {loop : List (List τ) → Transcriber τ α}
    (hl : ∀ done t, (loop done).run t = ((loop []).run t).after done.reverse.flatten)
    (done : List (List τ)) (s : ByteStream) :
    (match (step.run s).outcome with
      | .error problem =>
        ⟨((step.run s).written :: done).reverse.flatten, .error problem, (step.run s).stream⟩
      | .ok () => (loop ((step.run s).written :: done)).run (step.run s).stream) =
      ((step >>= fun _ => loop []).run s).after done.reverse.flatten := by
  rcases h : step.run s with ⟨written, outcome, t⟩
  cases outcome with
  | error problem => rw [run_bind_error h]; simp [Transcript.after]
  | ok _ => rw [run_bind_ok h]; simp [hl (written :: done), Transcript.after]

section ForEach

variable {body : α → Transcriber τ Unit}

theorem forEachInto_done (elements : List α) (done : List (List τ)) (s : ByteStream) :
    (forEachInto body done elements).run s =
      ((forEachInto body [] elements).run s).after done.reverse.flatten := by
  induction elements generalizing done s with
  | nil => simp [forEachInto, run, Transcript.after]
  | cons a rest ih =>
    have hr := round_eq (body a) ih
    exact (hr done s).trans (congrArg _ (hr [] s).symm)

theorem forEach_cons (a : α) (rest : List α) :
    forEach (a :: rest) body = body a >>= fun _ => forEach rest body :=
  funext fun s => round_eq (body a) (forEachInto_done rest) [] s

end ForEach

section Counted

variable {schema : Schema} {declared : Int} {body : Record → Transcriber τ Unit}

theorem countedInto_done (left found : Nat) (done : List (List τ)) (s : ByteStream) :
    (countedInto schema declared body left found done).run s =
      ((countedInto schema declared body left found []).run s).after done.reverse.flatten := by
  induction left generalizing found done s with
  | zero => simp [countedInto, run, Transcript.after]
  | succ left ih =>
    rw [run, run, countedInto, countedInto]
    cases ByteStream.readRecord? schema s with
    | error problem t => simp [Transcript.after]
    | ok read t =>
      cases read with
      | none => simp [Transcript.after]
      | some record =>
        have hr := round_eq (body record) (ih (found + 1))
        exact (hr done t).trans (congrArg _ (hr [] t).symm)

theorem countedInto_zero {found : Nat} :
    countedInto schema declared body 0 found [] = pure found := rfl

/-- A round of a counted loop reads a record, does the body and leaves the other rounds. -/
theorem countedInto_succ (left found : Nat) :
    countedInto schema declared body (left + 1) found [] =
      nextRecord schema (.count (.shortfall schema.name declared found)) >>= fun record =>
        body record >>= fun _ => countedInto schema declared body left (found + 1) [] := by
  funext s
  have hn := @run_nextRecord τ s schema (.count (.shortfall schema.name declared found))
  simp only [countedInto]
  cases hr : ByteStream.readRecord? schema s with
  | error problem t => rw [hr] at hn; exact (run_bind_error hn).symm
  | ok read t =>
    cases read with
    | none => rw [hr] at hn; exact (run_bind_error hn).symm
    | some record =>
      rw [hr] at hn
      refine Eq.trans ?_ (run_bind_ok hn).symm
      exact round_eq (body record) (countedInto_done left (found + 1)) [] t

/-- A counted loop that comes to its end has found as many records as it was to take. -/
theorem run_countedInto_eq_ok {left found n : Nat}
    (h : (countedInto schema declared body left found []).run s = ⟨written, .ok n, t⟩) :
    n = found + left := by
  induction left generalizing found s written with
  | zero =>
    rw [countedInto_zero, run_pure] at h
    cases h
    rfl
  | succ left ih =>
    rw [countedInto_succ] at h
    obtain ⟨_, record, _, _, -, hrest, -⟩ := run_bind_eq_ok h
    obtain ⟨_, _, _, _, -, hloop, -⟩ := run_bind_eq_ok hrest
    rw [ih hloop, Nat.succ_add_eq_add_succ]

theorem run_counted_eq_ok {n : Nat}
    (h : (counted schema declared body).run s = ⟨written, .ok n, t⟩) : n = declared.toNat :=
  (run_countedInto_eq_ok h).trans (Nat.zero_add _)

end Counted

section UntilEnd

variable {schema : Schema} {body : Record → Transcriber τ Unit}

theorem untilEndInto_done (limit found : Nat) (done : List (List τ)) (s : ByteStream) :
    (untilEndInto schema body limit found done).run s =
      ((untilEndInto schema body limit found []).run s).after done.reverse.flatten := by
  induction limit generalizing found done s with
  | zero => simp [untilEndInto, run, Transcript.after]
  | succ limit ih =>
    rw [run, run, untilEndInto, untilEndInto]
    cases ByteStream.readRecord? schema s with
    | error problem t => simp [Transcript.after]
    | ok read t =>
      cases read with
      | none => simp [Transcript.after]
      | some record =>
        have hr := round_eq (body record) (ih (found + 1))
        exact (hr done t).trans (congrArg _ (hr [] t).symm)

/-- A round of a loop to the end reads a record, if there is one, and does the body. -/
theorem untilEndInto_succ (limit found : Nat) :
    untilEndInto schema body (limit + 1) found [] =
      ofReader (ByteStream.readRecord? schema) >>= fun
        | none => pure found
        | some record => body record >>= fun _ => untilEndInto schema body limit (found + 1) [] := by
  funext s
  have hn := @run_ofReader τ (Option Record) s (ByteStream.readRecord? schema)
  simp only [untilEndInto]
  cases hr : ByteStream.readRecord? schema s with
  | error problem t => rw [hr] at hn; exact (run_bind_error hn).symm
  | ok read t =>
    rw [hr] at hn
    refine Eq.trans ?_ (run_bind_ok hn).symm
    cases read with
    | none => rfl
    | some record =>
      exact round_eq (body record) (untilEndInto_done limit (found + 1)) [] t

end UntilEnd

end Transcriber

end Checkpoint
