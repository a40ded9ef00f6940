import Checkpoint.CommandLine.Program
import Checkpoint.Proofs.Systems

/-! # Runs

How the parts of a run end. A part starts from a log and a world and leaves others, with a result or
with a trouble. -/
namespace Checkpoint.CommandLine

variable {α β : Type} {s t between : Log × World} {r : Except Trouble α} {trouble : Trouble}

/-- A part of a run, started from a log and a world, ends so. -/
def Ends (x : Run (StateM World) α) (s : Log × World) (r : Except Trouble α) (t : Log × World) :
    Prop :=
  x.run s.1 s.2 = ((r, t.1), t.2)

theorem stateT_bind {x : StateT Log (StateM World) α} {f : α → StateT Log (StateM World) β} {a : α}
    {log log' : Log} {w w' : World} (h : x log w = ((a, log'), w')) :
    (x >>= f) log w = f a log' w' := by
  change f (x log w).1.1 (x log w).1.2 (x log w).2 = _
  rw [h]

/-- Whether there is a NUL character in a path, decided letter by letter. -/
theorem hasNul_eq (path : Path) :
    path.hasNul = path.names.any fun name => name.toList.contains '\x00' := by
  simp [Path.hasNul, String.contains_char_eq]

namespace Ends

theorem unique {x : Run (StateM World) α} {r' : Except Trouble α} {t' : Log × World}
    (h : Ends x s r t) (h' : Ends x s r' t') : r = r' ∧ t = t' := by
  obtain ⟨hl, hw⟩ := Prod.mk.inj (h.symm.trans h')
  obtain ⟨hr, hl⟩ := Prod.mk.inj hl
  exact ⟨hr, Prod.ext hl hw⟩

/-- Every part ends somehow. -/
theorem total (x : Run (StateM World) α) (s : Log × World) : ∃ r t, Ends x s r t :=
  ⟨(x.run s.1 s.2).1.1, ((x.run s.1 s.2).1.2, (x.run s.1 s.2).2), rfl⟩

theorem pure (a : α) (s : Log × World) : Ends (Pure.pure a) s (.ok a) s := rfl

theorem throw (trouble : Trouble) (s : Log × World) :
    Ends (throw trouble : Run (StateM World) α) s (.error trouble) s := rfl

theorem act (x : StateM World α) (s : Log × World) :
    Ends (act x) s (.ok ()) (s.1, (x s.2).2) := rfl

/-! ## One part after another -/

section

variable {x : Run (StateM World) α} {f : α → Run (StateM World) β} {a : α} {last : Except Trouble β}

theorem bind_ok (hx : Ends x s (.ok a) between) (hf : Ends (f a) between last t) :
    Ends (x >>= f) s last t := by
  rw [Ends, ExceptT.run_bind]
  exact (stateT_bind hx).trans hf

theorem bind_error (hx : Ends x s (.error trouble) t) : Ends (x >>= f) s (.error trouble) t := by
  rw [Ends, ExceptT.run_bind]
  exact stateT_bind hx

/-- What follows a part that comes to its end. -/
theorem after (h : Ends (x >>= f) s last t) (hx : Ends x s (.ok a) between) :
    Ends (f a) between last t := by
  obtain ⟨last', t', hf⟩ := total (f a) between
  obtain ⟨rfl, rfl⟩ := h.unique (hx.bind_ok hf)
  exact hf

/-- Either a trouble in the first part ends both, or that comes to its end and the second follows. -/
theorem of_bind (h : Ends (x >>= f) s last t) :
    (∃ trouble, last = .error trouble ∧ Ends x s (.error trouble) t) ∨
      ∃ a between, Ends x s (.ok a) between ∧ Ends (f a) between last t := by
  obtain ⟨first, between, hx⟩ := total x s
  cases first with
  | ok a => exact .inr ⟨a, between, hx, h.after hx⟩
  | error trouble =>
    obtain ⟨rfl, rfl⟩ := h.unique hx.bind_error
    exact .inl ⟨trouble, rfl, hx⟩

end

section

variable {x : Run (StateM World) α} {handler : Trouble → Run (StateM World) α} {a : α}

theorem tryCatch_ok (hx : Ends x s (.ok a) t) : Ends (tryCatch x handler) s (.ok a) t := by
  rw [Ends, ExceptT.run_tryCatch]
  exact stateT_bind hx

theorem tryCatch_error (hx : Ends x s (.error trouble) between)
    (hh : Ends (handler trouble) between r t) : Ends (tryCatch x handler) s r t := by
  rw [Ends, ExceptT.run_tryCatch]
  exact (stateT_bind hx).trans hh

/-- Either nothing goes wrong, or the handler ends what a trouble has broken off. -/
theorem of_tryCatch (h : Ends (tryCatch x handler) s r t) :
    (∃ a, r = .ok a ∧ Ends x s (.ok a) t) ∨
      ∃ trouble between, Ends x s (.error trouble) between ∧ Ends (handler trouble) between r t := by
  obtain ⟨first, between, hx⟩ := total x s
  cases first with
  | ok a =>
    obtain ⟨rfl, rfl⟩ := h.unique hx.tryCatch_ok
    exact .inl ⟨a, rfl, hx⟩
  | error trouble =>
    obtain ⟨r', t', hh⟩ := total (handler trouble) between
    obtain ⟨rfl, rfl⟩ := h.unique (hx.tryCatch_error hh)
    exact .inr ⟨trouble, between, hx, hh⟩

end

/-! ## Asking the system -/

section

variable {path : Path} {w : World} {e : SystemError} {f : Unit → Run (StateM World) α}

theorem requireNoNul (h : path.hasNul = false) (s : Log × World) :
    Ends (requireNoNul path) s (.ok ()) s := by
  unfold CommandLine.requireNoNul
  rw [if_neg (by simp [h])]
  exact pure () s

theorem requireNoNul_error (h : path.hasNul = true) (s : Log × World) :
    Ends (CommandLine.requireNoNul path) s (.error (.breakdown (.nulInPath path))) s := by
  unfold CommandLine.requireNoNul
  rw [if_pos h]
  exact throw _ s

/-- A path with a NUL character ends the run; nothing is done to find that out. -/
theorem of_bind_requireNoNul (h : Ends (CommandLine.requireNoNul path >>= f) s r t) :
    (∃ trouble, r = .error trouble) ∧ t = s ∨ Ends (f ()) s r t := by
  cases hp : path.hasNul with
  | false => exact .inr (h.after (requireNoNul hp s))
  | true =>
    obtain ⟨rfl, rfl⟩ := h.unique (requireNoNul_error hp s).bind_error
    exact .inl ⟨⟨_, rfl⟩, rfl⟩

variable {γ : Type} {question : StateM World (Except SystemError γ)} {answer : γ}

theorem demand_ok (hx : question s.2 = (.ok answer, w)) :
    Ends (demand question) s (.ok answer) (s.1, w) := by
  have hl : Ends (question : StateT Log (StateM World) (Except SystemError γ)) s
      (.ok (question s.2).1) (s.1, (question s.2).2) := rfl
  rw [hx] at hl
  exact hl.bind_ok (pure answer _)

theorem demand_error (hx : question s.2 = (.error e, w)) :
    Ends (demand question) s (.error (.system e)) (s.1, w) := by
  have hl : Ends (question : StateT Log (StateM World) (Except SystemError γ)) s
      (.ok (question s.2).1) (s.1, (question s.2).2) := rfl
  rw [hx] at hl
  exact hl.bind_ok (throw _ _)

/-- A refusal ends the run; otherwise it goes on with the answer. -/
theorem of_bind_demand {f : γ → Run (StateM World) α} (h : Ends (demand question >>= f) s r t) :
    (∃ e, question s.2 = (.error e, t.2) ∧ r = .error (.system e)) ∨
      ∃ answer w, question s.2 = (.ok answer, w) ∧ Ends (f answer) (s.1, w) r t := by
  generalize hx : question s.2 = result
  obtain ⟨answer | answer, w⟩ := result
  · obtain ⟨rfl, rfl⟩ := h.unique (demand_error hx).bind_error
    exact .inl ⟨answer, rfl, rfl⟩
  · exact .inr ⟨answer, w, rfl, h.after (demand_ok hx)⟩

variable {x : StateM World (Except SystemError Unit)}

/-- A change of the tree is made, or the run ends and the tree stays. -/
theorem of_bind_changes {change : FileTree → Except SystemFault FileTree}
    (hx : FileSystem.Changes change s.2 (x s.2)) (h : Ends (demand x >>= f) s r t) :
    (∃ trouble, r = .error trouble) ∧ t.2.tree = s.2.tree ∨
      ∃ between, change s.2.tree = .ok between.2.tree ∧ Ends (f ()) between r t := by
  generalize ha : x s.2 = answer at hx
  cases hx with
  | done ht => exact .inr ⟨_, ht, h.after (demand_ok ha)⟩
  | refused e =>
    obtain ⟨rfl, rfl⟩ := h.unique (demand_error ha).bind_error
    exact .inl ⟨⟨_, rfl⟩, rfl⟩

/-- A file is written, or the run ends and something less may be in the file. -/
theorem of_bind_writes {content : Bytes} (hx : FileSystem.Writes path content s.2 (x s.2))
    (h : Ends (demand x >>= f) s r t) :
    ((∃ trouble, r = .error trouble) ∧
      (t.2.tree = s.2.tree ∨ ∃ part, s.2.tree.fill path part = .ok t.2.tree)) ∨
      ∃ between, s.2.tree.fill path content = .ok between.2.tree ∧ Ends (f ()) between r t := by
  generalize ha : x s.2 = answer at hx
  cases hx with
  | changes hc =>
    rcases h.of_bind_changes (ha.symm ▸ hc) with ⟨hr, ht⟩ | hf
    · exact .inl ⟨hr, .inl ht⟩
    · exact .inr hf
  | broken e ht =>
    obtain ⟨rfl, rfl⟩ := h.unique (demand_error ha).bind_error
    exact .inl ⟨⟨_, rfl⟩, .inr ⟨_, ht⟩⟩

end

end Ends

/-! ## Messages -/

/-- What has been shown follows what was there before. -/
def Shows (before : String) (s : Log × World) : Prop := s.2.stderr = before ++ s.1.echo

/-- A log and a world after a message. -/
def told (s : Log × World) (level : LogLevel) (message : String) : Log × World :=
  (s.1.add level message, { s.2 with stderr := s.2.stderr ++ s.1.echoOf level message })

/-- A log and a world after what happens in the course of a visit. -/
def toldAll (s : Log × World) (events : List Event) : Log × World :=
  events.foldl (fun s event => told s event.level event.message) s

theorem echo_add (log : Log) (level : LogLevel) (message : String) :
    (log.add level message).echo = log.echo ++ log.echoOf level message := by
  cases hk : log.keeps level <;> cases he : log.echoes <;>
    simp [Log.add, Log.echo, Log.echoOf, hk, he, String.join_append]

theorem Shows.told {before : String} (h : Shows before s) (level : LogLevel) (message : String) :
    Shows before (told s level message) := by
  have hs : s.2.stderr = before ++ s.1.echo := h
  change s.2.stderr ++ s.1.echoOf level message = before ++ (s.1.add level message).echo
  rw [hs, echo_add, String.append_assoc]

theorem Shows.toldAll {before : String} (h : Shows before s) (events : List Event) :
    Shows before (toldAll s events) := by
  induction events generalizing s with
  | nil => exact h
  | cons event rest ih => exact ih (h.told event.level event.message)

/-- A change of the tree shows nothing. -/
theorem Shows.changes {before : String} {change : FileTree → Except SystemFault FileTree}
    {result : Except SystemError Unit × World} (h : Shows before s)
    (hc : FileSystem.Changes change s.2 result) : Shows before (s.1, result.2) := by
  cases hc <;> exact h

theorem toldAll_fst (s : Log × World) (events : List Event) :
    (toldAll s events).1 = events.foldl Event.logTo s.1 := by
  induction events generalizing s with
  | nil => rfl
  | cons event rest ih => exact ih _

theorem toldAll_tree (s : Log × World) (events : List Event) :
    (toldAll s events).2.tree = s.2.tree := by
  induction events generalizing s with
  | nil => rfl
  | cons event rest ih => exact ih _

section

variable {fs : FileSystem (StateM World)}

theorem say_eq (h : fs.ActsOnTree) (level : LogLevel) (message : String) (s : Log × World) :
    say fs level message s.1 s.2 = (((), (told s level message).1), (told s level message).2) := by
  have hp := h.printError (s.1.echoOf level message) s.2
  have hl : (fs.printError (s.1.echoOf level message) : StateT Log (StateM World) Unit) s.1 s.2 =
      (((fs.printError (s.1.echoOf level message) s.2).1, s.1),
        (fs.printError (s.1.echoOf level message) s.2).2) := rfl
  rw [hp] at hl
  have hg : (get : StateT Log (StateM World) Log) s.1 s.2 = ((s.1, s.1), s.2) := rfl
  exact (stateT_bind hg).trans (stateT_bind hl)

theorem say_ends (h : fs.ActsOnTree) (level : LogLevel) (message : String) (s : Log × World) :
    Ends (ExceptT.lift (say fs level message)) s (.ok ()) (told s level message) := by
  have hs : ((say fs level message >>= fun u => Pure.pure (.ok u)) :
      StateT Log (StateM World) (Except Trouble Unit)) s.1 s.2 = _ :=
    stateT_bind (say_eq h level message s)
  exact hs

theorem tell_ends (h : fs.ActsOnTree) (events : List Event) (s : Log × World) :
    Ends (forIn events PUnit.unit fun event _ => do
        ExceptT.lift (say fs event.level event.message)
        Pure.pure (ForInStep.yield PUnit.unit)) s (.ok PUnit.unit) (toldAll s events) := by
  induction events generalizing s with
  | nil => exact .pure _ s
  | cons event rest ih =>
    rw [List.forIn_cons]
    have hs : Ends (do
        ExceptT.lift (say fs event.level event.message)
        Pure.pure (ForInStep.yield PUnit.unit)) s (.ok (.yield PUnit.unit))
          (told s event.level event.message) :=
      (say_ends h event.level event.message s).bind_ok (.pure _ _)
    exact hs.bind_ok (ih _)

/-- A file that has been opened is read, or the run ends. -/
theorem Ends.of_bind_contents (h : fs.ActsOnTree) {path : Path} {f : Bytes → Run (StateM World) α}
    (he : Ends (demand (fs.contents path) >>= f) s r t) :
    (∃ e, r = .error (.system e)) ∧ t = s ∨
      ∃ content, (∀ image, s.2.tree.file path = .ok image → content = image) ∧
        Ends (f content) s r t := by
  obtain ⟨answer, hc, hsame⟩ := h.contents path s.2
  cases answer with
  | error e =>
    obtain ⟨rfl, rfl⟩ := he.unique (demand_error hc).bind_error
    exact .inl ⟨⟨e, rfl⟩, rfl⟩
  | ok content =>
    exact .inr ⟨content, fun image => hsame content image rfl, he.after (demand_ok hc)⟩

/-- A text is printed, or a part of it and the run ends. -/
theorem print_ends (h : fs.ActsOnTree) (text : String) (s : Log × World) :
    Ends (demand (fs.print text)) s (.ok ()) (s.1, { s.2 with stdout := s.2.stdout ++ text }) ∨
      ∃ e part rest, part ++ rest = text ∧ rest ≠ "" ∧
        Ends (demand (fs.print text)) s (.error (.system e))
          (s.1, { s.2 with stdout := s.2.stdout ++ part }) := by
  generalize hx : fs.print text s.2 = result
  cases hx ▸ h.print text s.2 with
  | done => exact .inl (.demand_ok hx)
  | broken e hp hn => exact .inr ⟨e, _, _, hp, hn, .demand_error hx⟩

/-- A visit converts what has been read, says what happens and changes nothing else. -/
theorem visit_of_contents (h : fs.ActsOnTree) {options : Options} {s : Log × World}
    {content : Bytes} (hc : fs.contents options.inputPath s.2 = (.ok content, s.2)) :
    Ends (visit fs options) s (.ok (convert options.settings content))
      (toldAll s (convert options.settings content).events) :=
  (Ends.demand_ok hc).bind_ok ((tell_ends h _ s).bind_ok (.pure _ _))

/-- A visit breaks off when the file cannot be read; what it reads otherwise is what is there. -/
theorem visit_ends (h : fs.ActsOnTree) (options : Options) (s : Log × World) :
    (∃ e, Ends (visit fs options) s (.error (.system e)) s) ∨
      ∃ content, (∀ image, s.2.tree.file options.inputPath = .ok image → content = image) ∧
        Ends (visit fs options) s (.ok (convert options.settings content))
          (toldAll s (convert options.settings content).events) := by
  obtain ⟨answer, hc, hsame⟩ := h.contents options.inputPath s.2
  cases answer with
  | error e => exact .inl ⟨e, (Ends.demand_error hc).bind_error⟩
  | ok content => exact .inr ⟨content, fun image => hsame content image rfl, visit_of_contents h hc⟩

namespace Ends

variable {visit : Visit}

theorem check_ok (hf : visit.failure = none) (s : Log × World) :
    Ends (check visit) s (.ok ()) s := by
  rw [CommandLine.check, hf]
  exact pure () s

theorem check_error {failure : Failure} (hf : visit.failure = some failure) (s : Log × World) :
    Ends (check visit) s (.error (.image failure)) s := by
  rw [CommandLine.check, hf]
  exact throw _ s

/-- Only a visit without a failure passes. -/
theorem of_bind_check {f : Unit → Run (StateM World) α} (h : Ends (check visit >>= f) s r t) :
    (∃ trouble, r = .error trouble) ∧ t = s ∨ visit.failure = none ∧ Ends (f ()) s r t := by
  cases hf : visit.failure with
  | none => exact .inr ⟨rfl, h.after (check_ok hf s)⟩
  | some failure =>
    obtain ⟨rfl, rfl⟩ := h.unique (check_error hf s).bind_error
    exact .inl ⟨⟨_, rfl⟩, rfl⟩

end Ends

/-! ## Whole runs -/

/-- How a run ends after its part that does the work, and what it says last. -/
def concluded (t : Log × World) : Except Trouble Unit → Ending × (Log × World)
  | .ok () => (.exit 0, t)
  | .error (.image failure) => (.exit 1, told t .error failure.message)
  | .error (.system e) => (.exit 1, told t .error s!"I/O failure: {e.message}")
  | .error (.breakdown cause) => (.broken cause, t)

theorem concluded_tree (t : Log × World) (r : Except Trouble Unit) :
    (concluded t r).2.2.tree = t.2.tree := by
  cases r with
  | ok u => rfl
  | error trouble => cases trouble <;> rfl

/-- Only a run that nothing goes wrong in exits with zero. -/
theorem concluded_fst_eq_iff (t : Log × World) (r : Except Trouble Unit) :
    (concluded t r).1 = .exit 0 ↔ r = .ok () := by
  cases r with
  | ok u => simp [concluded]
  | error trouble => cases trouble <;> simp [concluded]

variable {options : Options} {arguments : List String} {w : World} {r : Except Trouble Unit}

/-- Where a run stands once it has described itself. -/
def started (options : Options) (w : World) : Log × World :=
  told (options.log, w) .diag options.describe

theorem finish_eq (hj : options.diagJson = "") (code : Nat) (s : Log × World) :
    finish fs options code s.1 s.2 = ((.exit code, s.1), s.2) := by
  have hp : options.diagJsonPath? = none := by simp [Options.diagJsonPath?, hj]
  rw [finish, hp]
  rfl

/-- A run does its work and says what came of it, and the messages are written to a file then. -/
theorem runOptions_eq (h : fs.ActsOnTree) (ho : options.output.isSome)
    (he : Ends (execute fs options) (started options w) r t) :
    runOptions fs options options.log w = match (concluded t r).1 with
      | .exit code => finish fs options code (concluded t r).2.1 (concluded t r).2.2
      | .broken cause => ((.broken cause, (concluded t r).2.1), (concluded t r).2.2) := by
  have hn : options.output.isNone = false := by simpa using ho
  rw [runOptions, hn]
  refine (stateT_bind (say_eq h .diag options.describe (options.log, w))).trans ?_
  refine (stateT_bind he).trans ?_
  cases r with
  | ok u => rfl
  | error trouble =>
    cases trouble with
    | image failure => exact stateT_bind (say_eq h .error _ t)
    | system e => exact stateT_bind (say_eq h .error _ t)
    | breakdown cause => rfl

/-- A run leaves out only the log. -/
theorem run_of_runOptions (hc : Command.ofArguments arguments = .run options) {ending : Ending}
    {log : Log} {w' : World} (h : runOptions fs options options.log w = ((ending, log), w')) :
    (run fs arguments).run w = (ending, w') := by
  rw [run, hc]
  change (((runOptions fs options options.log w).1.1, (runOptions fs options options.log w).2) :
    Ending × World) = _
  rw [h]

/-- A run that writes no file of messages is its work and what it says of it. -/
theorem run_eq (h : fs.ActsOnTree) (hc : Command.ofArguments arguments = .run options)
    (ho : options.output.isSome) (hj : options.diagJson = "")
    (he : Ends (execute fs options) (started options w) r t) :
    (run fs arguments).run w = ((concluded t r).1, (concluded t r).2.2) := by
  have hq : runOptions fs options options.log w =
      (((concluded t r).1, (concluded t r).2.1), (concluded t r).2.2) := by
    rw [runOptions_eq h ho he]
    generalize concluded t r = result
    obtain ⟨ending, last⟩ := result
    cases ending with
    | exit code => exact finish_eq hj code last
    | broken cause => rfl
  exact run_of_runOptions hc hq

end

end Checkpoint.CommandLine
