import Checkpoint.Proofs.Likeness
import Checkpoint.Proofs.Publication

/-! # Exit codes

Unless its options make it break off, a run ends with an exit code: with zero and no error if it has
printed the section table or put the whole document in place, and with one and a single error
otherwise. Writing the messages to a file comes after that and changes neither. All paths are texts
here, so there is no message that cannot be encoded. -/
namespace Checkpoint.CommandLine

open FileTree

/-- The paths that a run is given. -/
def Options.paths (options : Options) : List Path :=
  options.inputPath :: (options.outputPath?.toList ++ options.diagJsonPath?.toList)

/-- What a run may break off for. -/
inductive Options.Breaks (options : Options) : Breakdown → Prop
  | noOutput : options.output = none → Breaks options .noOutput
  | nameless {output : Path} : options.listSections = false → options.outputPath? = some output →
      output.names = [] → Breaks options (.nameless output)
  | nulInPath {given path : Path} : given ∈ options.paths → given.hasNul = true →
      Breaks options (.nulInPath path)

variable {α β : Type} {fs : FileSystem (StateM World)} {options : Options} {output path : Path}
  {s t u : Log × World} {text more : String}

/-! ## What is printed -/

theorem echoes_told (s : Log × World) (level : LogLevel) (message : String) :
    (told s level message).1.echoes = s.1.echoes := by
  cases hk : s.1.keeps level <;> simp [told, Log.add, hk]

/-- A text has been printed, and messages have been logged and shown, none of them an error. -/
structure Prints (text : String) (s t : Log × World) : Prop where
  stdout : t.2.stdout = s.2.stdout ++ text
  errors : t.1.messages .error = s.1.messages .error
  echoes : t.1.echoes = s.1.echoes
  shows : ∀ {before : String}, Shows before s → Shows before t

namespace Prints

theorem refl (s : Log × World) : Prints "" s s :=
  ⟨String.append_empty.symm, rfl, rfl, id⟩

theorem trans (h : Prints text s t) (h' : Prints more t u) : Prints (text ++ more) s u where
  stdout := by rw [h'.stdout, h.stdout, String.append_assoc]
  errors := h'.errors.trans h.errors
  echoes := h'.echoes.trans h.echoes
  shows hs := h'.shows (h.shows hs)

/-- Printing nothing first does not change what is printed. -/
theorem after (h : Prints "" s t) (h' : Prints text t u) : Prints text s u := by
  simpa using h.trans h'

theorem of_tree (s : Log × World) (tree : FileTree) : Prints "" s (s.1, { s.2 with tree }) :=
  ⟨String.append_empty.symm, rfl, rfl, id⟩

theorem told {level : LogLevel} (h : level ≠ .error) (s : Log × World) (message : String) :
    Prints "" s (told s level message) where
  stdout := String.append_empty.symm
  errors := by simp [CommandLine.told, Log.messages_add, h]
  echoes := echoes_told s level message
  shows hs := hs.told level message

theorem toldAll (s : Log × World) (events : List Event) : Prints "" s (toldAll s events) := by
  induction events generalizing s with
  | nil => exact .refl s
  | cons event rest ih =>
    have hl : event.level ≠ .error := by cases event <;> simp [Event.level]
    exact (told hl s event.message).after (ih _)

end Prints

/-! ## Orderly parts -/

/-- A part of a run prints nothing, and it breaks off only for what is in the options. -/
def Orderly (options : Options) (x : Run (StateM World) α) : Prop :=
  ∀ s r t, Ends x s r t →
    Prints "" s t ∧ ∀ cause, r = .error (.breakdown cause) → options.Breaks cause

/-- An operation of the system that changes nothing but the tree. -/
def ChangesTree (x : StateM World α) : Prop := ∀ w, ∃ a tree, x w = (a, { w with tree })

namespace Orderly

theorem of_ends {x : Run (StateM World) α}
    (h : ∀ s, ∃ r t, Ends x s r t ∧ Prints "" s t ∧
      ∀ cause, r = .error (.breakdown cause) → options.Breaks cause) : Orderly options x := by
  intro s r t he
  obtain ⟨r', t', he', hp⟩ := h s
  obtain ⟨rfl, rfl⟩ := he.unique he'
  exact hp

theorem pure (a : α) : Orderly options (Pure.pure a) :=
  of_ends fun s => ⟨_, s, .pure a s, .refl s, nofun⟩

theorem throw {trouble : Trouble} (h : ∀ cause, trouble = .breakdown cause → options.Breaks cause) :
    Orderly options (throw trouble : Run (StateM World) α) :=
  of_ends fun s => ⟨_, s, .throw trouble s, .refl s, fun cause hc => h cause (Except.error.inj hc)⟩

theorem bind {x : Run (StateM World) α} {f : α → Run (StateM World) β} (hx : Orderly options x)
    (hf : ∀ a, Orderly options (f a)) : Orderly options (x >>= f) := by
  intro s r t he
  rcases he.of_bind with ⟨trouble, rfl, hs⟩ | ⟨a, between, hs, hn⟩
  · obtain ⟨hp, hb⟩ := hx _ _ _ hs
    exact ⟨hp, fun cause hc => hb cause (congrArg Except.error (Except.error.inj hc))⟩
  · obtain ⟨hp, hb⟩ := hf a _ _ _ hn
    exact ⟨(hx _ _ _ hs).1.after hp, hb⟩

theorem act {x : StateM World α} (h : ChangesTree x) : Orderly options (act x) := by
  refine of_ends fun s => ?_
  obtain ⟨a, tree, hx⟩ := h s.2
  have he := Ends.act x s
  rw [hx] at he
  exact ⟨_, _, he, .of_tree s tree, nofun⟩

theorem demand {x : StateM World (Except SystemError Unit)} (h : ChangesTree x) :
    Orderly options (demand x) := by
  refine of_ends fun s => ?_
  obtain ⟨a, tree, hx⟩ := h s.2
  cases a with
  | ok u => exact ⟨_, _, .demand_ok hx, .of_tree s tree, nofun⟩
  | error e => exact ⟨_, _, .demand_error hx, .of_tree s tree, nofun⟩

theorem requireNoNul {given : Path} (hg : given ∈ options.paths)
    (h : path.hasNul = true → given.hasNul = true) : Orderly options (requireNoNul path) := by
  refine of_ends fun s => ?_
  cases hp : path.hasNul with
  | false => exact ⟨_, s, .requireNoNul hp s, .refl s, nofun⟩
  | true =>
    refine ⟨_, s, .requireNoNul_error hp s, .refl s, fun cause hc => ?_⟩
    obtain rfl := Trouble.breakdown.inj (Except.error.inj hc)
    exact .nulInPath hg (h hp)

theorem tryCatch {x : Run (StateM World) α} {handler : Trouble → Run (StateM World) α}
    (hx : Orderly options x)
    (hh : ∀ trouble, (∀ cause, trouble = .breakdown cause → options.Breaks cause) →
      Orderly options (handler trouble)) : Orderly options (tryCatch x handler) := by
  intro s r t he
  rcases he.of_tryCatch with ⟨a, rfl, hs⟩ | ⟨trouble, between, hs, hn⟩
  · exact ⟨(hx _ _ _ hs).1, nofun⟩
  · obtain ⟨hp, hb⟩ := hx _ _ _ hs
    obtain ⟨hp', hb'⟩ :=
      hh trouble (fun cause hc => hb cause (congrArg Except.error hc)) _ _ _ hn
    exact ⟨hp.after hp', hb'⟩

theorem visit (h : fs.ActsOnTree) (options : Options) : Orderly options (visit fs options) := by
  refine of_ends fun s => ?_
  rcases visit_ends h options s with ⟨e, he⟩ | ⟨content, -, he⟩
  · exact ⟨_, _, he, .refl s, nofun⟩
  · exact ⟨_, _, he, .toldAll s _, nofun⟩

theorem check (visit : Visit) : Orderly options (check visit) := by
  unfold CommandLine.check
  split
  · exact throw nofun
  · exact pure ()

end Orderly

/-! ## The document in a file -/

/-- What a run is for has been done. -/
inductive Done (options : Options) (before after : World) : Prop
  | listed {image : Bytes} {summary : Summary} : options.listSections = true →
      before.tree.file options.inputPath = .ok image → Summary.read image = .ok summary →
      after.stdout = before.stdout ++ listing summary → after.tree = before.tree →
      Done options before after
  | printed {image : Bytes} : options.listSections = false → options.outputPath? = none →
      before.tree.file options.inputPath = .ok image →
      (convert options.settings image).failure = none →
      after.stdout = before.stdout ++ (convert options.settings image).document →
      after.tree = before.tree → Done options before after
  | published {image : Bytes} {output temporary : Path} : options.listSections = false →
      options.outputPath? = some output → output.beside? ".tmp" = some temporary →
      before.tree.file options.inputPath = .ok image →
      (convert options.settings image).failure = none →
      Published temporary output (Utf8.encode (convert options.settings image).document)
        before.tree after.tree →
      after.stdout = before.stdout → Done options before after

variable {r : Except Trouble Unit} {image : Bytes}

/-- A file has been written where a path leads, in a directory that may have been made for it, and
nothing else has been done. -/
structure WrittenTo (path : Path) (content : Bytes) (before after : FileTree) : Prop where
  directoriesKept : DirectoriesKept before after
  elsewhere : ∀ location, location ≠ before.locate path → Kept before after location
  file : after.file path = .ok content

/-- What writing the messages to a file comes to, if that is asked for: the file and a message that
it is there, or a warning. -/
inductive Recorded (options : Options) (s : Log × World) : Log × World → Prop
  | unasked : options.diagJsonPath? = none → Recorded options s s
  | written {path : Path} {tree : FileTree} : options.diagJsonPath? = some path →
      WrittenTo path (Utf8.encode s.1.toJson.indented) s.2.tree tree →
      Recorded options s (told (s.1, { s.2 with tree }) .info
        s!"Diagnostic JSON written to: {path.toString}")
  | refused {path : Path} {tree : FileTree} (e : SystemError) :
      options.diagJsonPath? = some path → Furnished path.parent s.2.tree tree →
      Recorded options s (told (s.1, { s.2 with tree }) .warn
        s!"Failed to write diagnostics JSON: {e.message}")
  | cutOff {path : Path} {tree : FileTree} {part : Bytes} (e : SystemError) :
      options.diagJsonPath? = some path → WrittenTo path part s.2.tree tree →
      Recorded options s (told (s.1, { s.2 with tree }) .warn
        s!"Failed to write diagnostics JSON: {e.message}")

variable {w w' : World} {arguments : List String} {ending : Ending}

end Checkpoint.CommandLine
