import Checkpoint.Proofs.Publication
import Checkpoint.Proofs.Unicode

/-! # Front ends

The handler of an upload, the route that answers a request and the program give one result for one
image, as long as the system lets the program read the image and write the output. -/
namespace Checkpoint

/-! ## What is logged -/

theorem Event.logTo_echoes (log : Log) (event : Event) (echoes : Bool) :
    event.logTo { log with echoes } = { event.logTo log with echoes } := by
  cases hk : log.keeps event.level <;>
    simp_all [Event.logTo, Log.add, Log.keeps]

/-- What is logged does not depend on whether it is shown. -/
theorem Visit.logTo_echoes (visit : Visit) (log : Log) (echoes : Bool) :
    visit.logTo { log with echoes } = { visit.logTo log with echoes } := by
  unfold Visit.logTo
  generalize visit.events = events
  induction events generalizing log with
  | nil => rfl
  | cons event rest ih => rw [List.foldl_cons, List.foldl_cons, event.logTo_echoes, ih]

theorem Visit.echoes_logTo (visit : Visit) (log : Log) :
    (visit.logTo log).echoes = log.echoes :=
  congrArg (·.echoes) (visit.logTo_echoes log log.echoes)

/-- What is shown of a visit is what is logged where nothing is shown. -/
theorem Visit.echo_logTo (visit : Visit) : (visit.logTo {}).echo =
    String.join ((visit.logTo { echoes := false }).entries.map LogEntry.line) := by
  have he : (visit.logTo { echoes := false }).entries = (visit.logTo {}).entries :=
    congrArg (·.entries) (visit.logTo_echoes {} false)
  rw [he, Log.echo, if_pos (visit.echoes_logTo {})]

/-- What a handler makes of an upload is what the visit of its image comes to. -/
theorem Upload.convert_eq (upload : Upload) (strict : Bool) : upload.convert strict =
    match (Checkpoint.convert { strict } upload.image).failure with
    | none => .ok
        { upload, visit := Checkpoint.convert { strict } upload.image,
          log := (Checkpoint.convert { strict } upload.image).logTo { echoes := false } }
    | some failure => .error
        { upload, error := failure.message,
          log := some ((Checkpoint.convert { strict } upload.image).logTo { echoes := false }) } :=
  rfl

theorem Utf8.encode_injective {text other : String} (h : encode text = encode other) :
    text = other := by
  rw [← decodeLossy_encode text, h, decodeLossy_encode]

namespace CommandLine

open FileTree

/-! ## The command line -/

/-- The arguments that name an image and an output, with or without leniency. -/
def arguments (input out : String) (lenient : Bool) : List String :=
  [input, "-o", out] ++ if lenient then ["--lenient"] else []

theorem ofArguments_arguments {input out : String} {lenient : Bool}
    (hi : classify input = some (.positional input)) (ho : classify out = some (.positional out)) :
    Command.ofArguments (arguments input out lenient) =
      .run { input, output := some out, lenient } := by
  have hletter : classify "-o" = some (.option .output false none) := by decide +kernel
  have hword : classify "--lenient" = some (.option .lenient false none) := by decide +kernel
  cases lenient <;>
    simp [Command.ofArguments, arguments, classifyAll, hi, ho, hletter, hword, read,
      Progress.addPositional, Choice.takesValue, Progress.setValue, Progress.setFlag,
      Progress.command]

theorem outputPath?_of_named {options : Options} {out : String} (h : options.output = some out)
    (hname : out ≠ "" ∧ out ≠ "-") : options.outputPath? = some (.ofString out) := by
  simp [Options.outputPath?, h, hname]

/-! ## Where nothing is refused -/

/-- A run can read an image. -/
structure Readable (w : World) (path : Path) (image : Bytes) : Prop where
  noNul : path.hasNul = false
  file : w.tree.file path = .ok image

/-- An image is not where no file is. -/
theorem Readable.locate_ne {w : World} {path other : Path} {image : Bytes}
    (h : Readable w path image) (hfree : w.tree.fileAt? (w.tree.locate other) = none) :
    w.tree.locate path ≠ w.tree.locate other := by
  intro he
  rw [← he, fileAt?_eq_some_iff.mpr (file_eq_ok_iff.mp h.file).2] at hfree
  cases hfree

/-- A run can write to an output: the directories around it are there or can be made, and files can
be put there and beside it, for it is by way of a file beside it that an output is written. -/
structure Writable (w : World) (output temporary : Path) (made : FileTree) : Prop where
  beside : output.beside? ".tmp" = some temporary
  noNul : temporary.hasNul = false
  directories : World.fileSystem.ensureDirectories output.parent w =
    (.ok (), { w with tree := made })
  output : ∃ tree, made.fill output [] = .ok tree
  temporary : ∃ tree, made.fill temporary [] = .ok tree

/-- What writing the document of a visit comes to where nothing is refused. -/
def written (visit : Visit) : Except Trouble Tally :=
  match visit.failure with
  | none => .ok visit.session.records
  | some failure => .error (.image failure)

variable {options : Options} {output temporary : Path} {s : Log × World} {image : Bytes}
  {before : String}

theorem visit_ends_of_file (hi : s.2.tree.file options.inputPath = .ok image)
    (hs : Shows before s) : ∃ t,
      Ends (visit World.fileSystem options) s (.ok (convert options.settings image)) t ∧
        t.1 = (convert options.settings image).logTo s.1 ∧ t.2.tree = s.2.tree ∧
          Shows before t := by
  have hc : World.fileSystem.contents options.inputPath s.2 = (.ok image, s.2) := by
    rw [FileSystem.contents_eq, hi]
  exact ⟨_, visit_of_contents FileSystem.fileSystem_actsOnTree hc, toldAll_fst s _,
    toldAll_tree s _, hs.toldAll _⟩

theorem publish_ends (ht : output.beside? ".tmp" = some temporary)
    (ho : ∃ tree, s.2.tree.fill output [] = .ok tree)
    (htmp : ∃ tree, s.2.tree.fill temporary [] = .ok tree)
    (hi : s.2.tree.file options.inputPath = .ok image)
    (hne : s.2.tree.locate options.inputPath ≠ s.2.tree.locate temporary) (hs : Shows before s) :
    ∃ t, Ends (publish World.fileSystem options temporary output) s
        (written (convert options.settings image)) t ∧
      t.1 = (convert options.settings image).logTo s.1 ∧ Shows before t := by
  obtain ⟨tree, hc⟩ := htmp
  have hu := (Underway.refl temporary s.2.tree).fill hc
  have hcreate : Ends (demand (World.fileSystem.create temporary)) s (.ok ())
      (s.1, { s.2 with tree }) := .demand_ok (FileSystem.create_of_ok hc)
  have hi' : tree.file options.inputPath = .ok image :=
    hu.directoriesKept.file_eq hi (hu.elsewhere _ hne)
  obtain ⟨t, hv, hlog, htree, hshow⟩ :=
    visit_ends_of_file (s := (s.1, { s.2 with tree })) hi' hs
  cases hf : (convert options.settings image).failure with
  | some failure =>
    refine ⟨t, ?_, hlog, hshow⟩
    rw [written, hf]
    exact hcreate.bind_ok (hv.bind_ok (Ends.check_error hf t).bind_error)
  | none =>
    -- The file was empty while the image was visited; now it is written once more, as a whole.
    obtain ⟨filled, hw⟩ := exists_fill_of_fill hc
      (Utf8.encode (convert options.settings image).document)
    obtain ⟨renamed, hn⟩ := hu.exists_rename hw ht ho
    have hw' : t.2.tree.fill temporary (Utf8.encode (convert options.settings image).document) =
        .ok filled := htree ▸ hw
    have hfill : Ends (demand (World.fileSystem.fill temporary
        (Utf8.encode (convert options.settings image).document))) t (.ok ())
        (t.1, { t.2 with tree := filled }) := .demand_ok (FileSystem.fill_of_ok hw')
    have hrename : Ends (demand (World.fileSystem.rename temporary output))
        (t.1, { t.2 with tree := filled }) (.ok ()) (t.1, { t.2 with tree := renamed }) :=
      .demand_ok (FileSystem.rename_of_ok hn)
    refine ⟨(t.1, { t.2 with tree := renamed }), ?_, hlog, hshow⟩
    rw [written, hf]
    refine hcreate.bind_ok (hv.bind_ok ((Ends.check_ok hf t).bind_ok ?_))
    exact hfill.bind_ok (hrename.bind_ok (.pure _ _))

/-- The temporary file is removed after a failure; what is said is the same. -/
theorem toFile_ends {made : FileTree} (hw : Writable s.2 output temporary made)
    (hi : Readable s.2 options.inputPath image)
    (hfree : s.2.tree.fileAt? (s.2.tree.locate temporary) = none) (hs : Shows before s) :
    ∃ t, Ends (toFile World.fileSystem options output) s
        (written (convert options.settings image)) t ∧
      t.1 = (convert options.settings image).logTo s.1 ∧ Shows before t := by
  have hparent : output.parent.hasNul = false := by
    obtain ⟨names, name, hn, rfl⟩ := beside?_eq_some_iff.mp hw.beside
    have hnul := hw.noNul
    simp_all [Path.hasNul, Path.parent]
  have hm : FileTree.Furnished output.parent s.2.tree made := by
    obtain ⟨a, tree, ha, hf⟩ :=
      FileSystem.fileSystem_actsOnTree.ensureDirectories_furnishes output.parent s.2
    have he : tree = made := congrArg (·.2.tree) (ha.symm.trans hw.directories)
    exact he ▸ hf
  -- The image is read after the temporary file has been made, so it must not be that file.
  have hne : made.locate options.inputPath ≠ made.locate temporary := by
    rw [hm.locate_eq, hm.locate_eq]
    exact hi.locate_ne hfree
  obtain ⟨t, hp, hlog, hshow⟩ := publish_ends (s := (s.1, { s.2 with tree := made })) hw.beside
    hw.output hw.temporary (hm.file_eq hi.file) hne hs
  have hstart {r : Except Trouble Tally} {u : Log × World}
      (hu : Ends (tryCatch (publish World.fileSystem options temporary output) fun trouble => do
        act (World.fileSystem.remove temporary)
        throw trouble) (s.1, { s.2 with tree := made }) r u) :
      Ends (toFile World.fileSystem options output) s r u := by
    refine (Ends.requireNoNul hparent s).bind_ok ((Ends.demand_ok hw.directories).bind_ok ?_)
    rw [hw.beside]
    exact (Ends.requireNoNul hw.noNul _).bind_ok hu
  unfold written at hp ⊢
  split at hp
  · exact ⟨t, hstart hp.tryCatch_ok, hlog, hshow⟩
  · have hremoved := FileSystem.fileSystem_actsOnTree.remove temporary t.2
    exact ⟨_, hstart (hp.tryCatch_error ((Ends.act _ t).bind_ok (.throw _ _))), hlog,
      hshow.changes hremoved⟩

/-! ## Runs -/

/-- What a run says that has converted an image. -/
def report (input output : Path) (records : Tally) : String :=
  s!"Converted {input.toString} -> {output.toString} ({Text.grouped records.total} records)"

/-- What a run says last of a visit. -/
def lastWords (input output : Path) (visit : Visit) : LogEntry :=
  match visit.failure with
  | none => ⟨.info, report input output visit.session.records⟩
  | some failure => ⟨.error, failure.message⟩

theorem echoOf_lastWords {log : Log} (h : log.echoes = true) (input output : Path)
    (visit : Visit) :
    log.echoOf (lastWords input output visit).level (lastWords input output visit).message =
      (lastWords input output visit).line := by
  unfold lastWords
  split <;> simp [Log.echoOf, Log.keeps, h]

variable {w : World} {made : FileTree}

theorem execute_ends (hl : options.listSections = false) (ho : options.outputPath? = some output)
    (hi : Readable s.2 options.inputPath image) (hw : Writable s.2 output temporary made)
    (hfree : s.2.tree.fileAt? (s.2.tree.locate temporary) = none) (hs : Shows before s) :
    ∃ r t, Ends (execute World.fileSystem options) s r t ∧
      (concluded t r).1 =
        (if (convert options.settings image).failure.isNone then .exit 0 else .exit 1) ∧
      (concluded t r).2.1 = ((convert options.settings image).logTo s.1).add
        (lastWords options.inputPath output (convert options.settings image)).level
        (lastWords options.inputPath output (convert options.settings image)).message ∧
      Shows before (concluded t r).2 := by
  have h := FileSystem.fileSystem_actsOnTree
  obtain ⟨t, ht, hlog, hshow⟩ := toFile_ends hw hi hfree hs
  have hopen : World.fileSystem.openInput options.inputPath s.2 = (.ok (), s.2) := by
    rw [FileSystem.openInput_eq, hi.file]
  have hstart {r : Except Trouble Unit} {u : Log × World}
      (hu : Ends (convertImage World.fileSystem options) s r u) :
      Ends (execute World.fileSystem options) s r u := by
    refine (Ends.requireNoNul hi.noNul s).bind_ok ((Ends.demand_ok hopen).bind_ok ?_)
    rw [if_neg (by simp [hl])]
    exact hu
  generalize convert options.settings image = visit at *
  cases hf : visit.failure with
  | none =>
    rw [written, hf] at ht
    have hsay := say_ends h .info (lastWords options.inputPath output visit).message t
    have hu : Ends (convertImage World.fileSystem options) s (.ok ())
        (told t .info (lastWords options.inputPath output visit).message) := by
      unfold convertImage
      rw [ho]
      refine ht.bind_ok ?_
      rw [lastWords, hf] at hsay ⊢
      exact hsay
    refine ⟨_, _, hstart hu, rfl, ?_, hshow.told _ _⟩
    rw [lastWords, hf, ← hlog]
    rfl
  | some failure =>
    rw [written, hf] at ht
    have hu : Ends (convertImage World.fileSystem options) s (.error (.image failure)) t := by
      unfold convertImage
      rw [ho]
      exact ht.bind_error
    refine ⟨_, _, hstart hu, rfl, ?_, hshow.told _ _⟩
    rw [lastWords, hf, ← hlog]
    rfl

theorem started_eq (hd : options.diag = false) (hj : options.diagJson = "") (w : World) :
    started options w = ({}, w) := by
  simp [started, told, Options.log, hd, hj, Log.add, Log.echoOf, Log.keeps]

/-- A run ends as the visit of its image does, and says what is logged of that. -/
theorem run_converts {input out : String} (lenient : Bool)
    (hin : classify input = some (.positional input))
    (hout : classify out = some (.positional out)) (hname : out ≠ "" ∧ out ≠ "-")
    (hi : Readable w (.ofString input) image) (hw : Writable w (.ofString out) temporary made)
    (hfree : w.tree.fileAt? (w.tree.locate temporary) = none) :
    ∃ w', (run World.fileSystem (arguments input out lenient)).run w =
        (if (convert { strict := !lenient } image).failure.isNone then .exit 0 else .exit 1, w') ∧
      w'.stderr = w.stderr ++ ((convert { strict := !lenient } image).logTo {}).echo ++
        (lastWords (.ofString input) (.ofString out)
          (convert { strict := !lenient } image)).line := by
  have ho : Options.outputPath? { input, output := some out, lenient } = some (.ofString out) :=
    outputPath?_of_named rfl hname
  have hs : Shows w.stderr ({}, w) := by simp [Shows, Log.echo]
  obtain ⟨r, t, ht, hend, hlog, hshow⟩ := execute_ends (s := ({}, w)) rfl ho hi hw hfree hs
  have hstart : started { input, output := some out, lenient } w = ({}, w) := started_eq rfl rfl w
  rw [← hstart] at ht
  have hrun := run_eq FileSystem.fileSystem_actsOnTree
    (ofArguments_arguments hin hout) rfl rfl ht
  rw [hend] at hrun
  refine ⟨_, hrun, ?_⟩
  change (concluded t r).2.2.stderr = _ ++ (concluded t r).2.1.echo at hshow
  rw [hshow, hlog, echo_add, echoOf_lastWords (Visit.echoes_logTo _ _), String.append_assoc]
  rfl

/-! ## One result -/

/-- What a run and the handler come to together. -/
inductive Together (upload : Upload) (lenient : Bool) (input output : Path) (w w' : World) :
    Ending → Prop
  | converted {result : Converted} : upload.convert (!lenient) = .ok result →
      w'.tree.file output = .ok (Utf8.encode result.visit.document) →
      w'.stderr = w.stderr ++ String.join (result.log.entries.map LogEntry.line) ++
        LogEntry.line ⟨.info, report input output result.visit.session.records⟩ →
      Together upload lenient input output w w' (.exit 0)
  | refused {refusal : Refusal} {log : Log} : upload.convert (!lenient) = .error refusal →
      refusal.log = some log →
      w'.stderr = w.stderr ++ String.join (log.entries.map LogEntry.line) ++
        LogEntry.line ⟨.error, refusal.error⟩ →
      (∀ location, w'.tree.fileAt? location = w.tree.fileAt? location) →
      Together upload lenient input output w w' (.exit 1)

section

variable {upload : Upload} {lenient : Bool} {input out : String} {w' : World} {ending : Ending}

theorem run_together (hin : classify input = some (.positional input))
    (hout : classify out = some (.positional out)) (hname : out ≠ "" ∧ out ≠ "-")
    (hi : Readable w (.ofString input) upload.image)
    (hw : Writable w (.ofString out) temporary made)
    (hfree : w.tree.fileAt? (w.tree.locate temporary) = none)
    (hr : (run World.fileSystem (arguments input out lenient)).run w = (ending, w')) :
    Together upload lenient (.ofString input) (.ofString out) w w' ending := by
  have ho : Options.outputPath? { input, output := some out, lenient } = some (.ofString out) :=
    outputPath?_of_named rfl hname
  have hrun := run_outcome FileSystem.fileSystem_actsOnTree
    (ofArguments_arguments hin hout) rfl ho hr
  obtain ⟨w'', hr', herr⟩ := run_converts lenient hin hout hname hi hw hfree
  obtain ⟨rfl, rfl⟩ := Prod.mk.inj (hr'.symm.trans hr)
  rw [Visit.echo_logTo] at herr
  have hconvert := upload.convert_eq (!lenient)
  cases hf : (convert { strict := !lenient } upload.image).failure with
  | none =>
    rw [hf] at hrun hconvert
    rw [lastWords, hf] at herr
    obtain ⟨image, hfile, -, hp⟩ := hrun.published rfl hw.beside (hi.locate_ne hfree)
    obtain rfl := Except.ok.inj (hi.file.symm.trans hfile)
    exact .converted hconvert hp.written herr
  | some failure =>
    rw [hf] at hrun hconvert
    rw [lastWords, hf] at herr
    refine .refused hconvert rfl herr fun location => ?_
    refine hrun.fileAt?_eq (fun temporary' ht => ?_)
      (fun temporary' _ => FileSystem.not_retains_fileSystem temporary' _) (.inr (by simp))
    obtain rfl := Option.some.inj (hw.beside.symm.trans ht)
    exact hfree

/-- The handler, the route and the program have one result for one image: the same document, or the
same error and no output. What they log is the same too, and so is the number of records. -/
theorem front_ends_agree (hin : classify input = some (.positional input))
    (hout : classify out = some (.positional out)) (hname : out ≠ "" ∧ out ≠ "-")
    (hi : Readable w (.ofString input) upload.image)
    (hw : Writable w (.ofString out) temporary made)
    (hfree : w.tree.fileAt? (w.tree.locate temporary) = none)
    (hr : (run World.fileSystem (arguments input out lenient)).run w = (ending, w')) :
    (∀ document,
      ((Request.convert upload lenient).answer = ⟨200, .xml document⟩ ↔
        ∃ result, upload.convert (!lenient) = .ok result ∧ result.visit.document = document) ∧
      ((∃ result, upload.convert (!lenient) = .ok result ∧ result.visit.document = document) ↔
        ending = .exit 0 ∧ w'.tree.file (.ofString out) = .ok (Utf8.encode document))) ∧
    (∀ result, upload.convert (!lenient) = .ok result →
      w'.stderr = w.stderr ++ String.join (result.log.entries.map LogEntry.line) ++
        LogEntry.line ⟨.info, report (.ofString input) (.ofString out)
          result.visit.session.records⟩) ∧
    ∀ refusal, upload.convert (!lenient) = .error refusal →
      (Request.convert upload lenient).answer =
        ⟨422, .json (.object [("error", .text refusal.error)])⟩ ∧
      ending = .exit 1 ∧
      (∃ log, refusal.log = some log ∧
        w'.stderr = w.stderr ++ String.join (log.entries.map LogEntry.line) ++
          ("[X] ERROR: " ++ refusal.error ++ "\n")) ∧
      ∀ location, w'.tree.fileAt? location = w.tree.fileAt? location := by
  cases run_together hin hout hname hi hw hfree hr with
  | @converted result hc hfile herr =>
    have ha : (Request.convert upload lenient).answer = ⟨200, .xml result.visit.document⟩ := by
      rw [Request.answer, hc]
      rfl
    refine ⟨fun document => ⟨?_, ?_⟩, fun result' hc' => ?_, fun refusal hc' => ?_⟩
    · rw [ha, hc]
      simp
    · constructor
      · intro ⟨result', hc', hd⟩
        obtain rfl := Except.ok.inj (hc.symm.trans hc')
        exact ⟨rfl, hd ▸ hfile⟩
      · intro ⟨_, hd⟩
        exact ⟨result, hc, Utf8.encode_injective (Except.ok.inj (hfile.symm.trans hd))⟩
    · obtain rfl := Except.ok.inj (hc.symm.trans hc')
      exact herr
    · rw [hc] at hc'
      cases hc'
  | @refused refusal log hc hlog herr hsame =>
    have ha : (Request.convert upload lenient).answer =
        ⟨422, .json (.object [("error", .text refusal.error)])⟩ := by
      rw [Request.answer, hc]
      rfl
    refine ⟨fun document => ⟨?_, ?_⟩, fun result hc' => ?_, fun refusal' hc' => ?_⟩
    · rw [ha, hc]
      simp
    · rw [hc]
      simp
    · rw [hc] at hc'
      cases hc'
    · obtain rfl := Except.error.inj (hc.symm.trans hc')
      exact ⟨ha, rfl, ⟨log, hlog, herr⟩, hsame⟩

end

def smallUpload : Upload where
  filename := none
  image := smallImage

theorem front_ends_agree_smallImage : ∃ result, smallUpload.convert true = .ok result ∧
    ((run World.fileSystem (arguments "in" "out" false)).run
      (directoryOf [("in", smallImage)])).1 = .exit 0 ∧
    ((run World.fileSystem (arguments "in" "out" false)).run
      (directoryOf [("in", smallImage)])).2.tree.file (.ofString "out") =
        .ok (Utf8.encode result.visit.document) := by
  have hin : classify "in" = some (.positional "in") := by decide +kernel
  have hout : classify "out" = some (.positional "out") := by decide +kernel
  have hi : Readable (directoryOf [("in", smallImage)]) (.ofString "in") smallUpload.image :=
    ⟨by rw [hasNul_eq]; decide +kernel, by decide +kernel⟩
  have hw : Writable (directoryOf [("in", smallImage)]) (.ofString "out") ⟨"", ["out.tmp"]⟩
      (directoryOf [("in", smallImage)]).tree :=
    ⟨by decide +kernel, by rw [hasNul_eq]; decide +kernel, rfl, ⟨_, rfl⟩, ⟨_, rfl⟩⟩
  have hf : (convert { strict := true } smallUpload.image).failure = none := by decide +kernel
  obtain ⟨result, hc⟩ : ∃ result, smallUpload.convert true = .ok result := by
    have he := smallUpload.convert_eq true
    rw [hf] at he
    exact ⟨_, he⟩
  obtain ⟨ending, w', hr⟩ : ∃ ending w', (run World.fileSystem (arguments "in" "out" false)).run
      (directoryOf [("in", smallImage)]) = (ending, w') := ⟨_, _, rfl⟩
  have h := front_ends_agree hin hout (by decide) hi hw (by decide +kernel) hr
  obtain ⟨hend, hfile⟩ := (h.1 result.visit.document).2.mp ⟨result, hc, rfl⟩
  rw [hr]
  exact ⟨result, hc, hend, hfile⟩

end CommandLine

end Checkpoint
