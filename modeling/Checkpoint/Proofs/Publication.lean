import Checkpoint.Proofs.Runs
import Checkpoint.Proofs.Strict

/-! # Publication

What a run that writes its document to a file does to the tree, on a system that may refuse it
anything at any point. Until the temporary file is renamed, all that happens happens at the location
of that file, or is the making of directories on the way to it. -/
namespace Checkpoint

namespace FileTree

variable {before between after : FileTree} {path output temporary : Path} {location : Location}
  {fs : FileSystem (StateM World)}

/-! ## Working at a path -/

/-- Nothing has been done to a tree but that a path may have been written to. -/
structure Underway (path : Path) (before after : FileTree) : Prop where
  directoriesKept : DirectoriesKept before after
  elsewhere : ∀ location, location ≠ before.locate path →
    after.get? location = before.get? location
  /-- What has been written is where the path leads. -/
  here : after.get? (before.locate path) = before.get? (before.locate path) ∨
    after.place path = .ok (.named (before.locate path))

namespace Underway

theorem refl (path : Path) (tree : FileTree) : Underway path tree tree :=
  ⟨.refl tree, fun _ _ => rfl, .inl rfl⟩

theorem locate_eq (h : Underway path before after) (other : Path) :
    after.locate other = before.locate other :=
  locate_congr h.directoriesKept.1 other

theorem fill (h : Underway path before between) {content : Bytes}
    (hf : between.fill path content = .ok after) : Underway path before after := by
  obtain ⟨hp, hd, rfl⟩ := fill_eq_ok_iff.mp hf
  have hi := directoriesKept_insert content hd
  rw [h.locate_eq] at hp hd hi ⊢
  refine ⟨h.directoriesKept.trans hi, fun location hl => ?_, .inr (hi.place_eq hp)⟩
  rw [get?_insert_of_ne hl, h.elsewhere location hl]

/-- A file beside an output that can be written can take its place. -/
theorem exists_rename (h : Underway temporary before between) {content : Bytes}
    (hf : between.fill temporary content = .ok after)
    (ht : output.beside? ".tmp" = some temporary)
    (ho : ∃ tree, before.fill output [] = .ok tree) :
    ∃ renamed, after.rename temporary output = .ok renamed := by
  have hu := h.fill hf
  obtain ⟨tree, ho⟩ := ho
  obtain ⟨hp', hd, -⟩ := fill_eq_ok_iff.mp ho
  obtain ⟨hp, hd', rfl⟩ := fill_eq_ok_iff.mp hf
  have hl := directoriesKept_insert content hd'
  refine ⟨_, rename_eq_ok_iff.mpr ⟨hl.place_eq hp, ?_, ?_, content, ?_, rfl⟩⟩
  · rw [hu.locate_eq]
    exact hu.directoriesKept.place_eq hp'
  · rw [hu.locate_eq, hu.elsewhere _ (before.locate_beside_ne ht).symm]
    exact hd
  · exact get?_insert_self (locate_of_named hp).2

/-- Removing the file leaves the rest as it is. -/
theorem remove (h : Underway path before between) (hr : between.remove path = .ok after) :
    Underway path before after := by
  obtain ⟨hp, ⟨content, hg⟩, rfl⟩ := remove_eq_ok_iff.mp hr
  rw [h.locate_eq] at hp hg ⊢
  have hd : between.get? (before.locate path) ≠ some .directory := by simp [hg]
  have he := directoriesKept_erase hd
  refine ⟨h.directoriesKept.trans he, fun location hl => ?_, .inr (he.place_eq hp)⟩
  rw [get?_erase_of_ne hl, h.elsewhere location hl]

/-- A file that has been written can be removed. -/
theorem exists_remove (h : Underway path before after) :
    after.fileAt? (before.locate path) = before.fileAt? (before.locate path) ∨
      after.fileAt? (before.locate path) = none ∨ ∃ removed, after.remove path = .ok removed := by
  rcases h.here with hs | hp
  · exact .inl (fileAt?_of_get?_eq hs)
  · cases hf : after.fileAt? (before.locate path) with
    | none => exact .inr (.inl rfl)
    | some content =>
      rw [← h.locate_eq] at hp hf
      exact .inr (.inr ⟨_, remove_eq_ok_iff.mpr ⟨hp, ⟨content, fileAt?_eq_some_iff.mp hf⟩, rfl⟩⟩)

end Underway

/-! ## What a run comes to -/

/-- Where the temporary file of an output is. -/
def Sibling (tree : FileTree) (output : Path) (location : Location) : Prop :=
  ∃ temporary, output.beside? ".tmp" = some temporary ∧ tree.locate temporary = location

theorem not_sibling_output (tree : FileTree) (output : Path) :
    ¬ tree.Sibling output (tree.locate output) := by
  intro ⟨temporary, ht, he⟩
  exact tree.locate_beside_ne ht he

/-- A run has been given up. -/
structure Abandoned (fs : FileSystem (StateM World)) (output : Path) (before after : FileTree) :
    Prop where
  directoriesKept : DirectoriesKept before after
  elsewhere : ∀ location, ¬ before.Sibling output location → Kept before after location
  /-- The temporary file has not been reached, or it has been removed, unless that is refused. -/
  sibling : ∀ temporary, output.beside? ".tmp" = some temporary →
    after.fileAt? (before.locate temporary) = before.fileAt? (before.locate temporary) ∨
      after.fileAt? (before.locate temporary) = none ∨ fs.Retains temporary after
  /-- Not even a directory is made at the output, unless its path leads up again. -/
  output : output.names ≠ [] → ".." ∉ output.names →
    after.get? (before.locate output) = before.get? (before.locate output)

/-- A run has put a document in place. -/
structure Published (temporary output : Path) (content : Bytes) (before after : FileTree) :
    Prop where
  directoriesKept : DirectoriesKept before after
  elsewhere : ∀ location, location ≠ before.locate temporary → location ≠ before.locate output →
    Kept before after location
  cleared : after.get? (before.locate temporary) = none
  written : after.file output = .ok content

theorem foldl_step_of_not_mem (location : Location) (names : List String) (h : ".." ∉ names) :
    names.foldl step location = location ++ names := by
  induction names generalizing location with
  | nil => simp
  | cons name rest ih =>
    rw [List.mem_cons, not_or] at h
    rw [List.foldl_cons, ih _ h.2, step, if_neg (Ne.symm h.1), List.append_assoc]
    rfl

/-- The directories around an output are not where the output is. -/
theorem Furnished.get?_output (h : Furnished output.parent before after) (hn : output.names ≠ [])
    (hd : ".." ∉ output.names) :
    after.get? (before.locate output) = before.get? (before.locate output) := by
  rcases h.only (before.locate output) with hs | ⟨-, -, names, hp, hl⟩
  · exact hs
  -- Without double dots a location is as long as its path, and what is made lies above the output.
  · have hsub : names <+: output.names := hp.trans (List.dropLast_prefix output.names)
    have hd' : ".." ∉ names := fun hm => hd (hsub.subset hm)
    rw [locate, locate, foldl_step_of_not_mem _ _ hd, foldl_step_of_not_mem _ _ hd'] at hl
    have hlong : names.length ≤ output.names.dropLast.length := hp.length_le
    obtain rfl : names = output.names := List.append_cancel_left hl
    have hpos := List.length_pos_iff.mpr hn
    rw [List.length_dropLast] at hlong
    omega

theorem Abandoned.of_furnished (h : Furnished output.parent before after) :
    Abandoned fs output before after where
  directoriesKept := h.directoriesKept
  elsewhere location _ := h.kept location
  sibling _ _ := .inl (h.kept _).fileAt?_eq
  output := h.get?_output

/-- Whatever has been done at the path of the temporary file, nothing has been done elsewhere. -/
theorem Abandoned.of_underway (hf : Furnished output.parent before between)
    (ht : output.beside? ".tmp" = some temporary) (hu : Underway temporary between after)
    (hs : after.fileAt? (between.locate temporary) = between.fileAt? (between.locate temporary) ∨
      after.fileAt? (between.locate temporary) = none ∨ fs.Retains temporary after) :
    Abandoned fs output before after := by
  have hl : before.Sibling output (between.locate temporary) :=
    ⟨temporary, ht, (hf.locate_eq temporary).symm⟩
  refine ⟨hf.directoriesKept.trans hu.directoriesKept, fun location hn => ?_,
    fun temporary' ht' => ?_, fun hn hd => ?_⟩
  · have hne : location ≠ between.locate temporary := fun he => hn (he ▸ hl)
    exact (hf.kept location).trans (.inl (hu.elsewhere location hne))
  · obtain rfl := Option.some.inj (ht.symm.trans ht')
    rw [(hf.kept _).fileAt?_eq, hf.locate_eq] at hs
    exact hs
  · have hne : before.locate output ≠ between.locate temporary := by
      rw [hf.locate_eq]
      exact (before.locate_beside_ne ht).symm
    rw [hu.elsewhere _ hne, hf.get?_output hn hd]

/-- What has been written at the path of the temporary file is undone by removing that. -/
theorem Abandoned.of_remove (h : fs.ActsOnTree) {w : World}
    (hf : Furnished output.parent before between) (ht : output.beside? ".tmp" = some temporary)
    (hu : Underway temporary between w.tree) :
    Abandoned fs output before (fs.remove temporary w).2.tree := by
  generalize hx : fs.remove temporary w = result
  cases hx ▸ h.remove temporary w with
  | done hr =>
    have hnone := fileAt?_of_remove hr
    rw [hu.locate_eq] at hnone
    exact .of_underway hf ht (hu.remove hr) (.inr (.inl hnone))
  | refused e =>
    refine .of_underway hf ht hu ?_
    rcases hu.exists_remove with hs | hn | hr
    · exact .inl hs
    · exact .inr (.inl hn)
    · exact .inr (.inr ⟨hr, w, e, rfl, hx⟩)

/-- A file that has been written at the path of the temporary one is published by renaming it. -/
theorem Published.of_rename {content : Bytes} (hf : Furnished path before between)
    (ht : output.beside? ".tmp" = some temporary) {filled : FileTree}
    (hu : Underway temporary between filled)
    (hg : filled.get? (between.locate temporary) = some (.file content))
    (hr : filled.rename temporary output = .ok after) :
    Published temporary output content before after := by
  obtain ⟨hp, hp', hd, content', hg', rfl⟩ := rename_eq_ok_iff.mp hr
  have hne := filled.locate_beside_ne ht
  have hl (other : Path) : filled.locate other = before.locate other :=
    (hu.locate_eq other).trans (hf.locate_eq other)
  rw [hf.locate_eq] at hg
  rw [hl] at hg'
  obtain rfl : content = content' := by simpa using hg.symm.trans hg'
  have hdt : filled.get? (filled.locate temporary) ≠ some .directory := by simp [hl, hg]
  have hde : (filled.erase (filled.locate temporary)).get? (filled.locate output) ≠
      some .directory := by
    rw [get?_erase_of_ne hne.symm]
    exact hd
  have hk := (directoriesKept_erase hdt).trans (directoriesKept_insert content hde)
  refine ⟨?_, fun location hn hn' => ?_, ?_, ?_⟩
  · exact (hf.directoriesKept.trans hu.directoriesKept).trans hk
  · rw [← hl] at hn hn'
    refine (hf.kept location).trans (.inl ?_)
    rw [get?_insert_of_ne hn', get?_erase_of_ne hn]
    rw [hu.locate_eq] at hn
    exact hu.elsewhere location hn
  · rw [← hl, get?_insert_of_ne hne, get?_erase_self (locate_of_named hp).2]
  · refine file_eq_ok_iff.mpr ⟨hk.place_eq hp', ?_⟩
    exact get?_insert_self (locate_of_named hp').2

end FileTree

namespace CommandLine

open FileTree

variable {fs : FileSystem (StateM World)} {options : Options} {output temporary : Path}
  {s t : Log × World} {r : Except Trouble Tally}

/-! ## Writing a file -/

/-- The temporary file holds the whole document when it is renamed; before that, nothing happens
elsewhere. -/
theorem publish_outcome (h : fs.ActsOnTree)
    (he : Ends (publish fs options temporary output) s r t) :
    (∃ content filled, r = .ok (convert options.settings content).session.records ∧
      (∀ image, s.2.tree.file options.inputPath = .ok image →
        s.2.tree.locate options.inputPath ≠ s.2.tree.locate temporary → content = image) ∧
      (convert options.settings content).failure = none ∧
      Underway temporary s.2.tree filled ∧
      filled.get? (s.2.tree.locate temporary) =
        some (.file (Utf8.encode (convert options.settings content).document)) ∧
      filled.rename temporary output = .ok t.2.tree) ∨
    (∃ trouble, r = .error trouble) ∧ Underway temporary s.2.tree t.2.tree := by
  -- `Underway` holds from the start, and each write keeps it; the visit in between changes nothing.
  have hu := Underway.refl temporary s.2.tree
  rcases he.of_bind_changes (h.create temporary s.2) with ⟨hr, ht⟩ | ⟨created, hc, he⟩
  · exact .inr ⟨hr, ht ▸ hu⟩
  replace hu := hu.fill hc
  rcases visit_ends h options created with ⟨e, hv⟩ | ⟨content, hsame, hv⟩
  · obtain ⟨rfl, rfl⟩ := he.unique hv.bind_error
    exact .inr ⟨⟨_, rfl⟩, hu⟩
  rcases (he.after hv).of_bind_check with ⟨hr, rfl⟩ | ⟨hf, he⟩
  · refine .inr ⟨hr, ?_⟩
    rw [toldAll_tree]
    exact hu
  rcases he.of_bind_writes (h.fill temporary _ _) with ⟨hr, ht⟩ | ⟨filled, hw, he⟩
  · refine .inr ⟨hr, ?_⟩
    rw [toldAll_tree] at ht
    rcases ht with ht | ⟨part, ht⟩
    · rw [ht]
      exact hu
    · exact hu.fill ht
  rw [toldAll_tree] at hw
  rcases he.of_bind_changes (h.rename temporary output filled.2) with ⟨hr, ht⟩ | ⟨renamed, hn, he⟩
  · exact .inr ⟨hr, ht ▸ hu.fill hw⟩
  obtain ⟨rfl, rfl⟩ := he.unique (.pure _ _)
  refine .inl ⟨content, filled.2.tree, rfl, fun image hi hne => ?_, hf, hu.fill hw, ?_, hn⟩
  · exact hsame image (hu.directoriesKept.file_eq hi (hu.elsewhere _ hne))
  · obtain ⟨hp, -, hw⟩ := fill_eq_ok_iff.mp hw
    rw [← hw, ← hu.locate_eq]
    exact get?_insert_self (locate_of_named hp).2

/-- The document of an image is in the output, by way of a temporary file. The image is read when
that file has been made, so it is not the same image if it has stood there. -/
def Delivers (options : Options) (image : Bytes) (output : Path) (before after : FileTree) : Prop :=
  ∃ temporary content, output.beside? ".tmp" = some temporary ∧
    (before.locate options.inputPath ≠ before.locate temporary → content = image) ∧
    (convert options.settings content).failure = none ∧
    Published temporary output (Utf8.encode (convert options.settings content).document) before
      after

/-- Either the document is in its place, or it is as if nothing had been written. -/
theorem toFile_outcome (h : fs.ActsOnTree) {image : Bytes}
    (hi : s.2.tree.file options.inputPath = .ok image)
    (he : Ends (toFile fs options output) s r t) :
    (∃ trouble, r = .error trouble) ∧ Abandoned fs output s.2.tree t.2.tree ∨
      (∃ records, r = .ok records) ∧ Delivers options image output s.2.tree t.2.tree := by
  rcases he.of_bind_requireNoNul with ⟨hr, rfl⟩ | he
  · exact .inl ⟨hr, .of_furnished (.refl _ _)⟩
  obtain ⟨made, tree, hm, hf⟩ := h.ensureDirectories_furnishes output.parent s.2
  rcases he.of_bind_demand with ⟨e, hx, hr⟩ | ⟨_, w, hx, he⟩
  · have hw : tree = t.2.tree := congrArg (·.2.tree) (hm.symm.trans hx)
    exact .inl ⟨⟨_, hr⟩, .of_furnished (hw ▸ hf)⟩
  obtain rfl : { s.2 with tree } = w := congrArg (·.2) (hm.symm.trans hx)
  cases ht : output.beside? ".tmp" with
  | none =>
    rw [ht] at he
    obtain ⟨rfl, rfl⟩ := he.unique (.throw _ _)
    exact .inl ⟨⟨_, rfl⟩, .of_furnished hf⟩
  | some temporary =>
    rw [ht] at he
    rcases he.of_bind_requireNoNul with ⟨hr, rfl⟩ | he
    · exact .inl ⟨hr, .of_furnished hf⟩
    -- What fails within is cleared away; what fails before has not touched the file.
    rcases he.of_tryCatch with ⟨records, rfl, hp⟩ | ⟨trouble, between, hp, hh⟩
    · rcases publish_outcome h hp with ⟨content, filled, -, hsame, hv, hu, hg, hn⟩ | ⟨⟨_, hr⟩, -⟩
      · refine .inr ⟨⟨records, rfl⟩, temporary, content, ht, fun hne => ?_, hv,
          .of_rename hf ht hu hg hn⟩
        exact hsame image (hf.file_eq hi) (by rwa [hf.locate_eq, hf.locate_eq])
      · cases hr
    · rcases publish_outcome h hp with ⟨content, filled, hr, -⟩ | ⟨-, hu⟩
      · cases hr
      · obtain ⟨rfl, rfl⟩ := (hh.after (.act _ _)).unique (.throw _ _)
        exact .inl ⟨⟨trouble, rfl⟩, .of_remove h hf ht hu⟩

/-! ## Whole runs -/

/-- What a run that is to write to a file comes to. -/
inductive Outcome (fs : FileSystem (StateM World)) (options : Options) (output : Path)
    (before after : FileTree) : Ending → Prop
  | listed : options.listSections = true → after = before →
      Outcome fs options output before after (.exit 0)
  | delivered {image : Bytes} : options.listSections = false →
      before.file options.inputPath = .ok image → Delivers options image output before after →
        Outcome fs options output before after (.exit 0)
  | abandoned {ending : Ending} : ending ≠ .exit 0 → Abandoned fs output before after →
      Outcome fs options output before after ending

theorem Outcome.of_error {before after : FileTree} {r : Except Trouble Unit}
    (hr : ∃ trouble, r = .error trouble) (h : Abandoned fs output before after) :
    Outcome fs options output before after (concluded t r).1 := by
  refine .abandoned (fun he => ?_) h
  obtain ⟨trouble, rfl⟩ := hr
  cases (concluded_fst_eq_iff t _).mp he

theorem listSections_outcome (h : fs.ActsOnTree) {r : Except Trouble Unit}
    (hl : options.listSections = true) (he : Ends (listSections fs options) s r t) :
    Outcome fs options output s.2.tree t.2.tree (concluded t r).1 := by
  rcases he.of_bind_contents h with ⟨⟨e, rfl⟩, rfl⟩ | ⟨content, -, he⟩
  · exact .of_error ⟨_, rfl⟩ (.of_furnished (.refl _ _))
  cases hs : Summary.read content with
  | ok summary =>
    rw [hs] at he
    rcases print_ends h (listing summary) s with hx | ⟨e, part, rest, -, -, hx⟩
    · obtain ⟨rfl, rfl⟩ := he.unique hx
      exact .listed hl rfl
    · obtain ⟨rfl, rfl⟩ := he.unique hx
      exact .of_error ⟨_, rfl⟩ (.of_furnished (.refl _ _))
  | error cause =>
    rw [hs] at he
    obtain ⟨rfl, rfl⟩ := he.unique (.throw _ _)
    exact .of_error ⟨_, rfl⟩ (.of_furnished (.refl _ _))

theorem convertImage_outcome (h : fs.ActsOnTree) {r : Except Trouble Unit} {image : Bytes}
    (hl : options.listSections = false) (ho : options.outputPath? = some output)
    (hi : s.2.tree.file options.inputPath = .ok image)
    (he : Ends (convertImage fs options) s r t) :
    Outcome fs options output s.2.tree t.2.tree (concluded t r).1 := by
  unfold convertImage at he
  rw [ho] at he
  rcases he.of_bind with ⟨trouble, rfl, hx⟩ | ⟨records, written, hx, he⟩
  · rcases toFile_outcome h hi hx with ⟨-, ha⟩ | ⟨⟨_, hr⟩, -⟩
    · exact .of_error ⟨trouble, rfl⟩ ha
    · cases hr
  · rcases toFile_outcome h hi hx with ⟨⟨_, hr⟩, -⟩ | ⟨-, hd⟩
    · cases hr
    · obtain ⟨rfl, rfl⟩ := he.unique (say_ends h _ _ _)
      exact .delivered hl hi hd

theorem execute_outcome (h : fs.ActsOnTree) {r : Except Trouble Unit}
    (ho : options.outputPath? = some output) (he : Ends (execute fs options) s r t) :
    Outcome fs options output s.2.tree t.2.tree (concluded t r).1 := by
  rcases he.of_bind_requireNoNul with ⟨hr, rfl⟩ | he
  · exact .of_error hr (.of_furnished (.refl _ _))
  obtain ⟨opened, hopen, hfile⟩ := h.openInput options.inputPath s.2
  rcases he.of_bind_demand with ⟨e, hx, rfl⟩ | ⟨_, w, hx, he⟩
  · have hw : s.2 = t.2 := congrArg (·.2) (hopen.symm.trans hx)
    exact .of_error ⟨_, rfl⟩ (hw ▸ .of_furnished (.refl _ _))
  obtain ⟨rfl, rfl⟩ := Prod.mk.inj (hopen.symm.trans hx)
  obtain ⟨image, hi⟩ := hfile rfl
  cases hl : options.listSections with
  | true =>
    rw [if_pos hl] at he
    exact listSections_outcome h hl he
  | false =>
    rw [if_neg (by simp [hl])] at he
    exact convertImage_outcome h hl ho hi he

variable {arguments : List String} {w w' : World} {ending : Ending}

theorem run_outcome (h : fs.ActsOnTree) (hc : Command.ofArguments arguments = .run options)
    (hj : options.diagJson = "") (ho : options.outputPath? = some output)
    (hr : (run fs arguments).run w = (ending, w')) :
    Outcome fs options output w.tree w'.tree ending := by
  have hs : options.output.isSome := by
    cases hn : options.output with
    | none => simp [Options.outputPath?, hn] at ho
    | some output => rfl
  obtain ⟨r, t, he⟩ := Ends.total (execute fs options) (started options w)
  obtain ⟨rfl, rfl⟩ := Prod.mk.inj ((run_eq h hc hs hj he).symm.trans hr)
  rw [concluded_tree]
  exact execute_outcome h ho he

/-- A run keeps the directories, whatever comes of it. -/
theorem Outcome.directoriesKept {before after : FileTree}
    (h : Outcome fs options output before after ending) : DirectoriesKept before after := by
  cases h with
  | listed hl he =>
    rw [he]
    exact .refl before
  | delivered hl hi hd =>
    obtain ⟨temporary, content, -, -, -, hp⟩ := hd
    exact hp.directoriesKept
  | abandoned hn ha => exact ha.directoriesKept

/-- Where no file stands in the place of the temporary one, and none stays there, a run changes no
file but its output, and that only if it succeeds. -/
theorem Outcome.fileAt?_eq {before after : FileTree} {location : Location}
    (h : Outcome fs options output before after ending)
    (hfree : ∀ temporary, output.beside? ".tmp" = some temporary →
      before.fileAt? (before.locate temporary) = none)
    (hremoved : ∀ temporary, output.beside? ".tmp" = some temporary →
      ¬ fs.Retains temporary after)
    (hl : location ≠ before.locate output ∨ ending ≠ .exit 0) :
    after.fileAt? location = before.fileAt? location := by
  cases h with
  | listed hs he => rw [he]
  | delivered hs hi hd =>
    obtain ⟨temporary, content, ht, -, -, hp⟩ := hd
    by_cases hlt : location = before.locate temporary
    · rw [hlt, hfree temporary ht, fileAt?, hp.cleared]
    · exact (hp.elsewhere location hlt (hl.resolve_right (by simp))).fileAt?_eq
  | abandoned hn ha =>
    by_cases hs : before.Sibling output location
    · obtain ⟨temporary, ht, rfl⟩ := hs
      rcases ha.sibling temporary ht with he | he | he
      · exact he
      · rw [he, hfree temporary ht]
      · exact absurd he (hremoved temporary ht)
    · exact (ha.elsewhere location hs).fileAt?_eq

/-- A run leaves every file as it is but its output, and that too unless it succeeds; and it leaves
no new file. No file may stand where the temporary one is written, and the system may not refuse to
remove that. -/
theorem run_leaves_files (h : fs.ActsOnTree) (hc : Command.ofArguments arguments = .run options)
    (hj : options.diagJson = "") (ho : options.outputPath? = some output)
    (hfree : ∀ temporary, output.beside? ".tmp" = some temporary →
      w.tree.fileAt? (w.tree.locate temporary) = none)
    (hremoves : ∀ temporary, output.beside? ".tmp" = some temporary →
      ∀ tree, ¬ fs.Retains temporary tree)
    (hr : (run fs arguments).run w = (ending, w')) :
    (∀ location, location ≠ w.tree.locate output ∨ ending ≠ .exit 0 →
      w'.tree.fileAt? location = w.tree.fileAt? location) ∧
    ∀ path content, w.tree.file path = .ok content →
      w.tree.locate path ≠ w.tree.locate output ∨ ending ≠ .exit 0 →
        w'.tree.file path = .ok content := by
  have hw := run_outcome h hc hj ho hr
  have hsame {location : Location} (hl : location ≠ w.tree.locate output ∨ ending ≠ .exit 0) :=
    hw.fileAt?_eq hfree (fun temporary ht => hremoves temporary ht w'.tree) hl
  refine ⟨fun location hl => hsame hl, fun path content hf hl => ?_⟩
  have hg := (file_eq_ok_iff.mp hf).2
  have ha := hsame hl
  rw [fileAt?_eq_some_iff.mpr hg, fileAt?_eq_some_iff] at ha
  exact hw.directoriesKept.file_eq hf (ha.trans hg.symm)

/-- A conversion that succeeds has put the document of its image in place. -/
theorem Outcome.published {before after : FileTree}
    (h : Outcome fs options output before after (.exit 0)) (hl : options.listSections = false)
    (ht : output.beside? ".tmp" = some temporary)
    (hne : before.locate options.inputPath ≠ before.locate temporary) :
    ∃ image, before.file options.inputPath = .ok image ∧
      (convert options.settings image).failure = none ∧
      Published temporary output (Utf8.encode (convert options.settings image).document) before
        after := by
  cases h with
  | listed hs he => simp [hl] at hs
  | @delivered image hs hf hd =>
    obtain ⟨temporary', content, ht', hsame, hv, hp⟩ := hd
    obtain rfl := Option.some.inj (ht.symm.trans ht')
    obtain rfl := hsame hne
    exact ⟨content, hf, hv, hp⟩
  | abandoned hn ha => exact absurd rfl hn

/-- A run that fails or only lists the sections has been given up as far as files go. -/
theorem Outcome.abandoned_of_or {before after : FileTree}
    (h : Outcome fs options output before after ending)
    (hn : ending ≠ .exit 0 ∨ options.listSections = true) : Abandoned fs output before after := by
  cases h with
  | listed hs he => exact .of_furnished (he ▸ .refl _ _)
  | delivered hs hf hd => simp [hs] at hn
  | abandoned hn ha => exact ha

/-- Files in one directory, and nothing else. -/
def directoryOf (files : List (String × Bytes)) : World where
  tree := { entries := files.map fun (name, content) => ([name], .file content)
            workingDirectory := [] }

theorem run_leaves_files_smallImage :
    ((run World.fileSystem ["in", "-o", "out"]).run
      (directoryOf [("in", smallImage)])).2.tree.file (.ofString "in") = .ok smallImage := by
  have hc : Command.ofArguments ["in", "-o", "out"] =
      .run { input := "in", output := some "out" } := by decide +kernel
  have hb : (Path.ofString "out").beside? ".tmp" = some ⟨"", ["out.tmp"]⟩ := by decide +kernel
  have hfree : ∀ temporary, (Path.ofString "out").beside? ".tmp" = some temporary →
      (directoryOf [("in", smallImage)]).tree.fileAt?
        ((directoryOf [("in", smallImage)]).tree.locate temporary) = none := by
    intro temporary ht
    obtain rfl := Option.some.inj (hb.symm.trans ht)
    decide +kernel
  exact (run_leaves_files FileSystem.fileSystem_actsOnTree hc rfl rfl hfree
    (fun temporary _ => FileSystem.not_retains_fileSystem temporary) rfl).2 (.ofString "in")
      smallImage (by decide +kernel) (.inl (by decide +kernel))

/-- A run whose image stands in the place of the temporary file empties it and removes it. -/
theorem run_loses_image :
    (directoryOf [("image.tmp", smallImage)]).tree.file (.ofString "image.tmp") = .ok smallImage ∧
      ((run World.fileSystem ["image.tmp", "-o", "image"]).run
        (directoryOf [("image.tmp", smallImage)])).2.tree.file (.ofString "image.tmp") =
          .error .noSuchFile := by
  refine ⟨by decide +kernel, ?_⟩
  simp only [run, runOptions, execute, convertImage, toFile, finish, writeLog, requireNoNul,
    hasNul_eq]
  decide +kernel

/-- A run replaces its output as a whole or not at all: if it converts an image and succeeds, the
document is there, and otherwise what was there before. Of the temporary file nothing stays, unless
a run that does not succeed may not remove it. -/
theorem run_publishes (h : fs.ActsOnTree) (hc : Command.ofArguments arguments = .run options)
    (hj : options.diagJson = "") (ho : options.outputPath? = some output)
    (ht : output.beside? ".tmp" = some temporary)
    (hi : w.tree.locate options.inputPath ≠ w.tree.locate temporary)
    (hr : (run fs arguments).run w = (ending, w')) :
    (ending = .exit 0 → options.listSections = false →
      ∃ image, w.tree.file options.inputPath = .ok image ∧
        (convert options.settings image).failure = none ∧
        w'.tree.file output = .ok (Utf8.encode (convert options.settings image).document) ∧
        w'.tree.get? (w.tree.locate temporary) = none) ∧
    (ending ≠ .exit 0 ∨ options.listSections = true →
      w'.tree.fileAt? (w.tree.locate output) = w.tree.fileAt? (w.tree.locate output) ∧
      (".." ∉ output.names →
        w'.tree.get? (w.tree.locate output) = w.tree.get? (w.tree.locate output)) ∧
      (w'.tree.fileAt? (w.tree.locate temporary) = w.tree.fileAt? (w.tree.locate temporary) ∨
        w'.tree.fileAt? (w.tree.locate temporary) = none ∨ fs.Retains temporary w'.tree)) := by
  have hw := run_outcome h hc hj ho hr
  refine ⟨fun he hl => ?_, fun hn => ?_⟩
  · subst he
    obtain ⟨image, hf, hv, hp⟩ := hw.published hl ht hi
    exact ⟨image, hf, hv, hp.written, hp.cleared⟩
  · have ha := hw.abandoned_of_or hn
    obtain ⟨names, name, hnames, -⟩ := beside?_eq_some_iff.mp ht
    exact ⟨(ha.elsewhere _ (w.tree.not_sibling_output output)).fileAt?_eq,
      ha.output (by simp [hnames]), ha.sibling temporary ht⟩

theorem run_publishes_smallImage :
    ((run World.fileSystem ["in", "-o", "out"]).run
      (directoryOf [("in", smallImage)])).2.tree.file (.ofString "out") =
        .ok (Utf8.encode (convert {} smallImage).document) := by
  have hc : Command.ofArguments ["in", "-o", "out"] =
      .run { input := "in", output := some "out" } := by decide +kernel
  have hb : (Path.ofString "out").beside? ".tmp" = some ⟨"", ["out.tmp"]⟩ := by decide +kernel
  have hi : (directoryOf [("in", smallImage)]).tree.file (.ofString "in") = .ok smallImage := by
    decide +kernel
  have hx : ((run World.fileSystem ["in", "-o", "out"]).run
      (directoryOf [("in", smallImage)])).1 = .exit 0 := by
    simp only [run, runOptions, execute, convertImage, toFile, finish, writeLog, requireNoNul,
      hasNul_eq]
    decide +kernel
  obtain ⟨image, hf, -, hw, -⟩ := (run_publishes FileSystem.fileSystem_actsOnTree hc rfl rfl hb
    (by decide +kernel) rfl).1 hx rfl
  obtain rfl := Except.ok.inj (hi.symm.trans hf)
  exact hw

/-- A tree in which no directory may be changed. Files that are there may be written to. -/
def fixedDirectories : FileSystem (StateM World) :=
  let refuse (path : Path) (target : Option Path) : StateM World (Except SystemError Unit) :=
    pure (.error { fault := .other 13 "Permission denied", path, target })
  { World.fileSystem with
    makeDirectory := fun path => refuse path none
    create := fun path w =>
      match w.tree.file path with
      | .ok _ => World.fileSystem.create path w
      | .error _ => refuse path none w
    rename := fun path target => refuse path (some target)
    remove := fun path => refuse path none }

theorem fixedDirectories_actsOnTree : fixedDirectories.ActsOnTree where
  openInput := FileSystem.fileSystem_actsOnTree.openInput
  contents := FileSystem.fileSystem_actsOnTree.contents
  makeDirectory path w := .refused _
  isDirectory := FileSystem.fileSystem_actsOnTree.isDirectory
  create path w := by
    dsimp only [fixedDirectories]
    split
    · exact FileSystem.fileSystem_actsOnTree.create path w
    · exact .refused _
  fill := FileSystem.fileSystem_actsOnTree.fill
  rename path target w := .refused _
  remove path w := .refused _
  print := FileSystem.fileSystem_actsOnTree.print
  printError := FileSystem.fileSystem_actsOnTree.printError

/-- A run that only lists the sections succeeds without an output; and what has been written to a
temporary file stays where that can be neither renamed nor removed. -/
theorem run_leaves_unpublished :
    (((run World.fileSystem ["in", "-o", "out", "--list-sections"]).run
        (directoryOf [("in", smallImage)])).1 = .exit 0 ∧
      ((run World.fileSystem ["in", "-o", "out", "--list-sections"]).run
        (directoryOf [("in", smallImage)])).2.tree.file (.ofString "out") = .error .noSuchFile) ∧
    fixedDirectories.ActsOnTree ∧
      ((run fixedDirectories ["in", "-o", "out"]).run
        (directoryOf [("in", smallImage), ("out.tmp", [])])).1 = .exit 1 ∧
      ∃ content, ((run fixedDirectories ["in", "-o", "out"]).run
        (directoryOf [("in", smallImage), ("out.tmp", [])])).2.tree.fileAt? ["out.tmp"] =
          some content ∧ content ≠ [] := by
  have hstays : ((run fixedDirectories ["in", "-o", "out"]).run
      (directoryOf [("in", smallImage), ("out.tmp", [])])).1 = .exit 1 ∧
      (((run fixedDirectories ["in", "-o", "out"]).run
        (directoryOf [("in", smallImage), ("out.tmp", [])])).2.tree.fileAt? ["out.tmp"]).any
          (· ≠ []) = true := by
    simp only [run, runOptions, execute, convertImage, toFile, finish, writeLog, requireNoNul,
      hasNul_eq]
    decide +kernel
  obtain ⟨content, hc, hne⟩ := (Option.any_eq_true _ _).mp hstays.2
  refine ⟨?_, fixedDirectories_actsOnTree, hstays.1, content, hc, of_decide_eq_true hne⟩
  simp only [run, runOptions, execute, convertImage, toFile, finish, writeLog, requireNoNul,
    hasNul_eq]
  decide +kernel

end CommandLine

end Checkpoint
