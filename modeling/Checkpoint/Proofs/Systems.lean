import Checkpoint.Proofs.Locations

/-! # Systems that act on a tree

What the operations that the program uses do to a tree of files, on a system that may refuse any of
them for reasons of its own: what it has no right to, what it has no room for. A tree of files by
itself is such a system, one that refuses nothing without need. -/
namespace Checkpoint.FileSystem

variable {fs : FileSystem (StateM World)} {w : World} {path : Path}

/-- How an operation ends that is to change the tree in a certain way. -/
inductive Changes (change : FileTree → Except SystemFault FileTree) (w : World) :
    Except SystemError Unit × World → Prop
  | done {tree : FileTree} : change w.tree = .ok tree → Changes change w (.ok (), { w with tree })
  /-- It is refused, and the tree stays as it is. -/
  | refused (e : SystemError) : Changes change w (.error e, w)

/-- How a write to a file ends. -/
inductive Writes (path : Path) (content : Bytes) (w : World) :
    Except SystemError Unit × World → Prop
  | changes {result : Except SystemError Unit × World} :
      Changes (·.fill path content) w result → Writes path content w result
  /-- It breaks off, and something else is in the file then. -/
  | broken {part : Bytes} {tree : FileTree} (e : SystemError) : w.tree.fill path part = .ok tree →
      Writes path content w (.error e, { w with tree })

/-- How printing a text ends. -/
inductive Printing (text : String) (w : World) : Except SystemError Unit × World → Prop
  | done : Printing text w (.ok (), { w with stdout := w.stdout ++ text })
  /-- It breaks off, and the rest is not printed. -/
  | broken {part rest : String} (e : SystemError) : part ++ rest = text → rest ≠ "" →
      Printing text w (.error e, { w with stdout := w.stdout ++ part })

/-- The operations do to the tree what they are for, or they are refused. Only messages are always
taken. -/
structure ActsOnTree (fs : FileSystem (StateM World)) : Prop where
  openInput (path : Path) (w : World) : ∃ result, fs.openInput path w = (result, w) ∧
    (result = .ok () → ∃ content, w.tree.file path = .ok content)
  contents (path : Path) (w : World) : ∃ answer, fs.contents path w = (answer, w) ∧
    ∀ found content, answer = .ok found → w.tree.file path = .ok content → found = content
  makeDirectory (path : Path) (w : World) :
    Changes (·.makeDirectory path) w (fs.makeDirectory path w)
  isDirectory (path : Path) (w : World) : ∃ answer, fs.isDirectory path w = (answer, w)
  create (path : Path) (w : World) : Changes (·.fill path []) w (fs.create path w)
  fill (path : Path) (content : Bytes) (w : World) :
    Writes path content w (fs.fill path content w)
  rename (path target : Path) (w : World) :
    Changes (·.rename path target) w (fs.rename path target w)
  remove (path : Path) (w : World) : Changes (·.remove path) w (fs.remove path w)
  print (text : String) (w : World) : Printing text w (fs.print text w)
  printError (text : String) (w : World) :
    fs.printError text w = ((), { w with stderr := w.stderr ++ text })

/-- A file stays that could be removed, since the system refuses that. -/
def Retains (fs : FileSystem (StateM World)) (path : Path) (tree : FileTree) : Prop :=
  (∃ removed, tree.remove path = .ok removed) ∧
    ∃ w e, w.tree = tree ∧ fs.remove path w = (.error e, w)

/-! ## A tree by itself -/

theorem changes_change (path : Path) (target : Option Path)
    (change : FileTree → Except SystemFault FileTree) (w : World) :
    Changes change w (World.change path target change w) := by
  unfold World.change
  split
  · rename_i tree h
    exact .done h
  · exact .refused _

theorem openInput_eq (path : Path) (w : World) : World.fileSystem.openInput path w =
    (match w.tree.file path with
      | .ok _ => .ok ()
      | .error fault => .error { fault, path }, w) := by
  change (match w.tree.file path with
    | .ok _ => pure (.ok ())
    | .error fault => pure (.error { fault, path }) :
      StateM World (Except SystemError Unit)) w = _
  cases w.tree.file path <;> rfl

theorem contents_eq (path : Path) (w : World) : World.fileSystem.contents path w =
    (match w.tree.file path with
      | .ok content => .ok content
      | .error fault => .error { fault }, w) :=
  rfl

theorem change_of_ok (path : Path) (target : Option Path)
    (change : FileTree → Except SystemFault FileTree) {tree : FileTree}
    (h : change w.tree = .ok tree) :
    World.change path target change w = (.ok (), { w with tree }) := by
  rw [World.change, h]

theorem create_of_ok {tree : FileTree} (h : w.tree.fill path [] = .ok tree) :
    World.fileSystem.create path w = (.ok (), { w with tree }) :=
  change_of_ok path none (·.fill path []) h

theorem fill_of_ok {content : Bytes} {tree : FileTree} (h : w.tree.fill path content = .ok tree) :
    World.fileSystem.fill path content w = (.ok (), { w with tree }) :=
  change_of_ok path none (·.fill path content) h

theorem rename_of_ok {target : Path} {tree : FileTree}
    (h : w.tree.rename path target = .ok tree) :
    World.fileSystem.rename path target w = (.ok (), { w with tree }) :=
  change_of_ok path (some target) (·.rename path target) h

/-- A tree of files by itself does what it is asked for unless that is impossible. -/
theorem fileSystem_actsOnTree : World.fileSystem.ActsOnTree where
  openInput path w := by
    refine ⟨_, openInput_eq path w, fun h => ?_⟩
    split at h
    · rename_i content hc
      exact ⟨content, hc⟩
    · cases h
  contents path w := by
    refine ⟨_, contents_eq path w, fun found content ha h => ?_⟩
    rw [h] at ha
    exact (Except.ok.inj ha).symm
  makeDirectory path w := changes_change path none _ w
  isDirectory path w := ⟨_, rfl⟩
  create path w := changes_change path none _ w
  fill path content w := .changes (changes_change path none _ w)
  rename path target w := changes_change path (some target) _ w
  remove path w := changes_change path none _ w
  print text w := .done
  printError text w := rfl

theorem not_retains_fileSystem (path : Path) (tree : FileTree) :
    ¬ World.fileSystem.Retains path tree := by
  rintro ⟨⟨removed, hr⟩, w, e, rfl, hw⟩
  have hd : World.fileSystem.remove path w = (.ok (), { w with tree := removed }) :=
    change_of_ok path none (·.remove path) hr
  cases hd.symm.trans hw

/-! ## Directories -/

theorem run_bind {α β : Type} {x : StateM World α} {f : α → StateM World β} {a : α} {w w' : World}
    (h : x w = (a, w')) : (x >>= f) w = f a w' := by
  change f (x w).1 (x w).2 = _
  rw [h]

/-- Nothing is done to the tree but that directories are made on the way along a path. -/
def Furnishes {α : Type} (path : Path) (x : StateM World α) : Prop :=
  ∀ w, ∃ a tree, x w = (a, { w with tree }) ∧ FileTree.Furnished path w.tree tree

theorem furnishes_pure {α : Type} (path : Path) (a : α) :
    Furnishes path (pure a : StateM World α) :=
  fun w => ⟨a, w.tree, rfl, .refl path w.tree⟩

theorem Furnishes.bind {α β : Type} {x : StateM World α} {f : α → StateM World β}
    (hx : Furnishes path x) (hf : ∀ a, Furnishes path (f a)) : Furnishes path (x >>= f) := by
  intro w
  obtain ⟨a, between, hxw, hb⟩ := hx w
  obtain ⟨b, tree, hfw, ht⟩ := hf a { w with tree := between }
  exact ⟨b, tree, (run_bind hxw).trans hfw, hb.trans ht⟩

theorem Furnishes.of_parent {α : Type} {x : StateM World α} (h : Furnishes path.parent x) :
    Furnishes path x := by
  intro w
  obtain ⟨a, tree, hx, hf⟩ := h w
  exact ⟨a, tree, hx, hf.of_parent⟩

namespace ActsOnTree

theorem makeDirectory_furnishes (h : fs.ActsOnTree) (path : Path) :
    Furnishes path (fs.makeDirectory path) := by
  intro w
  generalize hm : fs.makeDirectory path w = made
  cases hm ▸ h.makeDirectory path w with
  | done ht => exact ⟨_, _, rfl, .of_makeDirectory ht⟩
  | refused e => exact ⟨_, w.tree, rfl, .refl path w.tree⟩

theorem isDirectory_furnishes (h : fs.ActsOnTree) (path : Path) :
    Furnishes path (fs.isDirectory path) := by
  intro w
  obtain ⟨answer, ha⟩ := h.isDirectory path w
  exact ⟨answer, w.tree, ha, .refl path w.tree⟩

theorem ensureDirectory_furnishes (h : fs.ActsOnTree) (path : Path) :
    Furnishes path (fs.ensureDirectory path) := by
  refine (h.makeDirectory_furnishes path).bind fun made => ?_
  cases made with
  | ok u => exact furnishes_pure path _
  | error e =>
    refine (h.isDirectory_furnishes path).bind fun answer => ?_
    cases answer <;> exact furnishes_pure path _

theorem ensureWithin_furnishes (h : fs.ActsOnTree) (depth : Nat) (path : Path) :
    Furnishes path (fs.ensureWithin depth path) := by
  induction depth generalizing path with
  | zero => exact h.ensureDirectory_furnishes path
  | succ depth ih =>
    refine (h.makeDirectory_furnishes path).bind fun made => ?_
    cases made with
    | ok u => exact furnishes_pure path _
    | error e =>
      by_cases he : e.fault = .noSuchFile
      · simp only [he, if_true]
        refine (ih path.parent).of_parent.bind fun around => ?_
        cases around with
        | ok u => exact h.ensureDirectory_furnishes path
        | error e => exact furnishes_pure path _
      · simp only [he, if_false]
        refine (h.isDirectory_furnishes path).bind fun answer => ?_
        cases answer <;> exact furnishes_pure path _

/-- Whatever comes of making directories, nothing else is changed on the way. -/
theorem ensureDirectories_furnishes (h : fs.ActsOnTree) (path : Path) :
    Furnishes path (fs.ensureDirectories path) :=
  h.ensureWithin_furnishes path.names.length path

end ActsOnTree

end Checkpoint.FileSystem
