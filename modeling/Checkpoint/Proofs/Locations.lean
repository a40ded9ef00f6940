import Checkpoint.CommandLine.FileTree

/-! # Locations in a file tree

Where a path leads can be told from its names alone, for there are no links in a tree: a change of
the tree decides only whether the way is open. Beside this stands what each change does to what is
found at the locations. -/
namespace Checkpoint.FileTree

/-! ## What is found at a location -/

variable {tree before after : FileTree} {location other : Location} {entry : FileEntry}

theorem lookup_filter_ne (entries : List (Location × FileEntry)) (h : other ≠ location) :
    (entries.filter (·.1 ≠ location)).lookup other = entries.lookup other := by
  induction entries with
  | nil => rfl
  | cons first rest ih =>
    obtain ⟨key, value⟩ := first
    by_cases hk : key = location
    · have hne : (other == key) = false := beq_eq_false_iff_ne.mpr (hk ▸ h)
      rw [List.filter_cons_of_neg (by simp [hk]), ih, List.lookup_cons, hne]
    · rw [List.filter_cons_of_pos (by simp [hk]), List.lookup_cons, List.lookup_cons, ih]

theorem lookup_filter_self (entries : List (Location × FileEntry)) (location : Location) :
    (entries.filter (·.1 ≠ location)).lookup location = none := by
  rw [List.lookup_eq_none_iff]
  intro found hf
  have hne : found.1 ≠ location := by simpa using (List.mem_filter.mp hf).2
  simpa using hne.symm

theorem get?_erase_self (h : location ≠ []) : (tree.erase location).get? location = none := by
  rw [get?, if_neg h]
  exact lookup_filter_self tree.entries location

theorem get?_erase_of_ne (h : other ≠ location) :
    (tree.erase location).get? other = tree.get? other := by
  unfold get?
  split
  · rfl
  · exact lookup_filter_ne tree.entries h

theorem get?_insert_self (h : location ≠ []) :
    (tree.insert location entry).get? location = some entry := by
  rw [get?, if_neg h]
  simp [insert]

theorem get?_insert_of_ne (h : other ≠ location) :
    (tree.insert location entry).get? other = tree.get? other := by
  have he : (tree.erase location).get? other = tree.get? other := get?_erase_of_ne h
  rw [← he]
  have hne : (other == location) = false := beq_eq_false_iff_ne.mpr h
  simp [get?, insert, List.lookup_cons, hne]

/-- What is in the file at a location, if there is a file. -/
def fileAt? (tree : FileTree) (location : Location) : Option Bytes :=
  match tree.get? location with
  | some (.file content) => some content
  | some .directory | none => none

theorem fileAt?_eq_some_iff {content : Bytes} :
    tree.fileAt? location = some content ↔ tree.get? location = some (.file content) := by
  unfold fileAt?
  split <;> simp_all

theorem fileAt?_of_get?_eq (h : after.get? location = before.get? location) :
    after.fileAt? location = before.fileAt? location := by
  rw [fileAt?, fileAt?, h]

/-! ## Where a path leads -/

/-- Where a name leads from a directory. -/
def step (location : Location) (name : String) : Location :=
  if name = ".." then location.dropLast else location ++ [name]

/-- Where a relative path starts, and one from the top. -/
def start (tree : FileTree) (path : Path) : Location :=
  if path.root.isEmpty then tree.workingDirectory else []

/-- Where a path leads, if there is a directory wherever one has to be. -/
def locate (tree : FileTree) (path : Path) : Location :=
  path.names.foldl step (tree.start path)

theorem locate_congr (h : after.workingDirectory = before.workingDirectory) (path : Path) :
    after.locate path = before.locate path := by
  rw [locate, locate, start, start, h]

/-- Beside a path that has a name there is another one, in the same directory. -/
theorem beside?_eq_some_iff {path beside : Path} {ending : String} :
    path.beside? ending = some beside ↔ ∃ names name, path.names = names ++ [name] ∧
      { path with names := names ++ [name ++ ending] } = beside := by
  unfold Path.beside?
  cases hl : path.names.getLast? with
  | none => simp [List.getLast?_eq_none_iff.mp hl]
  | some name =>
    obtain ⟨names, hn⟩ := List.getLast?_eq_some_iff.mp hl
    simp only [hn, Option.map_some, Option.some.injEq, List.dropLast_concat]
    constructor
    · intro he
      exact ⟨names, name, rfl, he⟩
    · intro ⟨names', name', he, hb⟩
      obtain ⟨rfl, hname⟩ := List.append_inj' he rfl
      obtain rfl := List.singleton_inj.mp hname
      exact hb

/-- What stands beside a path is elsewhere. -/
theorem locate_beside_ne (tree : FileTree) {path temporary : Path}
    (h : path.beside? ".tmp" = some temporary) : tree.locate temporary ≠ tree.locate path := by
  obtain ⟨names, name, hn, rfl⟩ := beside?_eq_some_iff.mp h
  have hlong : (name ++ ".tmp").length = name.length + 4 := String.length_append _ _
  have hdots : name ++ ".tmp" ≠ ".." := by
    intro he
    have htwo : "..".length = 2 := rfl
    rw [he] at hlong
    omega
  have hself : name ++ ".tmp" ≠ name := by
    intro he
    rw [he] at hlong
    omega
  rw [locate, locate, hn, List.foldl_append, List.foldl_append]
  simp only [List.foldl_cons, List.foldl_nil, step, if_neg hdots]
  split
  · intro he
    have hl := congrArg List.length he
    simp [start] at hl
    omega
  · intro he
    exact hself (List.singleton_inj.mp (List.append_cancel_left he))

/-- Names that can be followed go through directories only. -/
theorem walk_cons_eq_ok_iff {start : Location} {name : String} {rest : List String} :
    tree.walk start (name :: rest) = .ok location ↔ checkName name = .ok () ∧
      tree.get? (step start name) = some .directory ∧
        tree.walk (step start name) rest = .ok location := by
  have hs : (if name = ".." then start.dropLast else start ++ [name]) = step start name := rfl
  rw [FileTree.walk, hs]
  cases hn : checkName name with
  | error fault => simp [bind, Except.bind]
  | ok u =>
    simp only [bind, Except.bind]
    split <;> simp_all

theorem eq_foldl_of_walk {start : Location} {names : List String}
    (h : tree.walk start names = .ok location) : names.foldl step start = location := by
  induction names generalizing start with
  | nil => exact Except.ok.inj h
  | cons name rest ih => exact ih (walk_cons_eq_ok_iff.mp h).2.2

/-- The directories of one tree are there in another. -/
def DirectoriesKept (before after : FileTree) : Prop :=
  after.workingDirectory = before.workingDirectory ∧
    ∀ location, before.get? location = some .directory → after.get? location = some .directory

theorem DirectoriesKept.refl (tree : FileTree) : DirectoriesKept tree tree :=
  ⟨rfl, fun _ h => h⟩

theorem DirectoriesKept.walk {start : Location} {names : List String}
    (h : DirectoriesKept before after) (hw : before.walk start names = .ok location) :
    after.walk start names = .ok location := by
  induction names generalizing start with
  | nil => exact hw
  | cons name rest ih =>
    obtain ⟨hn, hd, hw⟩ := walk_cons_eq_ok_iff.mp hw
    exact walk_cons_eq_ok_iff.mpr ⟨hn, h.2 _ hd, ih hw⟩

variable {path : Path} {place : Place}

/-- The path of a place has no name, or it has a last one that is taken from a directory. -/
theorem place_eq_ok_iff : tree.place path = .ok place ↔
    path.toString.utf8ByteSize ≤ maxPathBytes ∧
      (path.names.getLast? = none ∧ .passed (tree.start path) = place ∨
        ∃ name directory, path.names.getLast? = some name ∧
          tree.walk (tree.start path) path.names.dropLast = .ok directory ∧
            checkName name = .ok () ∧
              (if name = ".." then .passed directory.dropLast else .named (directory ++ [name])) =
                place) := by
  have hs : (if path.root.isEmpty then tree.workingDirectory else []) = tree.start path := rfl
  rw [FileTree.place, hs]
  by_cases hl : maxPathBytes < path.toString.utf8ByteSize
  · simp [if_pos hl, Nat.not_le.mpr hl, throw, throwThe, MonadExceptOf.throw, bind, Except.bind]
  · rw [if_neg hl]
    have hle := Nat.not_lt.mp hl
    cases path.names.getLast? with
    | none => simp [hle, pure, Except.pure]
    | some name =>
      dsimp only
      cases hw : tree.walk (tree.start path) path.names.dropLast with
      | error fault => simp [bind, Except.bind]
      | ok directory =>
        cases hn : checkName name with
        | error fault => simp [bind, Except.bind, hn]
        | ok u =>
          simp only [bind, Except.bind, hle, true_and, reduceCtorEq, false_and, false_or]
          split <;> simp_all [pure, Except.pure]

theorem DirectoriesKept.place_eq (h : DirectoriesKept before after)
    (hp : before.place path = .ok place) : after.place path = .ok place := by
  have hs : after.start path = before.start path := by rw [start, start, h.1]
  rw [place_eq_ok_iff] at hp ⊢
  rw [hs]
  obtain ⟨hl, hp | ⟨name, directory, hname, hw, hn, hp⟩⟩ := hp
  · exact ⟨hl, .inl hp⟩
  · exact ⟨hl, .inr ⟨name, directory, hname, h.walk hw, hn, hp⟩⟩

/-- A path leads to where its names lead. -/
theorem locate_of_named (h : tree.place path = .ok (.named location)) :
    tree.locate path = location ∧ location ≠ [] := by
  obtain ⟨-, ⟨-, hp⟩ | ⟨name, directory, hname, hw, -, hp⟩⟩ := place_eq_ok_iff.mp h
  · cases hp
  · by_cases hd : name = ".."
    · rw [if_pos hd] at hp
      cases hp
    · rw [if_neg hd] at hp
      obtain rfl := Place.named.inj hp
      obtain ⟨names, hnames⟩ := List.getLast?_eq_some_iff.mp hname
      rw [hnames, List.dropLast_concat] at hw
      refine ⟨?_, by simp⟩
      rw [locate, hnames, List.foldl_append, eq_foldl_of_walk hw, List.foldl_cons, List.foldl_nil,
        step, if_neg hd]

/-! ## What can be done at a location -/

theorem file_eq_ok_iff {content : Bytes} : tree.file path = .ok content ↔
    tree.place path = .ok (.named (tree.locate path)) ∧
      tree.get? (tree.locate path) = some (.file content) := by
  unfold file
  cases hp : tree.place path with
  | error fault => simp [bind, Except.bind]
  | ok place =>
    cases place with
    | passed location => simp [bind, Except.bind]
    | named location =>
      rw [(locate_of_named hp).1]
      simp only [bind, Except.bind, true_and]
      split <;> simp_all [pure, Except.pure]

theorem makeDirectory_eq_ok_iff : before.makeDirectory path = .ok after ↔
    before.place path = .ok (.named (before.locate path)) ∧
      before.get? (before.locate path) = none ∧
        before.insert (before.locate path) .directory = after := by
  unfold makeDirectory
  cases hp : before.place path with
  | error fault => simp [bind, Except.bind]
  | ok place =>
    cases place with
    | passed location => simp [bind, Except.bind]
    | named location =>
      rw [(locate_of_named hp).1]
      simp only [bind, Except.bind, true_and]
      split <;> simp_all [pure, Except.pure]

theorem fill_eq_ok_iff {content : Bytes} : before.fill path content = .ok after ↔
    before.place path = .ok (.named (before.locate path)) ∧
      before.get? (before.locate path) ≠ some .directory ∧
        before.insert (before.locate path) (.file content) = after := by
  unfold fill
  cases hp : before.place path with
  | error fault => simp [bind, Except.bind]
  | ok place =>
    cases place with
    | passed location => simp [bind, Except.bind]
    | named location =>
      rw [(locate_of_named hp).1]
      simp only [bind, Except.bind, true_and]
      split <;> simp_all [pure, Except.pure]

theorem rename_eq_ok_iff {target : Path} : before.rename path target = .ok after ↔
    before.place path = .ok (.named (before.locate path)) ∧
      before.place target = .ok (.named (before.locate target)) ∧
        before.get? (before.locate target) ≠ some .directory ∧
          ∃ content, before.get? (before.locate path) = some (.file content) ∧
            (before.erase (before.locate path)).insert (before.locate target) (.file content) =
              after := by
  unfold rename
  cases hp : before.place path with
  | error fault => simp [bind, Except.bind]
  | ok first =>
    cases ht : before.place target with
    | error fault => simp [bind, Except.bind]
    | ok second =>
      cases first with
      | passed source => simp [bind, Except.bind]
      | named source =>
        cases second with
        | passed location => simp [bind, Except.bind]
        | named location =>
          rw [(locate_of_named hp).1, (locate_of_named ht).1]
          simp only [bind, Except.bind, true_and]
          cases hs : before.get? source with
          | none => simp
          | some entry =>
            cases entry with
            | directory => simp
            | file content =>
              dsimp only
              split <;> simp_all [pure, Except.pure]

theorem remove_eq_ok_iff : before.remove path = .ok after ↔
    before.place path = .ok (.named (before.locate path)) ∧
      (∃ content, before.get? (before.locate path) = some (.file content)) ∧
        before.erase (before.locate path) = after := by
  unfold remove
  cases hp : before.place path with
  | error fault => simp [bind, Except.bind]
  | ok place =>
    cases place with
    | passed location => simp [bind, Except.bind]
    | named location =>
      rw [(locate_of_named hp).1]
      simp only [bind, Except.bind, true_and]
      split <;> simp_all [pure, Except.pure]

/-- A file that a path leads to can be removed, and there is none then. -/
theorem fileAt?_of_remove (h : before.remove path = .ok after) :
    after.fileAt? (before.locate path) = none := by
  obtain ⟨hp, -, rfl⟩ := remove_eq_ok_iff.mp h
  rw [fileAt?, get?_erase_self (locate_of_named hp).2]

/-! ## What changes leave -/

/-- What stands at a location is what stood there, or it is a directory where nothing was. -/
def Kept (before after : FileTree) (location : Location) : Prop :=
  after.get? location = before.get? location ∨
    before.get? location = none ∧ after.get? location = some .directory

theorem Kept.trans {between : FileTree} (h : Kept before between location)
    (h' : Kept between after location) : Kept before after location := by
  rcases h with h | ⟨hn, hd⟩
  · rw [Kept, h] at h'
    exact h'
  · rcases h' with h' | ⟨hn', -⟩
    · exact .inr ⟨hn, h'.trans hd⟩
    · rw [hd] at hn'
      cases hn'

theorem Kept.fileAt?_eq (h : Kept before after location) :
    after.fileAt? location = before.fileAt? location := by
  rcases h with h | ⟨hn, hd⟩
  · exact fileAt?_of_get?_eq h
  · rw [fileAt?, fileAt?, hn, hd]

/-- Directories have been added where a path leads or one that it starts with, and nothing else has
been done. -/
structure Furnished (path : Path) (before after : FileTree) : Prop where
  workingDirectory : after.workingDirectory = before.workingDirectory
  only : ∀ location, after.get? location = before.get? location ∨
    before.get? location = none ∧ after.get? location = some .directory ∧
      ∃ names, names <+: path.names ∧ before.locate { path with names } = location

namespace Furnished

theorem refl (path : Path) (tree : FileTree) : Furnished path tree tree := ⟨rfl, fun _ => .inl rfl⟩

theorem kept (h : Furnished path before after) (location : Location) :
    Kept before after location := by
  rcases h.only location with hs | ⟨hn, hd, -⟩
  · exact .inl hs
  · exact .inr ⟨hn, hd⟩

theorem locate_eq (h : Furnished path before after) (other : Path) :
    after.locate other = before.locate other :=
  locate_congr h.workingDirectory other

theorem trans {between : FileTree} (h : Furnished path before between)
    (h' : Furnished path between after) : Furnished path before after := by
  refine ⟨h'.workingDirectory.trans h.workingDirectory, fun location => ?_⟩
  rcases h'.only location with hs | ⟨hn, hd, names, hp, hl⟩
  · rw [hs]
    exact h.only location
  · rw [h.locate_eq] at hl
    rcases h.only location with hs | ⟨-, hd', -⟩
    · exact .inr ⟨hs.symm.trans hn, hd, names, hp, hl⟩
    · rw [hd'] at hn
      cases hn

theorem of_parent (h : Furnished path.parent before after) : Furnished path before after := by
  refine ⟨h.workingDirectory, fun location => ?_⟩
  rcases h.only location with hs | ⟨hn, hd, names, hp, hl⟩
  · exact .inl hs
  · exact .inr ⟨hn, hd, names, hp.trans (List.dropLast_prefix path.names), hl⟩

theorem directoriesKept (h : Furnished path before after) : DirectoriesKept before after := by
  refine ⟨h.workingDirectory, fun location hd => ?_⟩
  rcases h.only location with hs | ⟨hn, -⟩
  · rw [hs, hd]
  · rw [hd] at hn
    cases hn

theorem of_makeDirectory (h : before.makeDirectory path = .ok after) :
    Furnished path before after := by
  obtain ⟨hp, hn, rfl⟩ := makeDirectory_eq_ok_iff.mp h
  refine ⟨rfl, fun location => ?_⟩
  by_cases hl : location = before.locate path
  · subst hl
    exact .inr ⟨hn, get?_insert_self (locate_of_named hp).2, path.names, List.prefix_rfl, rfl⟩
  · exact .inl (get?_insert_of_ne hl)

end Furnished

/-- Putting a file where no directory is leaves all directories. -/
theorem directoriesKept_insert (content : Bytes) (h : before.get? location ≠ some .directory) :
    DirectoriesKept before (before.insert location (.file content)) := by
  refine ⟨rfl, fun other hd => ?_⟩
  have hne : other ≠ location := fun he => h (he ▸ hd)
  rw [get?_insert_of_ne hne, hd]

theorem directoriesKept_erase (h : before.get? location ≠ some .directory) :
    DirectoriesKept before (before.erase location) := by
  refine ⟨rfl, fun other hd => ?_⟩
  have hne : other ≠ location := fun he => h (he ▸ hd)
  rw [get?_erase_of_ne hne, hd]

theorem DirectoriesKept.trans {between : FileTree} (h : DirectoriesKept before between)
    (h' : DirectoriesKept between after) : DirectoriesKept before after :=
  ⟨h'.1.trans h.1, fun location hd => h'.2 location (h.2 location hd)⟩

/-- A file is found by the same path as before, if it is still there and so are the directories. -/
theorem DirectoriesKept.file_eq {content : Bytes} (h : DirectoriesKept before after)
    (hf : before.file path = .ok content)
    (hg : after.get? (before.locate path) = before.get? (before.locate path)) :
    after.file path = .ok content := by
  obtain ⟨hp, hc⟩ := file_eq_ok_iff.mp hf
  have hl := locate_congr h.1 path
  exact file_eq_ok_iff.mpr ⟨by rw [hl]; exact h.place_eq hp, by rw [hl, hg, hc]⟩

/-- Directories that are made on the way are in the way of no file. -/
theorem Furnished.file_eq {other : Path} {content : Bytes} (h : Furnished path before after)
    (hf : before.file other = .ok content) : after.file other = .ok content := by
  refine h.directoriesKept.file_eq hf ?_
  rcases h.only (before.locate other) with hs | ⟨hn, -⟩
  · exact hs
  · rw [(file_eq_ok_iff.mp hf).2] at hn
    cases hn

/-- A file that has been written can be written again. -/
theorem exists_fill_of_fill {content : Bytes} (h : before.fill path content = .ok after)
    (other : Bytes) : ∃ tree, after.fill path other = .ok tree := by
  obtain ⟨hp, hd, rfl⟩ := fill_eq_ok_iff.mp h
  have hl := (directoriesKept_insert content hd).place_eq hp
  refine ⟨_, fill_eq_ok_iff.mpr ⟨hl, ?_, rfl⟩⟩
  change (before.insert _ _).get? (before.locate path) ≠ _
  rw [get?_insert_self (locate_of_named hp).2]
  simp

end Checkpoint.FileTree
