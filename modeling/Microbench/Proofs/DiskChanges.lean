import Mathlib.Data.List.Nodup
import Microbench.Proofs.Labels
import Microbench.Proofs.PathParts
import Microbench.Proofs.Places
/-!
What the operations on a disk change.

Replacing a file changes what stands at one place and nothing else: the draft goes under a
name that nothing has and is gone in the end. Making directories only adds directories, each
at a place that one passes on the way to the directory that was asked for.
-/
namespace Microbench

namespace FileTree

theorem isDirectory_iff (tree : FileTree) (place : Place) :
    tree.isDirectory place = true ↔ tree.get? place = some .directory := by
  unfold isDirectory
  split <;> simp_all

theorem draftName_injective (first second : Nat) (same : draftName first = draftName second) :
    first = second := by
  have numbers := numbered_injective ".tmp" _ _ same
  omega

theorem freshName_free (tree : FileTree) (directory : Place) :
    tree.get? (directory ++ [tree.freshName directory]) = none := by
  -- the names that are tried are more than the entries, and no two of them are the same
  have listed (name : String) (taken : (tree.get? (directory ++ [name])).isSome) :
      directory ++ [name] ∈ tree.entries.map Prod.fst := by
    rw [get?, if_neg (by simp), List.lookup_isSome_iff] at taken
    obtain ⟨entry, member, same⟩ := taken
    rw [beq_iff_eq.mp same]
    exact List.mem_map_of_mem member
  let names := (List.range (tree.entries.length + 1)).map draftName
  cases found : names.find? fun name => (tree.get? (directory ++ [name])).isNone with
  | some name =>
      have free := List.find?_some found
      have chosen : tree.freshName directory = name := by
        rw [freshName, found, Option.getD_some]
      rw [chosen]
      exact Option.isNone_iff_eq_none.mp free
  | none =>
      have distinct : (names.map fun name => directory ++ [name]).Nodup := by
        rw [List.map_map]
        apply List.Nodup.map_on _ List.nodup_range
        intro first _ second _ same
        exact draftName_injective first second (by simpa using same)
      have taken : (names.map fun name => directory ++ [name]) ⊆ tree.entries.map Prod.fst := by
        intro place member
        obtain ⟨name, named, rfl⟩ := List.mem_map.mp member
        apply listed name
        have missed := List.find?_eq_none.mp found name named
        exact Option.isSome_iff_ne_none.mpr (mt Option.isNone_iff_eq_none.mpr missed)
      have fewer := distinct.length_le_of_subset taken
      simp only [names, List.length_map, List.length_range] at fewer
      omega

end FileTree

namespace Disk

section files

structure Replaces (before after : Disk) (path : String) (content : ByteArray)
    (place : Place) : Prop where
  working : after.working = before.working
  file : Path.endsInSlash path = false
  located : after.locate path = .ok place
  written : after.tree.get? place = some (.file content)
  spared : before.tree.get? place ≠ some .directory
  others : ∀ other, other ≠ place → after.tree.get? other = before.tree.get? other

theorem Replaces.grows {before after : Disk} {path : String} {content : ByteArray} {place : Place}
    (replaces : Replaces before after path content place) :
    FileTree.Grows before.tree after.tree := by
  constructor
  case directory =>
    intro other found
    have different : other ≠ place := by
      rintro rfl
      exact replaces.spared found
    rw [replaces.others other different, found]
  case file =>
    intro other older found
    by_cases same : other = place
    · subst same
      exact ⟨content, replaces.written⟩
    · exact ⟨older, by rw [replaces.others other same, found]⟩

structure TakesFile (disk : Disk) (path : String) (parent : Place) (name : String) : Prop where
  targets : disk.Targets path parent name
  file : Path.endsInSlash path = false
  short : name.utf8ByteSize ≤ nameLimit
  spared : disk.tree.get? (parent ++ [name]) ≠ some .directory

/-- Whatever leaves the other entries alone and writes the file of a path has replaced it. -/
theorem TakesFile.replaces {before after : Disk} {path : String} {parent : Place} {name : String}
    (takes : before.TakesFile path parent name) (content : ByteArray)
    (working : after.working = before.working)
    (written : after.tree.get? (parent ++ [name]) = some (.file content))
    (others : ∀ other, other ≠ parent ++ [name] →
      after.tree.get? other = before.tree.get? other) :
    Replaces before after path content (parent ++ [name]) := by
  obtain ⟨targets, file, short, spared⟩ := takes
  refine ⟨working, file, ?_, written, spared, others⟩
  refine (targets.of_directories working ?_).locate short (by simp [written]) file
  intro place found
  have different : place ≠ parent ++ [name] := by
    rintro rfl
    exact spared found
  rw [others place different, found]

/-- The checks that every operation makes before it writes a file under a path. -/
theorem takesFile_iff (disk : Disk) (path : String) (parent : Place) (name : String) :
    disk.TakesFile path parent name ↔ disk.target path = .ok (parent, some name) ∧
      ¬ Path.endsInSlash path = true ∧ checkName name = .ok () ∧
      ¬ disk.tree.isDirectory (parent ++ [name]) = true := by
  rw [target_iff, checkName_ok_iff, FileTree.isDirectory_iff, Bool.not_eq_true]
  exact ⟨fun ⟨targets, file, short, spared⟩ => ⟨targets, file, short, spared⟩,
    fun ⟨targets, file, short, spared⟩ => ⟨targets, file, short, spared⟩⟩

theorem overwrite_ok_iff {disk changed : Disk} {path content : String} :
    disk.overwrite path content = .ok changed ↔
      ∃ parent name, disk.TakesFile path parent name ∧ changed = { disk with
        tree := disk.tree.put (parent ++ [name]) (.file content.toUTF8) } := by
  rw [overwrite, bind_ok_iff]
  constructor
  · rintro ⟨⟨parent, _ | name⟩, found, done⟩
    · cases done
    · simp only [unless_ok_iff, bind_ok_iff] at done
      obtain ⟨file, _, named, spared, done⟩ := done
      cases done
      exact ⟨parent, name, (takesFile_iff ..).mpr ⟨found, file, named, spared⟩, rfl⟩
  · rintro ⟨parent, name, takes, rfl⟩
    obtain ⟨found, file, named, spared⟩ := (takesFile_iff ..).mp takes
    refine ⟨_, found, ?_⟩
    simp only [unless_ok_iff, bind_ok_iff]
    exact ⟨file, (), named, spared, rfl⟩

/-- Overwriting a file replaces it in one step. -/
theorem overwrite_replaces {disk changed : Disk} {path content : String}
    (done : disk.overwrite path content = .ok changed) :
    ∃ place, Replaces disk changed path content.toUTF8 place := by
  obtain ⟨parent, name, takes, rfl⟩ := overwrite_ok_iff.mp done
  refine ⟨parent ++ [name], takes.replaces _ rfl ?_ ?_⟩
  · exact FileTree.get?_put_self _ _ _ (by simp)
  · exact fun other different => FileTree.get?_put_ne _ _ different

theorem moveFile_ok {disk after : Disk} {source : Place} {path : String} {content : ByteArray}
    (held : disk.tree.get? source = some (.file content))
    (moved : disk.moveFile source path = .ok after) :
    ∃ parent name, disk.TakesFile path parent name ∧ after = { disk with
      tree := (disk.tree.erase source).put (parent ++ [name]) (.file content) } := by
  rw [moveFile, bind_ok_iff] at moved
  obtain ⟨⟨parent, _ | name⟩, found, moved⟩ := moved
  · cases moved
  · simp only [held, unless_ok_iff, bind_ok_iff] at moved
    obtain ⟨file, _, named, spared, moved⟩ := moved
    cases moved
    exact ⟨parent, name, (takesFile_iff ..).mpr ⟨found, file, named, spared⟩, rfl⟩

theorem createDraft_ok {disk opened : Disk} {directory : String} {draft : Place}
    (created : disk.createDraft directory = .ok (opened, draft)) :
    draft ≠ [] ∧ disk.tree.get? draft = none ∧
      opened = { disk with tree := disk.tree.put draft (.file ByteArray.empty) } := by
  simp only [createDraft, bind_ok_iff] at created
  obtain ⟨parent, _, _, _, _, _, created⟩ := created
  cases created
  exact ⟨by simp, disk.tree.freshName_free parent, rfl⟩

theorem TakesFile.without_draft {disk : Disk} {full : FileTree} {draft : Place}
    {content : ByteArray} (free : disk.tree.get? draft = none)
    (held : full.get? draft = some (.file content))
    (spares : ∀ other, other ≠ draft → full.get? other = disk.tree.get? other)
    {path : String} {parent : Place} {name : String}
    (takes : TakesFile { disk with tree := full } path parent name) :
    disk.TakesFile path parent name := by
  -- the draft is a file under a name that was free: no directory on the way to the path, and
  -- no directory stood there before
  have kept (place : Place) (found : full.get? place = some .directory) :
      disk.tree.get? place = some .directory := by
    have different : place ≠ draft := by
      rintro rfl
      rw [held] at found
      cases found
    rw [← spares place different, found]
  refine ⟨takes.targets.of_directories rfl kept, takes.file, takes.short, ?_⟩
  intro directory
  apply takes.spared
  have different : parent ++ [name] ≠ draft := by
    intro same
    rw [same, free] at directory
    cases directory
  rw [spares _ different, directory]

theorem replaceFile_done {disk after : Disk} {path content : String}
    (done : disk.replaceFile path content = (after, none)) :
    ∃ place, Replaces disk after path content.toUTF8 place := by
  unfold replaceFile at done
  cases created : disk.createDraft (Path.directory path) with
  | error fault => simp [created] at done
  | ok result =>
      obtain ⟨opened, draft⟩ := result
      obtain ⟨below, free, rfl⟩ := createDraft_ok created
      simp only [created] at done
      -- the tree with the draft in it is the one that the file is moved in
      generalize drafted : (disk.tree.put draft (.file ByteArray.empty)).put draft
        (.file content.toUTF8) = full at done
      have held : full.get? draft = some (.file content.toUTF8) := by
        rw [← drafted, FileTree.get?_put_self _ _ _ below]
      have spares (other : Place) (different : other ≠ draft) :
          full.get? other = disk.tree.get? other := by
        rw [← drafted, FileTree.get?_put_ne _ _ different, FileTree.get?_put_ne _ _ different]
      cases moved : moveFile { disk with tree := full } draft path with
      | error fault => simp [moved] at done
      | ok final =>
          simp only [moved, Prod.mk.injEq, and_true] at done
          subst done
          obtain ⟨parent, name, takes, rfl⟩ := moveFile_ok held moved
          refine ⟨parent ++ [name], (takes.without_draft free held spares).replaces _ rfl ?_ ?_⟩
          · exact FileTree.get?_put_self _ _ _ (by simp)
          · intro other different
            rw [FileTree.get?_put_ne _ _ different]
            by_cases same : other = draft
            · rw [same, FileTree.get?_erase_self _ _ below, free]
            · rw [FileTree.get?_erase_ne _ same, spares other same]

/-- A draft is begun beside a path and taken away again, whatever was written to it. -/
def Drops (before after : Disk) (path : String) : Prop :=
  ∃ opened draft part, before.createDraft (Path.directory path) = .ok (opened, draft) ∧
    after = { opened with tree := (opened.tree.put draft (.file part)).erase draft }

theorem Drops.same {before after : Disk} {path : String} (drops : Drops before after path) :
    after.working = before.working ∧
      ∀ place, after.tree.get? place = before.tree.get? place := by
  -- the draft had a name that nothing else has, so nothing is left of it
  obtain ⟨opened, draft, part, created, rfl⟩ := drops
  obtain ⟨below, free, rfl⟩ := createDraft_ok created
  refine ⟨rfl, fun place => ?_⟩
  by_cases same : place = draft
  · subst same
    exact (FileTree.get?_erase_self _ _ below).trans free.symm
  · rw [FileTree.get?_erase_ne _ same, FileTree.get?_put_ne _ _ same,
      FileTree.get?_put_ne _ _ same]

/-- A file that cannot be replaced leaves nothing behind, not even its draft. -/
theorem replaceFile_drops {disk left : Disk} {path content : String} {fault : PathFault}
    (failed : disk.replaceFile path content = (left, some fault)) :
    left = disk ∨ Drops disk left path := by
  unfold replaceFile at failed
  cases created : disk.createDraft (Path.directory path) with
  | error fault =>
      simp only [created, Prod.mk.injEq] at failed
      exact .inl failed.1.symm
  | ok result =>
      obtain ⟨opened, draft⟩ := result
      simp only [created] at failed
      split at failed
      · simp at failed
      · simp only [Prod.mk.injEq] at failed
        exact .inr ⟨opened, draft, content.toUTF8, created, failed.1.symm⟩

theorem read_of_located {disk : Disk} {path : String} {place : Place} {content : ByteArray}
    (located : disk.locate path = .ok place)
    (held : disk.tree.get? place = some (.file content)) : disk.read path = .ok content := by
  simp [read, located, held, bind, Except.bind, pure, Except.pure]

end files

section directories

def Passes (disk : Disk) (path : String) (place : Place) : Prop :=
  ∃ front, front <+: Path.segments path ∧
    walk disk.tree (disk.start path) front = .ok place

/-- Directories were added on the way along some paths, and nothing else changed. -/
structure Opens (before after : Disk) (paths : List String) : Prop where
  working : after.working = before.working
  kept : ∀ place entry, before.tree.get? place = some entry → after.tree.get? place = some entry
  added : ∀ place, before.tree.get? place = none → after.tree.get? place ≠ none →
    after.tree.get? place = some .directory ∧ ∃ path ∈ paths, after.Passes path place

namespace Opens

theorem grows {before after : Disk} {paths : List String} (opens : Opens before after paths) :
    FileTree.Grows before.tree after.tree :=
  ⟨fun place found => opens.kept place _ found, fun place content found =>
    ⟨content, opens.kept place _ found⟩⟩

theorem refl (disk : Disk) (paths : List String) : Opens disk disk paths :=
  ⟨rfl, fun _ _ found => found, fun _ absent present => absurd absent present⟩

theorem widen {before after : Disk} {few many : List String} (opens : Opens before after few)
    (more : ∀ path ∈ few, path ∈ many) : Opens before after many := by
  refine ⟨opens.working, opens.kept, fun place absent present => ?_⟩
  obtain ⟨directory, path, member, passes⟩ := opens.added place absent present
  exact ⟨directory, path, more path member, passes⟩

end Opens

theorem Passes.of_grows {before after : Disk} {path : String} {place : Place}
    (passes : before.Passes path place) (working : after.working = before.working)
    (grows : FileTree.Grows before.tree after.tree)
    (there : (before.tree.get? place).isSome) : after.Passes path place := by
  obtain ⟨front, begins, walked⟩ := passes
  have begun : after.start path = before.start path := by rw [start, start, working]
  exact ⟨front, begins, begun ▸ walk_of_grows grows walked there⟩

theorem Opens.trans {first second third : Disk} {paths : List String}
    (early : Opens first second paths) (late : Opens second third paths) :
    Opens first third paths := by
  refine ⟨late.working.trans early.working, ?_, ?_⟩
  · exact fun place entry found => late.kept place entry (early.kept place entry found)
  · intro place absent present
    cases middle : second.tree.get? place with
    | none => exact late.added place middle present
    | some entry =>
        have between : second.tree.get? place ≠ none := by simp [middle]
        obtain ⟨directory, path, member, passes⟩ := early.added place absent between
        exact ⟨late.kept place _ directory, path, member,
          passes.of_grows late.working late.grows (by simp [directory])⟩

/-- A directory is made where there is nothing, as an entry of a directory that exists. -/
theorem makeDirectory_ok {disk made : Disk} {path : String}
    (done : disk.makeDirectory path = .ok made) :
    ∃ parent name, disk.Targets path parent name ∧ name.utf8ByteSize ≤ nameLimit ∧
      disk.tree.get? (parent ++ [name]) = none ∧
      made = { disk with tree := disk.tree.put (parent ++ [name]) .directory } := by
  rw [makeDirectory, bind_ok_iff] at done
  obtain ⟨⟨parent, _ | name⟩, found, done⟩ := done
  · cases done
  · simp only [unless_ok_iff, bind_ok_iff] at done
    obtain ⟨_, named, free, done⟩ := done
    cases done
    exact ⟨parent, name, (target_iff ..).mp found, (checkName_ok_iff name).mp named,
      by simpa using free, rfl⟩

theorem makeDirectory_opens {disk made : Disk} {path : String}
    (done : disk.makeDirectory path = .ok made) : Opens disk made [path] := by
  obtain ⟨parent, name, targets, short, free, rfl⟩ := makeDirectory_ok done
  have grows := FileTree.Grows.of_put_new disk.tree (parent ++ [name]) .directory free
  have there : (disk.tree.put (parent ++ [name]) .directory).get? (parent ++ [name]) =
      some .directory := FileTree.get?_put_self _ _ _ (by simp)
  refine ⟨rfl, ?_, ?_⟩
  · intro place entry old
    have different : place ≠ parent ++ [name] := by
      rintro rfl
      rw [free] at old
      cases old
    exact (FileTree.get?_put_ne _ _ different).trans old
  · intro place absent present
    have same : place = parent ++ [name] := by
      by_contra different
      exact present ((FileTree.get?_put_ne _ _ different).trans absent)
    subst same
    have after : Targets ⟨disk.tree.put (parent ++ [name]) .directory, disk.working⟩ path parent
        name := targets.of_directories rfl grows.directory
    obtain ⟨_, ⟨names, split, walked⟩, directory, notHere, notUp⟩ := after
    refine ⟨there, path, List.mem_singleton_self path, _, List.prefix_refl _, ?_⟩
    rw [split]
    exact (walk_append_iff ..).mpr ⟨parent, walked, (walk_single_iff ..).mpr
      ⟨directory, .inr (.inr ⟨notHere, notUp, short, by simp [there], rfl⟩)⟩⟩

inductive Makes (paths : List String) : Disk → Disk → Prop where
  | none (disk : Disk) : Makes paths disk disk
  | one {before middle after : Disk} {path : String} (member : path ∈ paths)
      (made : before.makeDirectory path = .ok middle) (others : Makes paths middle after) :
      Makes paths before after

namespace Makes

variable {paths : List String} {before middle after : Disk}

theorem opens (makes : Makes paths before after) : Opens before after paths := by
  induction makes with
  | none disk => exact Opens.refl disk paths
  | one member made others ih =>
      exact ((makeDirectory_opens made).widen (by simpa using member)).trans ih

theorem widen {more : List String} (makes : Makes paths before after)
    (inside : ∀ path ∈ paths, path ∈ more) : Makes more before after := by
  induction makes with
  | none disk => exact .none disk
  | one member made others ih => exact .one (inside _ member) made ih

theorem last {path : String} (makes : Makes paths before middle) (member : path ∈ paths)
    (made : middle.makeDirectory path = .ok after) : Makes paths before after := by
  induction makes with
  | none disk => exact .one member made (.none after)
  | one other first others ih => exact .one other first (ih made)

end Makes

theorem makeFirst_makes (disk : Disk) (paths : List String) :
    Makes paths disk (disk.makeFirst paths).1 := by
  -- the paths above are tried first, so the induction is on the list of them
  induction paths with
  | nil => exact .none disk
  | cons path above ih =>
      have higher : Makes (path :: above) disk (disk.makeFirst above).1 :=
        ih.widen fun other member => List.mem_cons_of_mem path member
      rw [makeFirst]
      split
      · next made done => exact .one List.mem_cons_self done (.none made)
      · generalize result : disk.makeFirst above = climbed at higher
        obtain ⟨made, stopped⟩ := climbed
        cases stopped with
        | some fault => exact higher
        | none =>
            simp only
            split
            · next final done => exact higher.last List.mem_cons_self done
            · split <;> exact higher
      · split <;> exact .none disk

def lineage (path : String) : List String :=
  (Path.ancestors path).filter fun above => !Path.isBare above

/-- What is above a path is on the way along it. -/
theorem Opens.of_lineage {before after : Disk} {path : String}
    (opens : Opens before after (lineage path)) : Opens before after [path] := by
  refine ⟨opens.working, opens.kept, fun place absent present => ?_⟩
  obtain ⟨directory, above, member, front, begins, walked⟩ := opens.added place absent present
  obtain ⟨shorter, rooted⟩ := Path.ancestors_begin path above (List.mem_filter.mp member).1
  refine ⟨directory, path, List.mem_singleton_self path, front, begins.trans shorter, ?_⟩
  rwa [start, rooted] at walked

/-- Making directories adds those that are missing on the way along the path. -/
theorem makeDirectories_makes (disk : Disk) (path : String) :
    Makes (lineage path) disk (disk.makeDirectories path).1 := disk.makeFirst_makes _

end directories

end Disk

end Microbench
