import Mathlib.Data.List.Basic
import Microbench.FileTree.Access
/-!
Where paths lead while a tree of files changes.

A path is followed through directories, so a tree that keeps its directories keeps the places
that paths lead to. Everything that a run does to a tree lets it grow in this sense: entries
are added and files get new contents, but nothing that is there goes away or turns into an
entry of the other kind.
-/
namespace Microbench

namespace FileTree

/-- What was there is still there, directories as directories and files as files. -/
structure Grows (before after : FileTree) : Prop where
  directory : ∀ place, before.get? place = some .directory → after.get? place = some .directory
  file : ∀ place content, before.get? place = some (.file content) →
    ∃ newer, after.get? place = some (.file newer)

namespace Grows

theorem trans {first second third : FileTree} (early : Grows first second)
    (late : Grows second third) : Grows first third := by
  constructor
  case directory => exact fun place found => late.directory place (early.directory place found)
  case file =>
    intro place content found
    obtain ⟨newer, middle⟩ := early.file place content found
    exact late.file place newer middle

theorem present {before after : FileTree} (grows : Grows before after) (place : Place)
    (there : (before.get? place).isSome) : (after.get? place).isSome := by
  obtain ⟨entry, found⟩ := Option.isSome_iff_exists.mp there
  cases entry with
  | directory => simp [grows.directory place found]
  | file content =>
      obtain ⟨newer, later⟩ := grows.file place content found
      simp [later]

theorem of_put_new (tree : FileTree) (place : Place) (entry : Entry)
    (free : tree.get? place = none) : Grows tree (tree.put place entry) := by
  have kept (other : Place) (old : Entry) (found : tree.get? other = some old) :
      (tree.put place entry).get? other = some old := by
    have different : other ≠ place := by
      rintro rfl
      rw [free] at found
      cases found
    rw [get?_put_ne tree _ different, found]
  exact ⟨fun other found => kept other _ found, fun other content found =>
    ⟨content, kept other _ found⟩⟩

end Grows

end FileTree

namespace Disk

section checks

theorem bind_ok_iff {α β : Type} (first : Except PathFault α) (next : α → Except PathFault β)
    (result : β) : (first >>= next) = .ok result ↔
      ∃ value, first = .ok value ∧ next value = .ok result := by
  cases first <;> simp [bind, Except.bind]

theorem unless_ok_iff {α : Type} (refused : Prop) [Decidable refused] (fault : PathFault)
    (next : Unit → Except PathFault α) (result : α) :
    (if refused then Except.error fault >>= next else next ()) = .ok result ↔
      ¬ refused ∧ next () = .ok result := by
  split <;> simp [*, bind, Except.bind]

theorem checkName_ok_iff (name : String) {done : Unit} :
    checkName name = .ok done ↔ name.utf8ByteSize ≤ nameLimit := by
  unfold checkName
  split <;> simp_all

theorem requireDirectory_ok_iff (tree : FileTree) (place : Place) {done : Unit} :
    requireDirectory tree place = .ok done ↔ tree.get? place = some .directory := by
  unfold requireDirectory
  split <;> simp_all

end checks

section walking

def Follows (tree : FileTree) (place : Place) (name : String) (next : Place) : Prop :=
  tree.get? place = some .directory ∧
    (name = "." ∧ next = place ∨ name = ".." ∧ next = place.dropLast ∨
      name ≠ "." ∧ name ≠ ".." ∧ name.utf8ByteSize ≤ nameLimit ∧
        (tree.get? (place ++ [name])).isSome ∧ next = place ++ [name])

theorem walk_cons_iff (tree : FileTree) (place found : Place) (name : String)
    (rest : List String) : walk tree place (name :: rest) = .ok found ↔
      ∃ next, Follows tree place name next ∧ walk tree next rest = .ok found := by
  rw [walk, bind_ok_iff]
  simp only [requireDirectory_ok_iff, Follows]
  by_cases here : name = "."
  · simp [here]
  · by_cases up : name = ".."
    · simp [up]
    · by_cases long : nameLimit < name.utf8ByteSize
      · simp [here, up, long, Nat.not_le.mpr long]
      · by_cases missing : (tree.get? (place ++ [name])).isNone
        · have absent := Option.isNone_iff_eq_none.mp missing
          simp [here, up, long, absent]
        · have present := Option.isSome_iff_ne_none.mpr (mt Option.isNone_iff_eq_none.mpr missing)
          simp [here, up, long, missing, Nat.not_lt.mp long, present]

theorem walk_append_iff (tree : FileTree) (place found : Place) (front back : List String) :
    walk tree place (front ++ back) = .ok found ↔
      ∃ middle, walk tree place front = .ok middle ∧ walk tree middle back = .ok found := by
  induction front generalizing place with
  | nil => simp [walk]
  | cons name rest ih =>
      simp only [List.cons_append, walk_cons_iff, ih]
      constructor
      · rintro ⟨next, follows, middle, early, late⟩
        exact ⟨middle, ⟨next, follows, early⟩, late⟩
      · rintro ⟨middle, ⟨next, follows, early⟩, late⟩
        exact ⟨next, follows, middle, early, late⟩

theorem walk_single_iff (tree : FileTree) (place found : Place) (name : String) :
    walk tree place [name] = .ok found ↔ Follows tree place name found := by
  rw [walk_cons_iff]
  constructor
  · rintro ⟨next, follows, same⟩
    cases same
    exact follows
  · exact fun follows => ⟨found, follows, rfl⟩

theorem walk_of_directories {before after : FileTree} {place found : Place} {names : List String}
    (kept : ∀ other, before.get? other = some .directory → after.get? other = some .directory)
    (walked : walk before place names = .ok found) (present : (after.get? found).isSome) :
    walk after place names = .ok found := by
  -- every place on the way is a directory, as the next name starts from it. Only the last one has
  -- to be found in the other tree too.
  induction names generalizing place with
  | nil => exact walked
  | cons name rest ih =>
      obtain ⟨next, ⟨there, moved⟩, later⟩ := (walk_cons_iff ..).mp walked
      have behind := ih later
      refine (walk_cons_iff ..).mpr ⟨next, ⟨kept place there, ?_⟩, behind⟩
      rcases moved with here | up | ⟨notHere, notUp, short, _, rfl⟩
      · exact .inl here
      · exact .inr (.inl up)
      · refine .inr (.inr ⟨notHere, notUp, short, ?_, rfl⟩)
        cases rest with
        | nil =>
            cases later
            exact present
        | cons name rest =>
            obtain ⟨_, ⟨directory, _⟩, _⟩ := (walk_cons_iff ..).mp later
            simp [kept _ directory]

theorem walk_of_grows {before after : FileTree} {place found : Place} {names : List String}
    (grows : FileTree.Grows before after) (walked : walk before place names = .ok found)
    (there : (before.get? found).isSome) : walk after place names = .ok found :=
  walk_of_directories grows.directory walked (grows.present found there)

end walking

section targets

structure Targets (disk : Disk) (path : String) (parent : Place) (name : String) : Prop where
  text : checkText path = .ok ()
  front : ∃ names, Path.segments path = names ++ [name] ∧
    walk disk.tree (disk.start path) names = .ok parent
  directory : disk.tree.get? parent = some .directory
  notHere : name ≠ "."
  notUp : name ≠ ".."

theorem target_iff (disk : Disk) (path : String) (parent : Place) (name : String) :
    disk.target path = .ok (parent, some name) ↔ disk.Targets path parent name := by
  rw [target, bind_ok_iff]
  constructor
  · rintro ⟨_, text, found⟩
    cases last : (Path.segments path).getLast? with
    | none =>
        rw [last] at found
        cases found
    | some final =>
        simp only [last, bind_ok_iff, requireDirectory_ok_iff, pure, Except.pure, Except.ok.injEq,
          Prod.mk.injEq, Option.ite_none_left_eq_some, Option.some.injEq, Bool.or_eq_true,
          decide_eq_true_eq, not_or] at found
        obtain ⟨place, walked, _, directory, rfl, ⟨notHere, notUp⟩, rfl⟩ := found
        exact ⟨text, ⟨_, (List.dropLast_append_getLast? final last).symm, walked⟩, directory,
          notHere, notUp⟩
  · rintro ⟨text, ⟨names, split, walked⟩, directory, notHere, notUp⟩
    have kind : requireDirectory disk.tree parent = .ok () :=
      (requireDirectory_ok_iff ..).mpr directory
    simp [text, split, walked, kind, notHere, notUp, bind, Except.bind, pure, Except.pure]

theorem Targets.of_directories {before after : Disk} {path : String} {parent : Place}
    {name : String} (targets : before.Targets path parent name)
    (working : after.working = before.working)
    (kept : ∀ place, before.tree.get? place = some .directory →
      after.tree.get? place = some .directory) : after.Targets path parent name := by
  obtain ⟨text, ⟨names, split, walked⟩, directory, notHere, notUp⟩ := targets
  have later := kept parent directory
  have begun : after.start path = before.start path := by rw [start, start, working]
  exact ⟨text, ⟨names, split, begun ▸ walk_of_directories kept walked (by simp [later])⟩, later,
    notHere, notUp⟩

end targets

section locating

theorem locate_iff (disk : Disk) (path : String) (place : Place) : disk.locate path = .ok place ↔
    checkText path = .ok () ∧ walk disk.tree (disk.start path) (Path.segments path) = .ok place ∧
      (Path.endsInSlash path = true → disk.tree.get? place = some .directory) := by
  simp only [locate, bind_ok_iff]
  by_cases slash : Path.endsInSlash path = true
  · simp only [slash, if_true, bind_ok_iff, requireDirectory_ok_iff]
    constructor
    · rintro ⟨_, text, found, walked, _, directory, same⟩
      cases same
      exact ⟨text, walked, fun _ => directory⟩
    · rintro ⟨text, walked, directory⟩
      exact ⟨(), text, place, walked, (), directory trivial, rfl⟩
  · simp only [slash]
    constructor
    · rintro ⟨_, text, found, walked, same⟩
      cases same
      exact ⟨text, walked, fun wrong => by cases wrong⟩
    · rintro ⟨text, walked, _⟩
      exact ⟨(), text, place, walked, rfl⟩

theorem isThere_iff (disk : Disk) (path : String) :
    disk.isThere path = true ↔ ∃ place, disk.locate path = .ok place := by
  rw [isThere]
  cases disk.locate path <;> simp [Except.toOption]

/-- A path leads to the entry that it would put there. -/
theorem Targets.locate {disk : Disk} {path : String} {parent : Place} {name : String}
    (targets : disk.Targets path parent name) (short : name.utf8ByteSize ≤ nameLimit)
    (there : (disk.tree.get? (parent ++ [name])).isSome) (file : Path.endsInSlash path = false) :
    disk.locate path = .ok (parent ++ [name]) := by
  obtain ⟨text, ⟨names, split, walked⟩, directory, notHere, notUp⟩ := targets
  refine (locate_iff ..).mpr ⟨text, ?_, fun slash => by simp [file] at slash⟩
  rw [split]
  exact (walk_append_iff ..).mpr ⟨parent, walked, (walk_single_iff ..).mpr
    ⟨directory, .inr (.inr ⟨notHere, notUp, short, there, rfl⟩)⟩⟩

theorem locate_of_grows {before after : Disk} {path : String} {place : Place}
    (working : after.working = before.working) (grows : FileTree.Grows before.tree after.tree)
    (located : before.locate path = .ok place) (there : (before.tree.get? place).isSome) :
    after.locate path = .ok place := by
  obtain ⟨text, walked, directory⟩ := (locate_iff ..).mp located
  have begun : after.start path = before.start path := by rw [start, start, working]
  exact (locate_iff ..).mpr ⟨text, begun ▸ walk_of_grows grows walked there, fun slash =>
    grows.directory place (directory slash)⟩

end locating

end Disk

end Microbench
