import Mathlib.Data.List.TakeWhile
import Microbench.Proofs.PathClimb
import Microbench.Proofs.SavedSettings
/-!
The search for settings ends, and ends at the nearest file.

A step of the search looks at one path and climbs to the next, which has one component less. What
a path holds is told of the tree: its components lead to a directory with an entry of the right
name. The system looks an entry up by the text of its path, though, and one with too long a text
is not found.
-/
namespace Microbench

namespace Disk

section reaching

def Reaches (tree : FileTree) (place : Place) (names : List String) (found : Place) : Prop :=
  walk tree place names = .ok found ∧ tree.get? found = some .directory

variable {tree : FileTree} {place found : Place}

theorem reaches_cons_iff {name : String} {rest : List String} :
    Reaches tree place (name :: rest) found ↔
      ∃ next, Follows tree place name next ∧ Reaches tree next rest found := by
  simp only [Reaches, walk_cons_iff]
  constructor
  · rintro ⟨⟨next, follows, walked⟩, directory⟩
    exact ⟨next, follows, walked, directory⟩
  · rintro ⟨next, follows, walked, directory⟩
    exact ⟨⟨next, follows, walked⟩, directory⟩

theorem Reaches.start {names : List String} (reaches : Reaches tree place names found) :
    tree.get? place = some .directory := by
  cases names with
  | nil =>
      obtain ⟨walked, directory⟩ := reaches
      cases walked
      exact directory
  | cons name rest =>
      obtain ⟨_, follows, _⟩ := reaches_cons_iff.mp reaches
      exact follows.1

theorem reaches_point_iff {rest : List String} :
    Reaches tree place ("." :: rest) found ↔ Reaches tree place rest found := by
  -- a point only asks for a directory, and on the way to a directory there are no other places
  rw [reaches_cons_iff]
  constructor
  · rintro ⟨next, ⟨_, moved⟩, reaches⟩
    rcases moved with ⟨_, rfl⟩ | ⟨up, _⟩ | ⟨notHere, _⟩
    · exact reaches
    · exact absurd up (by decide)
    · exact absurd rfl notHere
  · intro reaches
    exact ⟨place, ⟨reaches.start, .inl ⟨rfl, rfl⟩⟩, reaches⟩

theorem reaches_filter_iff (names : List String) :
    Reaches tree place (names.filter (· ≠ ".")) found ↔ Reaches tree place names found := by
  induction names generalizing place with
  | nil => exact Iff.rfl
  | cons name rest ih =>
      by_cases here : name = "."
      · subst here
        rw [reaches_point_iff]
        simpa using ih
      · rw [List.filter_cons_of_pos (by simpa using here), reaches_cons_iff, reaches_cons_iff]
        simp only [ih]

/-- The names in a path lead to the directories that its components lead to. -/
theorem reaches_components_iff (path : String) :
    Reaches tree place (Path.components path) found ↔
      Reaches tree place (Path.segments path) found := by
  rw [← reaches_filter_iff, Path.components_names, reaches_filter_iff]

end reaching

end Disk

namespace Settings

section holding

def Holds (disk : Disk) (above : String) (entry : Entry) : Prop :=
  ∃ place, Disk.Reaches disk.tree (disk.start above) (Path.components above) place ∧
    disk.tree.get? (place ++ [fileName]) = some entry

/-- The path of such an entry can also be looked up. -/
structure Offers (disk : Disk) (above : String) (entry : Entry) : Prop where
  holds : Holds disk above entry
  lookup : Disk.checkText (Path.join above fileName) = .ok ()

def opened : Entry → Except SettingsError Settings
  | .directory => .error (.unusable .isDirectory)
  | .file content => decode content

variable {disk : Disk} {above : String}

theorem locate_settings (place : Place) :
    disk.locate (Path.join above fileName) = .ok place ↔
      Disk.checkText (Path.join above fileName) = .ok () ∧
      ∃ parent, Disk.Reaches disk.tree (disk.start above) (Path.components above) parent ∧
        (disk.tree.get? (parent ++ [fileName])).isSome ∧ place = parent ++ [fileName] := by
  have unslashed : Path.Unslashed fileName := by decide
  have begun : disk.start (Path.join above fileName) = disk.start above := by
    rw [Disk.start, Disk.start, Path.isAbsolute_join above fileName unslashed]
  have file := Path.endsInSlash_join above unslashed (by decide)
  rw [Disk.locate_iff, begun, Path.segments_join above fileName unslashed (by decide), file]
  simp only [Disk.reaches_components_iff]
  simp only [Disk.walk_append_iff, Disk.walk_single_iff, Disk.Reaches, Disk.Follows]
  constructor
  · rintro ⟨text, ⟨parent, walked, directory, moved⟩, _⟩
    rcases moved with ⟨here, _⟩ | ⟨up, _⟩ | ⟨_, _, _, present, same⟩
    · exact absurd here (by decide)
    · exact absurd up (by decide)
    · exact ⟨text, parent, ⟨walked, directory⟩, present, same⟩
  · rintro ⟨text, parent, ⟨walked, directory⟩, present, same⟩
    have moved : fileName ≠ "." ∧ fileName ≠ ".." ∧ fileName.utf8ByteSize ≤ Disk.nameLimit := by
      decide
    exact ⟨text, ⟨parent, walked, directory, .inr (.inr ⟨moved.1, moved.2.1, moved.2.2, present,
      same⟩)⟩, by simp⟩

theorem isThere_settings :
    disk.isThere (Path.join above fileName) = true ↔ ∃ entry, Offers disk above entry := by
  simp only [Disk.isThere_iff, locate_settings]
  constructor
  · rintro ⟨_, text, parent, reaches, present, _⟩
    obtain ⟨entry, found⟩ := Option.isSome_iff_exists.mp present
    exact ⟨entry, ⟨parent, reaches, found⟩, text⟩
  · rintro ⟨entry, ⟨parent, reaches, found⟩, text⟩
    exact ⟨_, text, parent, reaches, by simp [found], rfl⟩

theorem load_settings {entry : Entry} (offers : Offers disk above entry) :
    load disk (Path.join above fileName) = opened entry := by
  obtain ⟨⟨parent, reaches, found⟩, text⟩ := offers
  have located : disk.locate (Path.join above fileName) = .ok (parent ++ [fileName]) :=
    (locate_settings _).mpr ⟨text, parent, reaches, by simp [found], rfl⟩
  cases entry with
  | file content => exact load_of_read (Disk.read_of_located located found)
  | directory =>
      have there := (Disk.isThere_iff ..).mpr ⟨_, located⟩
      have refused : disk.read (Path.join above fileName) = .error .isDirectory := by
        simp [Disk.read, located, found, bind, Except.bind]
      rw [load, if_pos there, refused]
      rfl

end holding

section searching

variable {disk : Disk} {path : String}

theorem find_here {entry : Entry} (offers : Offers disk path entry) :
    find disk path = load disk (Path.join path fileName) := by
  have there := isThere_settings.mpr ⟨entry, offers⟩
  obtain ⟨rest, climbed⟩ := List.head?_eq_some_iff.mp (Path.head_ancestors path)
  simp [find, candidates, climbed, there]

theorem not_there (nothing : ∀ entry, ¬ Offers disk path entry) :
    disk.isThere (Path.join path fileName) = false := by
  rw [← Bool.not_eq_true, isThere_settings]
  exact fun ⟨entry, offers⟩ => nothing entry offers

theorem find_over (climbed : Path.ancestors path = [path])
    (nothing : ∀ entry, ¬ Offers disk path entry) : find disk path = .ok {} := by
  simp [find, candidates, climbed, not_there nothing]

theorem find_above {up last : String} (climbs : Path.Climbs path up last)
    (nothing : ∀ entry, ¬ Offers disk path entry) : find disk path = find disk up := by
  simp [find, candidates, climbs.climbed, not_there nothing]

/-- An entry above a directory, while no longer prefix of the directory's path has any. -/
structure Nearest (offers : String → Entry → Prop) (directory above : String) (entry : Entry) :
    Prop where
  inside : above ∈ Path.ancestors directory
  offered : offers above entry
  longest : ∀ other ∈ Path.ancestors directory,
    (Path.components above).length < (Path.components other).length →
    ∀ entry, ¬ offers other entry

theorem nearest_here {offers : String → Entry → Prop} {entry : Entry} (offered : offers path entry) :
    Nearest offers path path entry := by
  constructor
  case inside => exact List.mem_of_head? (Path.head_ancestors path)
  case offered => exact offered
  case longest =>
    intro other member longer
    exact absurd (Path.components_prefix member).length_le (Nat.not_le.mpr longer)

theorem nearest_above {offers : String → Entry → Prop} {up last above : String} {entry : Entry}
    (climbs : Path.Climbs path up last)
    (nothing : ∀ entry, ¬ offers path entry) (nearest : Nearest offers up above entry) :
    Nearest offers path above entry := by
  constructor
  case inside =>
    rw [climbs.climbed]
    exact List.mem_cons_of_mem path nearest.inside
  case offered => exact nearest.offered
  case longest =>
    intro other member longer
    rw [climbs.climbed] at member
    rcases List.mem_cons.mp member with rfl | member
    · exact nothing
    · exact nearest.longest other member longer

theorem find_offered {entry : Entry} (offers : Offers disk path entry) :
    Nearest (Offers disk) path path entry ∧ find disk path = load disk (Path.join path fileName) ∧
      find disk path = opened entry :=
  ⟨nearest_here offers, find_here offers, (find_here offers).trans (load_settings offers)⟩

/-- The search looks at the prefixes of a path from the longest to the shortest. It comes to what
loading the entry of the longest one comes to, and to the defaults if none has an entry. -/
theorem find_nearest (disk : Disk) (directory : String) :
    (Path.ancestors directory).map (fun above => (Path.isAbsolute above, Path.components above)) =
      (Path.components directory).inits.reverse.map (fun names => (Path.isAbsolute directory, names)) ∧
    ((∃ above entry, Nearest (Offers disk) directory above entry ∧
        find disk directory = load disk (Path.join above fileName) ∧
        find disk directory = opened entry) ∨
      (∀ above ∈ Path.ancestors directory, ∀ entry, ¬ Offers disk above entry) ∧
        find disk directory = .ok {}) := by
  constructor
  · exact Path.climb_prefixes directory
  -- A directory that offers an entry ends the search. Otherwise it is the search from above, and
  -- what that one finds is the nearest from here too.
  induction directory using Path.climb_induction with
  | ended path climbed nameless =>
      by_cases offered : ∃ entry, Offers disk path entry
      · obtain ⟨entry, offers⟩ := offered
        exact .inl ⟨path, entry, find_offered offers⟩
      · have nothing := not_exists.mp offered
        refine .inr ⟨?_, find_over climbed nothing⟩
        simpa [climbed] using nothing
  | step path up last climbs ih =>
      by_cases offered : ∃ entry, Offers disk path entry
      · obtain ⟨entry, offers⟩ := offered
        exact .inl ⟨path, entry, find_offered offers⟩
      · have nothing := not_exists.mp offered
        rw [find_above climbs nothing]
        rcases ih with ⟨above, entry, nearest, found⟩ | ⟨absent, found⟩
        · exact .inl ⟨above, entry, nearest_above climbs nothing nearest, found⟩
        · refine .inr ⟨?_, found⟩
          rw [climbs.climbed]
          exact List.forall_mem_cons.mpr ⟨nothing, absent⟩

-- A directory in the place of the file is an error, though there is a file further out.
example : find { tree := ⟨[(["a"], .directory), (["a", fileName], .directory),
    ([fileName], .file "".toUTF8)]⟩ } "./a//." = .error (.unusable .isDirectory) := rfl

end searching

section longPaths

theorem checkText_long {path : String} (long : Disk.pathLimit ≤ path.utf8ByteSize) :
    Disk.checkText path ≠ .ok () := by
  rw [Disk.checkText, if_pos long]
  split
  · simp
  · split <;> simp

theorem size_points (first : String) (count : Nat) :
    ("/".intercalate (first :: List.replicate count ".")).utf8ByteSize =
      first.utf8ByteSize + 2 * count := by
  induction count generalizing first with
  | zero => simp
  | succ count ih =>
      rw [List.replicate_succ, String.intercalate_cons_cons, String.utf8ByteSize_append,
        String.utf8ByteSize_append, ih, show "/".utf8ByteSize = 1 by decide,
        show ".".utf8ByteSize = 1 by decide]
      omega

/-- A directory whose path is written with so many points that nothing in it can be looked up. -/
def pointedPath : String := Path.ofPieces "a" (List.replicate 2048 ".")

theorem pointedPath_long :
    Disk.pathLimit ≤ (Path.join pointedPath fileName).utf8ByteSize := by
  have own : pointedPath.utf8ByteSize = 4097 := by
    rw [pointedPath, Path.ofPieces, if_neg (by simp), size_points]
    decide
  have whole : pointedPath.utf8ByteSize ≤ (Path.join pointedPath fileName).utf8ByteSize := by
    rw [Path.join, Path.not_absolute_of_unslashed fileName (by decide), if_neg Bool.false_ne_true]
    split <;> simp only [String.utf8ByteSize_append] <;> omega
  rw [Disk.pathLimit]
  omega

theorem pointedPath_climbs : Path.Climbs pointedPath "" "a" := by
  have unslashed : ∀ piece ∈ "a" :: List.replicate 2048 ".", Path.Unslashed piece := by
    intro piece member
    rcases List.mem_cons.mp member with rfl | member
    · decide
    · rw [List.eq_of_mem_replicate member]
      decide
  have parted : Path.pieces pointedPath = "a" :: List.replicate 2048 "." :=
    Path.pieces_of_ofPieces _ _ unslashed (by simp)
  apply Path.climbs_from_first parted (by decide)
  rw [List.reverse_replicate, List.dropWhile_eq_nil_iff]
  intro piece member
  rw [List.eq_of_mem_replicate member]
  decide

def nestedDisk : Disk :=
  { tree := ⟨[(["a"], .directory),
      (["a", fileName], .file "[cycle]\nexponent = 8\n".toUTF8),
      ([fileName], .file "[cycle]\nexponent = 9\n".toUTF8)]⟩ }

theorem nearest_passed_over : ¬ ∀ (disk : Disk) (directory above : String) (entry : Entry),
    Nearest (Holds disk) directory above entry → find disk directory = opened entry := by
  intro finds
  have parts : Path.components pointedPath = ["a"] := pointedPath_climbs.parts
  have inner : Holds nestedDisk pointedPath (.file "[cycle]\nexponent = 8\n".toUTF8) := by
    have begun : nestedDisk.start pointedPath = [] := by
      rw [Disk.start]
      exact ite_self _
    refine ⟨["a"], ?_, rfl⟩
    rw [begun, parts]
    exact ⟨rfl, rfl⟩
  have outer : Offers nestedDisk "" (.file "[cycle]\nexponent = 9\n".toUTF8) :=
    ⟨⟨[], ⟨rfl, rfl⟩, rfl⟩, by decide⟩
  have nothing : ∀ entry, ¬ Offers nestedDisk pointedPath entry :=
    fun _ offers => checkText_long pointedPath_long offers.lookup
  have eight := finds nestedDisk pointedPath pointedPath _ (nearest_here inner)
  have nine := (find_offered outer).2.2
  have first : parse "[cycle]\nexponent = 8\n" = some { cycle := { exponent := 8 } } := rfl
  have second : parse "[cycle]\nexponent = 9\n" = some { cycle := { exponent := 9 } } := rfl
  rw [find_above pointedPath_climbs nothing, nine, opened, opened, decode_text first, decode_text second]
    at eight
  cases eight

end longPaths

end Settings

end Microbench
