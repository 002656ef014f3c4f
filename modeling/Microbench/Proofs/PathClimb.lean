import Mathlib.Data.List.Infix
import Microbench.Proofs.PathParts
/-!
A path as its components, and the climb that drops them one by one.

Points and slashes that lead nowhere are no components, whatever stands in the text. A step of the
climb takes the last component away. A path without any is where the climb ends: the root, or the
empty path.
-/
namespace Microbench.Path

section components

def leading (first : String) : List String := if first.isEmpty then [] else [first]

def live (behind : List String) : List String := behind.filter fun piece => !isIdle piece

/-- The components of a path as it is written. A path that begins with a slash has the root in
front of them. -/
def components (path : String) : List String :=
  match pieces path with
  | [] => []
  | first :: behind => leading first ++ live behind

def bottom (first : String) : List String := if first.isEmpty then [] else [""]

theorem components_of_pieces {path first : String} {behind : List String}
    (parted : pieces path = first :: behind) : components path = leading first ++ live behind := by
  rw [components, parted]

theorem ancestors_of_pieces {path first : String} {behind : List String}
    (parted : pieces path = first :: behind) :
    ancestors path = path :: (shorter first behind.reverse ++ bottom first) := by
  rw [ancestors, parted]
  rfl

theorem ofPieces_climb {first : String} {front : List String}
    (unslashed : ∀ piece ∈ first :: front, Unslashed piece) :
    components (ofPieces first front) = leading first ++ live front ∧
      ancestors (ofPieces first front) =
        ofPieces first front :: (shorter first front.reverse ++ bottom first) := by
  -- the root is the one path whose text is not its pieces with slashes between them
  cases bare : first.isEmpty && front.isEmpty with
  | true =>
      obtain ⟨empty, nothing⟩ := Bool.and_eq_true_iff.mp bare
      rw [String.isEmpty_iff] at empty
      rw [List.isEmpty_iff] at nothing
      subst empty nothing
      decide
  | false =>
      have parted := pieces_of_ofPieces first front unslashed bare
      exact ⟨components_of_pieces parted, ancestors_of_pieces parted⟩

end components

section climbing

theorem shorter_dropWhile (first : String) (reversed : List String) :
    shorter first (reversed.dropWhile isIdle) = shorter first reversed := by
  induction reversed with
  | nil => rfl
  | cons piece before ih =>
      cases idle : isIdle piece with
      | true => simpa [shorter, idle] using ih
      | false => simp [idle]

theorem live_dropWhile (reversed : List String) :
    live (reversed.dropWhile isIdle).reverse = live reversed.reverse := by
  induction reversed with
  | nil => rfl
  | cons piece before ih =>
      cases idle : isIdle piece with
      | true => simpa [live, idle] using ih
      | false => simp [idle]

structure Climbs (path up last : String) : Prop where
  climbed : ancestors path = path :: ancestors up
  parts : components path = components up ++ [last]

theorem Climbs.absolute {path up last : String} (climbs : Climbs path up last) :
    isAbsolute up = isAbsolute path := by
  have above : up ∈ ancestors path := by
    rw [climbs.climbed]
    exact List.mem_cons_of_mem path (List.mem_of_head? (head_ancestors up))
  exact (ancestors_begin path up above).2

section steps

variable {path first : String} {behind : List String} (parted : pieces path = first :: behind)

include parted

/-- Idle pieces at the end are passed over on the way to the last component. -/
theorem climb_passed {reversed : List String} (passed : behind.reverse.dropWhile isIdle = reversed) :
    ancestors path = path :: (shorter first reversed ++ bottom first) ∧
      components path = leading first ++ live reversed.reverse := by
  rw [← passed, shorter_dropWhile, live_dropWhile, List.reverse_reverse]
  exact ⟨ancestors_of_pieces parted, components_of_pieces parted⟩

theorem climbs_from_first (relative : first.isEmpty = false)
    (passed : behind.reverse.dropWhile isIdle = []) : Climbs path "" first := by
  obtain ⟨climbed, parts⟩ := climb_passed parted passed
  have bare : ancestors "" = [""] ∧ components "" = [] := by decide
  constructor
  · simpa [shorter, bottom, relative, bare.1] using climbed
  · simpa [leading, live, relative, bare.2] using parts

theorem climbs_from_piece {piece : String} {before : List String}
    (passed : behind.reverse.dropWhile isIdle = piece :: before) :
    Climbs path (ofPieces first (before.dropWhile isIdle).reverse) piece := by
  obtain ⟨climbed, parts⟩ := climb_passed parted passed
  have solid : isIdle piece = false := by
    have begins := List.head?_dropWhile_not isIdle behind.reverse
    rw [passed] at begins
    simpa using begins
  have fewer : before.dropWhile isIdle <:+ behind.reverse := by
    have inside : piece :: before <:+ behind.reverse := passed ▸ List.dropWhile_suffix isIdle
    exact (List.dropWhile_suffix isIdle).trans ((List.suffix_cons piece before).trans inside)
  have unslashed : ∀ other ∈ first :: (before.dropWhile isIdle).reverse, Unslashed other := by
    intro other member
    apply pieces_unslashed_of_mem path
    rw [parted]
    rcases List.mem_cons.mp member with rfl | member
    · exact List.mem_cons_self
    · exact List.mem_cons_of_mem first
        (List.mem_reverse.mp (fewer.subset (List.mem_reverse.mp member)))
  obtain ⟨left, later⟩ := ofPieces_climb unslashed
  rw [live_dropWhile] at left
  rw [List.reverse_reverse, shorter_dropWhile] at later
  constructor
  · simpa [shorter, solid, later] using climbed
  · rw [parts, left]
    simp [live, solid]

end steps

/-- A path has no component and its climb is over, or the climb goes a step further. -/
theorem climb_cases (path : String) : ancestors path = [path] ∧ components path = [] ∨
    ∃ up last, Climbs path up last := by
  obtain ⟨first, behind, parted, _⟩ := exists_pieces path
  cases passed : behind.reverse.dropWhile isIdle with
  | cons piece before => exact .inr ⟨_, piece, climbs_from_piece parted passed⟩
  | nil =>
      cases begins : first.isEmpty with
      | false => exact .inr ⟨"", first, climbs_from_first parted begins passed⟩
      | true =>
          obtain ⟨climbed, parts⟩ := climb_passed parted passed
          left
          constructor
          · simpa [shorter, bottom, begins] using climbed
          · simpa [leading, live, begins] using parts

/-- What holds where climbs end, and for a path if it holds for the one above, holds for every
path. -/
theorem climb_induction {motive : String → Prop} (path : String)
    (ended : ∀ path, ancestors path = [path] → components path = [] → motive path)
    (step : ∀ path up last, Climbs path up last → motive up → motive path) : motive path := by
  rcases climb_cases path with ⟨climbed, nameless⟩ | ⟨up, last, climbs⟩
  · exact ended path climbed nameless
  · exact step path up last climbs (climb_induction up ended step)
termination_by (components path).length
decreasing_by simp [climbs.parts]

/-- The paths of a climb are the prefixes of a path, the longest first. -/
theorem climb_prefixes (path : String) :
    (ancestors path).map (fun above => (isAbsolute above, components above)) =
      (components path).inits.reverse.map (fun names => (isAbsolute path, names)) := by
  induction path using climb_induction with
  | ended path climbed nameless => simp [climbed, nameless]
  | step path up last climbs ih =>
      rw [climbs.climbed, List.map_cons, ih, climbs.parts, climbs.absolute]
      simp

theorem components_prefix {path above : String} (member : above ∈ ancestors path) :
    components above <+: components path := by
  have listed := List.mem_map_of_mem (f := fun above => (isAbsolute above, components above)) member
  rw [climb_prefixes] at listed
  obtain ⟨names, inside, same⟩ := List.mem_map.mp listed
  rw [← (Prod.mk.inj same).2]
  exact (List.mem_inits ..).mp (List.mem_reverse.mp inside)

end climbing

section names

/-- The names in a path that lead from a place to another. -/
theorem components_names (path : String) :
    (components path).filter (· ≠ ".") = (segments path).filter (· ≠ ".") := by
  obtain ⟨first, behind, parted, _⟩ := exists_pieces path
  have behind : (live behind).filter (· ≠ ".") =
      (behind.filter fun name => !name.isEmpty).filter (· ≠ ".") := by
    simp only [live, List.filter_filter]
    apply List.filter_congr
    intro piece _
    by_cases here : piece = "." <;> simp [isIdle, here]
  rw [components_of_pieces parted, segments, parted, List.filter_append, behind]
  cases empty : first.isEmpty with
  | true => simp [leading, empty]
  | false => by_cases here : first = "." <;> simp [leading, empty, here]

end names

end Microbench.Path
