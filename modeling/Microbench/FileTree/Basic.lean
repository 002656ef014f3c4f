/-! A tree of files, as a finite map from places to what is there. A place is the list of names
that lead to it from the root, and the root itself is not listed. -/
namespace Microbench

inductive Entry where
  | directory
  | file (content : ByteArray)

abbrev Place := List String

structure FileTree where
  entries : List (Place × Entry) := []

namespace FileTree

def get? (tree : FileTree) (place : Place) : Option Entry :=
  if place = [] then some .directory else tree.entries.lookup place

def isDirectory (tree : FileTree) (place : Place) : Bool :=
  match tree.get? place with
  | some .directory => true
  | _ => false

def put (tree : FileTree) (place : Place) (entry : Entry) : FileTree :=
  ⟨(place, entry) :: tree.entries.filter fun old => old.1 != place⟩

def erase (tree : FileTree) (place : Place) : FileTree :=
  ⟨tree.entries.filter fun old => old.1 != place⟩

/-- The names that drafts are given, in the order that they are tried. They have ten bytes
as long as there are no more than 900000 of them. -/
def draftName (number : Nat) : String := ".tmp" ++ toString (100000 + number)

/-- The first name for a draft that nothing in a directory has. With one more name than
there are entries, one of them is free. -/
def freshName (tree : FileTree) (directory : Place) : String :=
  let names := (List.range (tree.entries.length + 1)).map draftName
  (names.find? fun name => (tree.get? (directory ++ [name])).isNone).getD (draftName 0)

theorem get?_put_self (tree : FileTree) (place : Place) (entry : Entry) (below : place ≠ []) :
    (tree.put place entry).get? place = some entry := by
  simp [get?, put, below]

theorem lookup_filter_ne {other place : Place} (entries : List (Place × Entry))
    (different : other ≠ place) :
    (entries.filter fun old => old.1 != place).lookup other = entries.lookup other := by
  induction entries with
  | nil => rfl
  | cons head rest ih =>
    obtain ⟨first, entry⟩ := head
    by_cases same : first = place
    · have missed : (other == first) = false := by simp [same, different]
      simp only [List.filter_cons, same, bne_self_eq_false, Bool.false_eq_true, if_false, ih]
      rw [List.lookup_cons, ← same, missed]
    · simp only [List.filter_cons, bne_iff_ne, ne_eq, same, not_false_eq_true, if_true,
        List.lookup_cons, ih]

theorem get?_put_ne (tree : FileTree) {other place : Place} (entry : Entry)
    (different : other ≠ place) : (tree.put place entry).get? other = tree.get? other := by
  have missed : (other == place) = false := by simp [different]
  simp only [get?, put, List.lookup_cons, missed, lookup_filter_ne _ different]

theorem get?_erase_self (tree : FileTree) (place : Place) (below : place ≠ []) :
    (tree.erase place).get? place = none := by
  simp only [get?, erase, below, if_false, List.lookup_eq_none_iff]
  intro old member
  have different := (List.mem_filter.mp member).2
  exact bne_iff_ne.mpr (Ne.symm (bne_iff_ne.mp different))

theorem get?_erase_ne (tree : FileTree) {other place : Place} (different : other ≠ place) :
    (tree.erase place).get? other = tree.get? other := by
  simp only [get?, erase, lookup_filter_ne _ different]

end FileTree

end Microbench
