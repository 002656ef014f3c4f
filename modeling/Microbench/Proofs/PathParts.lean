import Microbench.FileTree.Path
import Microbench.Proofs.WrittenLine
/-!
The names in a path, as the path is lengthened and as it is climbed.

A path is its pieces with a slash between them. A name that is joined to a path comes last
among its names, and a path that is left when parts are dropped has the first of its names:
following it leads to a place on the way.
-/
namespace Microbench

namespace Text

theorem pieces_of_intercalate (separator : Char) (first : List Char) (rest : List (List Char))
    (absent : ∀ piece ∈ first :: rest, separator ∉ piece) :
    pieces separator ([separator].intercalate (first :: rest)) = first :: rest := by
  induction rest generalizing first with
  | nil => simpa using pieces_of_absent separator first (absent first List.mem_cons_self)
  | cons second rest ih =>
      have later := ih second fun piece member => absent piece (List.mem_cons_of_mem first member)
      rw [List.intercalate_cons_cons, List.append_assoc, List.singleton_append,
        pieces_append separator first _ (absent first List.mem_cons_self), later]

end Text

namespace Path
open Text

def Unslashed (piece : String) : Prop := '/' ∉ piece.toList

instance (piece : String) : Decidable (Unslashed piece) := inferInstanceAs (Decidable (_ ∉ _))

section joining

theorem pieces_append_slash (front back : String) :
    pieces (front ++ "/" ++ back) = pieces front ++ pieces back := by
  have text : (front ++ "/" ++ back).toList = front.toList ++ '/' :: back.toList := by
    simp [String.toList_append]
  rw [pieces, text, pieces_append_separator, List.map_append]
  rfl

theorem pieces_unslashed (piece : String) (unslashed : Unslashed piece) :
    pieces piece = [piece] := by
  rw [pieces, pieces_of_absent '/' _ unslashed, List.map_singleton, String.ofList_toList]

theorem segments_append_slash (front back : String) :
    segments (front ++ "/" ++ back) = segments front ++ segments back := by
  rw [segments, pieces_append_slash, List.filter_append]
  rfl

theorem segments_name (name : String) (unslashed : Unslashed name) (present : name ≠ "") :
    segments name = [name] := by
  simp [segments, pieces_unslashed name unslashed, present]

theorem not_absolute_of_unslashed (name : String) (unslashed : Unslashed name) :
    isAbsolute name = false := by
  unfold isAbsolute
  cases spelt : name.toList with
  | nil => rfl
  | cons first rest =>
      have other : first ≠ '/' := by
        rintro rfl
        exact unslashed (by simp [spelt])
      simp [other]

/-- A text that ends in a slash is another text with a slash behind it. -/
theorem exists_of_endsInSlash (directory : String) (slash : endsInSlash directory = true) :
    ∃ front, directory = front ++ "/" := by
  have last : directory.toList.getLast? = some '/' := by simpa [endsInSlash] using slash
  obtain ⟨front, split⟩ := List.getLast?_eq_some_iff.mp last
  refine ⟨String.ofList front, ?_⟩
  apply String.toList_inj.mp
  simp [split]

/-- A name joined to a path comes behind the names of the path. -/
theorem segments_join (directory name : String) (unslashed : Unslashed name)
    (present : name ≠ "") : segments (join directory name) = segments directory ++ [name] := by
  have own := segments_name name unslashed present
  rw [join, not_absolute_of_unslashed name unslashed]
  by_cases empty : directory = ""
  · subst empty
    have nameless : segments "" = [] := by decide
    simp [own, nameless]
  · by_cases slash : endsInSlash directory = true
    · obtain ⟨front, rfl⟩ := exists_of_endsInSlash directory slash
      have nameless : segments "" = [] := by decide
      have short := segments_append_slash front ""
      rw [String.append_empty, nameless, List.append_nil] at short
      simp [slash, segments_append_slash, own, short]
    · simp [empty, slash, String.isEmpty_iff, segments_append_slash, own]

theorem isAbsolute_append (front back : String) (present : front ≠ "") :
    isAbsolute (front ++ back) = isAbsolute front := by
  have filled : front.toList ≠ [] := fun nil => present (String.toList_inj.mp nil)
  obtain ⟨first, rest, spelt⟩ := List.exists_cons_of_ne_nil filled
  simp [isAbsolute, String.toList_append, spelt]

theorem isAbsolute_join (directory name : String) (unslashed : Unslashed name) :
    isAbsolute (join directory name) = isAbsolute directory := by
  have relative := not_absolute_of_unslashed name unslashed
  rw [join, relative]
  by_cases empty : directory = ""
  · subst empty
    have root : isAbsolute "" = false := by decide
    simp [relative, root]
  · by_cases slash : endsInSlash directory = true
    · simp [slash, isAbsolute_append directory name empty]
    · simp [slash, empty, String.isEmpty_iff, String.append_assoc,
        isAbsolute_append directory _ empty]

/-- A path without a last name is empty or ends in a slash. -/
theorem join_nameless (directory : String) :
    join directory "" = "" ∨ endsInSlash (join directory "") = true := by
  have relative : isAbsolute "" = false := by decide
  by_cases empty : directory = ""
  · subst empty
    exact .inl (by decide)
  · by_cases slash : endsInSlash directory = true
    · exact .inr (by simp [join, relative, slash])
    · have joined : join directory "" = directory ++ "/" := by
        simp [join, relative, empty, slash]
      rw [joined, endsInSlash, String.toList_append]
      exact .inr (by simp)

theorem endsInSlash_append (front : String) {name : String} (unslashed : Unslashed name)
    (present : name ≠ "") : endsInSlash (front ++ name) = false := by
  have filled : name.toList ≠ [] := fun nil => present (String.toList_inj.mp nil)
  obtain ⟨names, last, spelt⟩ := (List.eq_nil_or_concat name.toList).resolve_left filled
  have other : last ≠ '/' := by
    rintro rfl
    exact unslashed (by simp [spelt])
  simp [endsInSlash, String.toList_append, spelt, other]

theorem endsInSlash_join (directory : String) {name : String} (unslashed : Unslashed name)
    (present : name ≠ "") : endsInSlash (join directory name) = false := by
  rw [join, not_absolute_of_unslashed name unslashed, if_neg Bool.false_ne_true]
  split
  · exact endsInSlash_append directory unslashed present
  · exact endsInSlash_append (directory ++ "/") unslashed present

end joining

section climbing

theorem pieces_unslashed_of_mem (path piece : String) (member : piece ∈ pieces path) :
    Unslashed piece := by
  obtain ⟨text, found, rfl⟩ := List.mem_map.mp member
  simpa [Unslashed] using absent_of_mem_pieces '/' path.toList text found

theorem exists_pieces (path : String) : ∃ first behind, pieces path = first :: behind ∧
    ∀ piece ∈ first :: behind, Unslashed piece := by
  obtain ⟨first, behind, parted⟩ : ∃ first behind, pieces path = first :: behind :=
    List.exists_cons_of_ne_nil (by simp [pieces, pieces_ne_nil])
  exact ⟨first, behind, parted, fun piece member =>
    pieces_unslashed_of_mem path piece (parted ▸ member)⟩

theorem intercalate_of_pieces (path : String) : "/".intercalate (pieces path) = path := by
  apply String.toList_inj.mp
  have same : (pieces path).map String.toList = Text.pieces '/' path.toList := by
    simp [pieces]
  rw [String.toList_intercalate, same]
  exact intercalate_pieces '/' path.toList

theorem pieces_of_ofPieces (first : String) (behind : List String)
    (unslashed : ∀ piece ∈ first :: behind, Unslashed piece)
    (present : (first.isEmpty && behind.isEmpty) = false) :
    pieces (ofPieces first behind) = first :: behind := by
  have absent : ∀ piece ∈ first.toList :: behind.map String.toList, '/' ∉ piece := by
    rw [← List.map_cons]
    intro piece member
    obtain ⟨text, found, rfl⟩ := List.mem_map.mp member
    exact unslashed text found
  have cut := pieces_of_intercalate '/' first.toList (behind.map String.toList) absent
  have slash : "/".toList = ['/'] := rfl
  rw [ofPieces, present, if_neg Bool.false_ne_true, pieces, String.toList_intercalate,
    List.map_cons, slash, cut]
  simp

/-- The names in a path that is left of pieces. The root has none. -/
theorem segments_ofPieces (first : String) (behind : List String)
    (unslashed : ∀ piece ∈ first :: behind, Unslashed piece) :
    segments (ofPieces first behind) = (first :: behind).filter fun name => !name.isEmpty := by
  cases bare : first.isEmpty && behind.isEmpty with
  | true =>
      obtain ⟨empty, nil⟩ := Bool.and_eq_true_iff.mp bare
      rw [String.isEmpty_iff] at empty
      rw [List.isEmpty_iff] at nil
      subst empty nil
      decide
  | false => rw [segments, pieces_of_ofPieces first behind unslashed bare]

theorem mem_shorter (first above : String) (reversed : List String)
    (member : above ∈ shorter first reversed) :
    ∃ front, front <+: reversed.reverse ∧ above = ofPieces first front := by
  induction reversed with
  | nil => cases member
  | cons piece before ih =>
      have longer : before.reverse <+: (piece :: before).reverse := by simp
      rw [shorter] at member
      split at member
      · obtain ⟨front, begins, same⟩ := ih member
        exact ⟨front, begins.trans longer, same⟩
      · rcases List.mem_cons.mp member with rfl | member
        · refine ⟨_, ?_, rfl⟩
          exact (List.reverse_prefix.mpr (List.dropWhile_suffix isIdle)).trans longer
        · obtain ⟨front, begins, same⟩ := ih member
          exact ⟨front, begins.trans longer, same⟩

theorem isAbsolute_ofPieces (first : String) (behind : List String) (unslashed : Unslashed first) :
    isAbsolute (ofPieces first behind) = first.isEmpty := by
  by_cases empty : first = ""
  · subst empty
    cases behind with
    | nil => decide
    | cons second rest => simp [ofPieces, isAbsolute, String.toList_append]
  · have relative := not_absolute_of_unslashed first unslashed
    have filled : first.isEmpty = false := by simpa [String.isEmpty_iff] using empty
    cases behind with
    | nil => simpa [ofPieces, filled] using relative
    | cons second rest =>
        simp only [ofPieces, filled, Bool.false_and, Bool.false_eq_true, if_false,
          String.intercalate_cons_cons, String.append_assoc]
        rw [isAbsolute_append first _ empty, relative]

/-- Climbing from a path passes paths that have the first of its names and begin where it
begins. -/
theorem ancestors_begin (path above : String) (member : above ∈ ancestors path) :
    segments above <+: segments path ∧ isAbsolute above = isAbsolute path := by
  obtain ⟨first, behind, parted, unslashed⟩ := exists_pieces path
  have whole := intercalate_of_pieces path
  rw [parted] at whole
  simp only [ancestors, parted, List.cons_append, List.mem_cons, List.mem_append] at member
  rcases member with rfl | climbed | bottom
  · exact ⟨List.prefix_refl _, rfl⟩
  · obtain ⟨front, begins, rfl⟩ := mem_shorter first above behind.reverse climbed
    rw [List.reverse_reverse] at begins
    have fewer : ∀ piece ∈ first :: front, Unslashed piece := by
      intro piece member
      rcases List.mem_cons.mp member with rfl | member
      · exact unslashed piece List.mem_cons_self
      · exact unslashed piece (List.mem_cons_of_mem first (begins.subset member))
    have filled : behind ≠ [] := by
      rintro rfl
      cases climbed
    have spelt : ofPieces first behind = path := by simp [ofPieces, filled, whole]
    refine ⟨?_, ?_⟩
    · rw [segments_ofPieces first front fewer, segments, parted]
      exact ((List.prefix_cons_inj first).mpr begins).filter _
    · rw [isAbsolute_ofPieces first front (unslashed first List.mem_cons_self), ← spelt,
        isAbsolute_ofPieces first behind (unslashed first List.mem_cons_self)]
  · by_cases empty : first = ""
    · simp [empty] at bottom
    · have filled : first.isEmpty = false := by simpa [String.isEmpty_iff] using empty
      have spelt : ofPieces first behind = path := by simp [ofPieces, filled, whole]
      have last : above = "" := by simpa [filled] using bottom
      subst last
      refine ⟨(by decide : segments "" = []) ▸ List.nil_prefix, ?_⟩
      rw [← spelt, isAbsolute_ofPieces first behind (unslashed first List.mem_cons_self), filled]
      decide

end climbing

end Path

end Microbench
