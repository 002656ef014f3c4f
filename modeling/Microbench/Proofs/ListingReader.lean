import Mathlib.Algebra.GroupWithZero.Nat
import Microbench.Proofs.TextLines
import Microbench.Routine
/-!
Reading an assembly file back.

The text is cut into lines and the lines are cut into rows at the empty ones. A statement never
makes an empty line: if it is not at the margin there is a tab in front of it, and at the margin
there is its colon. So the rows are the header and the functions, an empty one being a row
without lines, and texts that are equal come from the same statements.
-/
namespace Microbench.Listing
open Text

structure Contents where
  header : List String
  bodies : List (List String)
deriving DecidableEq

def contents (listing : Listing) : Contents :=
  ⟨listing.header.map Statement.text, listing.routines.map Routine.lines⟩

namespace Contents

structure SingleLines (contents : Contents) : Prop where
  header : ∀ line ∈ contents.header, SingleLine line
  bodies : ∀ body ∈ contents.bodies, ∀ line ∈ body, SingleLine line

def laid (contents : Contents) : List String :=
  contents.header.map Indent.laid ++
    contents.bodies.flatMap fun body => "" :: body.map Indent.laid

def lineCount (contents : Contents) : Nat :=
  contents.header.length + (contents.bodies.map fun body => body.length + 1).sum

/-- Cuts the lines of a text at the empty ones and takes the tabs away. The last piece of the
text stands behind its last newline and is no line. -/
def read? (text : String) : Option Contents := do
  match ← ((lines text).dropLast.splitOn "").mapM (List.mapM Indent.unlaid?) with
  | header :: bodies => return ⟨header, bodies⟩
  | [] => none

end Contents

section writing

theorem routines_laid (routines : List Routine) (written : String) :
    routines.foldl (fun written routine =>
        Indent.appendLines {} (written ++ "\n") routine.lines) written =
      written ++ unlines ((routines.map Routine.lines).flatMap fun body =>
        "" :: body.map Indent.laid) := by
  -- the text so far is a parameter, since every function is written behind it
  induction routines generalizing written with
  | nil => exact String.append_empty.symm
  | cons routine rest ih =>
      rw [List.foldl_cons, ih, Indent.appendLines_laid]
      simp only [List.map_cons, List.flatMap_cons, List.cons_append, unlines_append, unlines_cons,
        String.empty_append, String.append_assoc]

theorem render_laid (listing : Listing) : listing.render = unlines listing.contents.laid := by
  rw [render, routines_laid, Indent.appendLines_laid, String.empty_append, ← unlines_append]
  rfl

theorem laid_filled (text : String) : Indent.laid text ≠ "" := by
  intro empty
  have read := Indent.unlaid_laid text
  rw [empty] at read
  cases read

theorem intercalate_rows (header : List String) (bodies : List (List String)) :
    [""].intercalate (header :: bodies) = header ++ bodies.flatMap ("" :: ·) := by
  induction bodies generalizing header with
  | nil => simp
  | cons body rest ih => simp [List.intercalate_cons_cons, ih]

theorem laid_rows (contents : Contents) : contents.laid =
    [""].intercalate ((contents.header :: contents.bodies).map (List.map Indent.laid)) := by
  rw [List.map_cons, intercalate_rows, List.flatMap_map]
  rfl

theorem laid_single {contents : Contents} (single : contents.SingleLines) :
    ∀ line ∈ contents.laid, SingleLine line := by
  have each (texts : List String) (texts_single : ∀ text ∈ texts, SingleLine text) :
      ∀ line ∈ texts.map Indent.laid, SingleLine line :=
    List.forall_mem_map.mpr fun text member => Indent.laid_single (texts_single text member)
  intro line member
  rcases List.mem_append.mp member with header | body
  · exact each _ single.header line header
  · obtain ⟨body, inside, here⟩ := List.mem_flatMap.mp body
    rcases List.mem_cons.mp here with rfl | here
    · exact (by decide : SingleLine "")
    · exact each body (single.bodies body inside) line here

theorem length_laid (contents : Contents) : contents.laid.length = contents.lineCount := by
  simp [Contents.laid, Contents.lineCount, List.length_flatMap]

end writing

section reading

theorem newlines_unlines (written : List String) (single : ∀ line ∈ written, SingleLine line) :
    (unlines written).toList.count '\n' = written.length := by
  induction written with
  | nil => rfl
  | cons first rest ih =>
      have later := ih fun line member => single line (List.mem_cons_of_mem first member)
      have own : first.toList.count '\n' = 0 :=
        List.count_eq_zero.mpr (single first List.mem_cons_self)
      simp [unlines_cons, String.toList_append, own, later]

theorem rows_unlaid (rows : List (List String)) :
    (rows.map (List.map Indent.laid)).mapM (List.mapM Indent.unlaid?) = some rows := by
  induction rows with
  | nil => rfl
  | cons row rest ih =>
      rw [List.map_cons, List.mapM_cons, Indent.unlaid_all, ih]
      rfl

theorem read_laid {contents : Contents} (single : contents.SingleLines) :
    Contents.read? (unlines contents.laid) = some contents := by
  have filled : ∀ row ∈ (contents.header :: contents.bodies).map (List.map Indent.laid),
      "" ∉ row := by
    intro row member empty
    obtain ⟨texts, _, rfl⟩ := List.mem_map.mp member
    obtain ⟨text, _, made⟩ := List.mem_map.mp empty
    exact laid_filled text made
  have cut : contents.laid.splitOn "" =
      (contents.header :: contents.bodies).map (List.map Indent.laid) := by
    rw [laid_rows]
    exact List.splitOn_intercalate "" filled (List.cons_ne_nil _ _)
  rw [Contents.read?, lines_unlines _ (laid_single single), List.dropLast_concat, cut, rows_unlaid]
  rfl

end reading

/-- Every statement has a line of its own, and an empty line stands in front of every function.
Reading the text gives the header and the functions back, so files that differ in a statement
are different texts. -/
theorem listing_read_back (listing : Listing) (single : listing.contents.SingleLines) :
    lines listing.render = listing.contents.laid ++ [""] ∧
    listing.render.toList.count '\n' = listing.contents.lineCount ∧
    Contents.read? listing.render = some listing.contents ∧
    ∀ other : Listing, other.contents.SingleLines → other.contents ≠ listing.contents →
      other.render ≠ listing.render := by
  have read (file : Listing) (plain : file.contents.SingleLines) :
      Contents.read? file.render = some file.contents := by
    rw [render_laid]
    exact read_laid plain
  constructor
  · rw [render_laid]
    exact lines_unlines _ (laid_single single)
  constructor
  · rw [render_laid, newlines_unlines _ (laid_single single), length_laid]
  constructor
  · exact read listing single
  · intro other plain different same
    have equal := read other plain
    rw [same, read listing single] at equal
    exact different (Option.some.inj equal).symm

def oddListing : Listing :=
  ⟨[], [⟨"f", [.verbatim "", .verbatim "\ta:", .verbatim "::", .verbatim "\t"], []⟩, ⟨"g", [], []⟩]⟩

theorem listing_read_back_odd : oddListing.render = "\n\t\n\ta:\n::\n\t\t\n\n" ∧
    Contents.read? oddListing.render = some ⟨[], [["", "\ta:", "::", "\t"], []]⟩ ∧
    (Listing.mk [] [⟨"f", [.verbatim "\ta:"], []⟩]).render ≠ oddListing.render := by
  have odd := listing_read_back oddListing ⟨by decide, by decide⟩
  exact ⟨by decide, odd.2.2.1, odd.2.2.2 _ ⟨by decide, by decide⟩ (by decide)⟩

end Microbench.Listing
