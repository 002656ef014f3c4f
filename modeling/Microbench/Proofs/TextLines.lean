import Microbench.Layout
import Microbench.Proofs.WrittenLine
/-!
Texts that are put together from lines.

A newline ends a line and stands nowhere else in it, so cutting a text at its newlines gives
its lines back. What the layout put in front of a line can be told from the line, because a
line without a tab ends in a colon.
-/
namespace Microbench

namespace Text

def lines (text : String) : List String := (pieces '\n' text.toList).map String.ofList

def unlines (lines : List String) : String := String.join (lines.map (· ++ "\n"))

theorem unlines_append (first second : List String) :
    unlines (first ++ second) = unlines first ++ unlines second := by
  rw [unlines, List.map_append, String.join_append]
  rfl

theorem unlines_cons (line : String) (rest : List String) :
    unlines (line :: rest) = line ++ "\n" ++ unlines rest := by
  rw [unlines, List.map_cons, String.join_cons]
  rfl

def SingleLine (text : String) : Prop := '\n' ∉ text.toList

instance (text : String) : Decidable (SingleLine text) := inferInstanceAs (Decidable (_ ∉ _))

theorem SingleLine.append {front back : String} (first : SingleLine front)
    (second : SingleLine back) : SingleLine (front ++ back) := by
  rw [SingleLine, String.toList_append, List.mem_append, not_or]
  exact ⟨first, second⟩

theorem SingleLine.number (number : Nat) : SingleLine (toString number) := by
  intro member
  rw [Nat.toString_eq_repr, Nat.toList_repr] at member
  cases digit_of_mem number '\n' member

theorem lines_unlines (written : List String) (single : ∀ line ∈ written, SingleLine line) :
    lines (unlines written) = written ++ [""] := by
  induction written with
  | nil => rfl
  | cons first rest ih =>
      have later := ih fun line member => single line (List.mem_cons_of_mem first member)
      have text : (unlines (first :: rest)).toList =
          first.toList ++ '\n' :: (unlines rest).toList := by
        rw [unlines_cons, String.toList_append, String.toList_append, List.append_assoc]
        rfl
      rw [lines, text, pieces_append '\n' _ _ (single first List.mem_cons_self), List.map_cons,
        String.ofList_toList]
      exact congrArg (first :: ·) later

def between? (front back line : String) : Option String :=
  let rest := line.toList.drop front.toList.length
  let middle := String.ofList (rest.take (rest.length - back.toList.length))
  if line = front ++ middle ++ back then some middle else none

theorem between_written (front back middle : String) :
    between? front back (front ++ middle ++ back) = some middle := by
  have rest : (front ++ middle ++ back).toList.drop front.toList.length =
      middle.toList ++ back.toList := by
    rw [String.toList_append, String.toList_append, List.append_assoc, List.drop_left]
  have shorter : (middle.toList ++ back.toList).length - back.toList.length =
      middle.toList.length := by
    rw [List.length_append, Nat.add_sub_cancel]
  rw [between?, rest, shorter, List.take_left, String.ofList_toList]
  exact if_pos rfl

theorem line_of_between {front back line middle : String}
    (found : between? front back line = some middle) : line = front ++ middle ++ back := by
  simp only [between?] at found
  split at found
  · next same =>
    cases found
    exact same
  · cases found

section colons

theorem colon_append (front back : String) (present : back.toList ≠ []) :
    endsInColon (front ++ back).toList = endsInColon back.toList := by
  rw [endsInColon, String.toList_append, List.getLast?_append,
    Option.or_of_isSome (List.getLast?_isSome.mpr present)]
  rfl

theorem colon_number (front : String) (number : Nat) :
    endsInColon (front ++ toString number).toList = false := by
  rw [colon_append front _ (by simp [Nat.toDigits_ne_nil]), endsInColon, beq_eq_false_iff_ne]
  intro colon
  rw [Nat.toString_eq_repr, Nat.toList_repr] at colon
  cases digit_of_mem number ':' (List.mem_of_getLast? colon)

theorem colon_label (name : String) : endsInColon (name ++ ":").toList = true :=
  colon_append name ":" (by decide)

theorem drop_label (name : String) (plain : endsInColon name.toList = false) :
    String.ofList (dropColons (name ++ ":").toList) = name := by
  have whole : (name.toList.reverse.dropWhile (· == ':')).reverse = name.toList := by
    cases backwards : name.toList.reverse with
    | nil => rw [← List.reverse_reverse name.toList, backwards]; rfl
    | cons last rest =>
        have other : (last == ':') = false := by
          rw [endsInColon, List.getLast?_eq_head?_reverse, backwards] at plain
          simpa using plain
        rw [List.dropWhile_cons_of_neg (by rw [other]; decide), ← backwards, List.reverse_reverse]
  rw [dropColons, String.toList_append, List.reverse_append]
  show String.ofList (name.toList.reverse.dropWhile (· == ':')).reverse = name
  rw [whole, String.ofList_toList]

end colons

end Text

namespace Indent
open Text

def laid (text : String) : String := if endsInColon text.toList then text else "\t" ++ text

def unlaid? (line : String) : Option String :=
  if endsInColon line.toList then some line
  else if line.toList.head? = some '\t' then some (String.ofList line.toList.tail)
  else none

theorem unlaid_laid (text : String) : unlaid? (laid text) = some text := by
  unfold laid
  by_cases label : endsInColon text.toList = true
  · rw [if_pos label, unlaid?, if_pos label]
  · have tabbed : ("\t" ++ text).toList = '\t' :: text.toList := String.toList_append
    have indented : endsInColon ('\t' :: text.toList) ≠ true := by
      unfold endsInColon at label ⊢
      cases spelt : text.toList with
      | nil => decide
      | cons first rest =>
          rw [spelt] at label
          rwa [List.getLast?_cons_cons]
    rw [if_neg label, unlaid?, tabbed, if_neg indented, List.tail_cons, String.ofList_toList]
    exact if_pos rfl

theorem unlaid_all (texts : List String) : (texts.map laid).mapM unlaid? = some texts := by
  induction texts with
  | nil => rfl
  | cons text rest ih =>
      rw [List.map_cons, List.mapM_cons, unlaid_laid, ih]
      rfl

theorem line_laid (text : String) : line {} text = laid text ++ "\n" := by
  unfold line laid
  split
  · rfl
  · rfl

theorem appendLines_laid (written : String) (lines : List String) :
    appendLines {} written lines = written ++ unlines (lines.map laid) := by
  induction lines generalizing written with
  | nil => exact String.append_empty.symm
  | cons first rest ih =>
      rw [append_lines_cons, ih, line_laid, List.map_cons, unlines_cons, String.append_assoc]

theorem laid_single {text : String} (single : SingleLine text) : SingleLine (laid text) := by
  unfold laid
  split
  · exact single
  · exact SingleLine.append (by decide) single

end Indent

end Microbench
