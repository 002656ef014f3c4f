import Microbench.FunctionTable
import Microbench.Proofs.TextLines
/-!
Reading a header back.

The reader takes a header apart line by line and lets nothing pass that is neither a line of
the frame, a declaration, nor an initialiser. It counts no slots itself, so the number that it
finds for the macro and the initialisers that it lists come from different places of the text.
What a table is rendered to is read as that table.
-/
namespace Microbench

structure Declarations where
  guard : String
  countMacro : String
  count : Nat
  typedefName : String
  prototypes : List String
  tableName : String
  initialisers : List String
deriving DecidableEq

namespace Declarations
open Text

section reading

def counter? (line : String) : Option (String × Nat) := do
  let digits := (line.toList.reverse.takeWhile (· ≠ ' ')).reverse
  let count ← decimal? digits
  let countMacro ← between? "#define " (" " ++ String.ofList digits) line
  return (countMacro, count)

def prototype? (line : String) : Option String := between? "int " "(int x);" line

def declared : List String → List String × List String
  | [] => ([], [])
  | line :: rest =>
    match prototype? line with
    | some name => (name :: (declared rest).1, (declared rest).2)
    | none => ([], line :: rest)

def uncomma? : List String → Option (List String)
  | [] => some []
  | [last] => some [last]
  | first :: rest => do
    let entry ← between? "" "," first
    let others ← uncomma? rest
    return entry :: others

def initialisers? (lines : List String) : Option (List String) :=
  if lines.dropWhile (· ≠ "\x7d;") = ["\x7d;", "#endif", ""] then
    ((lines.takeWhile (· ≠ "\x7d;")).mapM Indent.unlaid?).bind uncomma?
  else none

def readLines? : List String → Option Declarations
  | guarded :: defined :: included :: counted :: typed :: rest => do
    let guard ← between? "#ifndef " "" guarded
    let again ← between? "#define " "" defined
    let (countMacro, count) ← counter? counted
    let typedefName ← between? "typedef int (*" ")(int x);" typed
    match declared rest with
    | (_, []) => none
    | (prototypes, opened :: listed) =>
      let tableName ← between? ("static const " ++ typedefName ++ " ")
        ("[" ++ countMacro ++ "] = \x7b") opened
      let initialisers ← initialisers? listed
      if again = guard ∧ included = "#include <stddef.h>" then
        return ⟨guard, countMacro, count, typedefName, prototypes, tableName, initialisers⟩
      else none
  | _ => none

def read? (text : String) : Option Declarations := readLines? (lines text)

end reading

section lines

theorem counter_written (countMacro : String) (count : Nat) :
    counter? ("#define " ++ countMacro ++ (" " ++ toString count)) = some (countMacro, count) := by
  have solid : ∀ c ∈ (Nat.toDigits 10 count).reverse, decide (c ≠ ' ') = true := by
    intro c member
    rw [List.mem_reverse] at member
    rw [decide_eq_true_eq]
    rintro rfl
    cases digit_of_mem count ' ' member
  have numbered : (" " ++ toString count).toList = ' ' :: Nat.toDigits 10 count := by
    rw [String.toList_append, Nat.toString_eq_repr, Nat.toList_repr]
    rfl
  have digits : (("#define " ++ countMacro ++ (" " ++ toString count)).toList.reverse.takeWhile
      (· ≠ ' ')).reverse = Nat.toDigits 10 count := by
    rw [String.toList_append, numbered, List.reverse_append, List.reverse_cons, List.append_assoc,
      List.takeWhile_append_of_pos solid]
    simp
  have number : String.ofList (Nat.toDigits 10 count) = toString count := by
    rw [← Nat.toList_repr, String.ofList_toList, Nat.toString_eq_repr]
  simp only [counter?, digits, decimal_digits, number, between_written, Option.bind_eq_bind,
    Option.bind_some, Option.pure_def]

theorem declared_written (names : List String) (line : String) (rest : List String)
    (ends : prototype? line = none) :
    declared (names.map (fun name => "int " ++ name ++ "(int x);") ++ line :: rest) =
      (names, line :: rest) := by
  induction names with
  | nil => simp only [List.map_nil, List.nil_append, declared, ends]
  | cons name others ih =>
      simp only [List.map_cons, List.cons_append, declared, prototype?, between_written, ih]

theorem uncomma_written (entries : List (Option String)) :
    uncomma? (FunctionTable.initialisers entries) = some (entries.map (·.getD "NULL")) := by
  induction entries using FunctionTable.initialisers.induct with
  | case1 => rfl
  | case2 last => rfl
  | case3 entry rest several ih =>
      cases rest with
      | nil => exact absurd rfl several
      | cons second later =>
          obtain ⟨line, lines, parted⟩ : ∃ line lines,
              FunctionTable.initialisers (second :: later) = line :: lines := by
            cases later <;> exact ⟨_, _, rfl⟩
          have first := between_written "" "," (entry.getD "NULL")
          rw [String.empty_append] at first
          rw [parted] at ih
          rw [FunctionTable.initialisers, parted, uncomma?, first, ih]
          · rfl
          · exact List.cons_ne_nil line lines
          · exact several

-- A missing comma is noticed.
example : uncomma? ["NULL", "func1"] = none := by decide

end lines

section rendering

def written (table : FunctionTable) : List String :=
  ["#ifndef " ++ table.guard ++ "", "#define " ++ table.guard ++ "", "#include <stddef.h>",
    "#define " ++ table.countMacro ++ (" " ++ toString table.size),
    "typedef int (*" ++ table.typedefName ++ ")(int x);"] ++
  (table.entries.filterMap id).map (fun name => "int " ++ name ++ "(int x);") ++
  ["static const " ++ table.typedefName ++ " " ++ table.tableName ++
    ("[" ++ table.countMacro ++ "] = \x7b")] ++
  (FunctionTable.initialisers table.entries).map Indent.laid ++ ["\x7d;", "#endif"]

theorem declarations_written (names : List String) :
    String.join (names.map FunctionTable.declaration) =
      unlines (names.map fun name => "int " ++ name ++ "(int x);") := by
  induction names with
  | nil => rfl
  | cons name rest ih =>
      have ended : "(int x);\n" = "(int x);" ++ "\n" := rfl
      simp only [List.map_cons, String.join_cons, unlines_cons, ih, FunctionTable.declaration, ended,
        String.append_assoc]

theorem render_written (table : FunctionTable) : table.render = unlines (written table) := by
  have none : unlines [] = "" := rfl
  have included : "#include <stddef.h>\n" = "#include <stddef.h>" ++ "\n" := rfl
  have typed : ")(int x);\n" = ")(int x);" ++ "\n" := rfl
  have opened : "] = \x7b\n" = "] = \x7b" ++ "\n" := rfl
  have closed : "\x7d;\n" = "\x7d;" ++ "\n" := rfl
  have ended : "#endif\n" = "#endif" ++ "\n" := rfl
  unfold FunctionTable.render written
  simp only [declarations_written, Indent.appendLines_laid, unlines_append, unlines_cons, none,
    included, typed, opened, closed, ended, String.append_assoc, String.empty_append,
    String.append_empty]

structure SingleLines (table : FunctionTable) : Prop where
  guard : SingleLine table.guard
  countMacro : SingleLine table.countMacro
  typedefName : SingleLine table.typedefName
  tableName : SingleLine table.tableName
  entries : ∀ name, some name ∈ table.entries → SingleLine name

theorem initialisers_single (entries : List (Option String))
    (single : ∀ name, some name ∈ entries → SingleLine name) :
    ∀ line ∈ FunctionTable.initialisers entries, SingleLine line := by
  have entry (slot : Option String) (member : slot ∈ entries) : SingleLine (slot.getD "NULL") := by
    cases slot with
    | none => exact (by decide : SingleLine "NULL")
    | some name => exact single name member
  clear single
  induction entries using FunctionTable.initialisers.induct with
  | case1 => exact fun line member => absurd member List.not_mem_nil
  | case2 last =>
      intro line member
      cases List.mem_singleton.mp member
      exact entry last List.mem_cons_self
  | case3 first rest several ih =>
      rw [FunctionTable.initialisers]
      · rintro line (_ | ⟨_, later⟩)
        · exact (entry first List.mem_cons_self).append (by decide)
        · exact ih (fun slot member => entry slot (List.mem_cons_of_mem first member)) line later
      · exact several

theorem written_single (table : FunctionTable) (single : SingleLines table) :
    ∀ line ∈ written table, SingleLine line := by
  obtain ⟨guard, countMacro, typedefName, tableName, entries⟩ := single
  have names : ∀ name ∈ table.entries.filterMap id, SingleLine ("int " ++ name ++ "(int x);") := by
    intro name member
    obtain ⟨slot, found, rfl⟩ := List.mem_filterMap.mp member
    exact (SingleLine.append (by decide) (entries name found)).append (by decide)
  have slots (text : String) (member : text ∈ FunctionTable.initialisers table.entries) :
      SingleLine (Indent.laid text) :=
    Indent.laid_single (initialisers_single table.entries entries text member)
  simp only [written, List.forall_mem_append, List.forall_mem_cons, List.forall_mem_map]
  refine ⟨⟨⟨⟨⟨?_, ?_, by decide, ?_, ?_, by simp⟩, names⟩, ?_, by simp⟩, slots⟩, by decide, by decide,
    by simp⟩
  · exact (SingleLine.append (by decide) guard).append (by decide)
  · exact (SingleLine.append (by decide) guard).append (by decide)
  · exact (SingleLine.append (by decide) countMacro).append
      (SingleLine.append (by decide) (SingleLine.number _))
  · exact (SingleLine.append (by decide) typedefName).append (by decide)
  · exact (((SingleLine.append (by decide) typedefName).append (by decide)).append tableName).append
      ((SingleLine.append (by decide) countMacro).append (by decide))

theorem initialisers_written (entries : List (Option String)) :
    initialisers? ((FunctionTable.initialisers entries).map Indent.laid ++
      ["\x7d;", "#endif", ""]) = some (entries.map (·.getD "NULL")) := by
  -- no line of the table is the one that closes it, as that is not laid out as lines are
  have closed : Indent.unlaid? "\x7d;" = none := by decide
  have inside : ∀ line ∈ (FunctionTable.initialisers entries).map Indent.laid,
      decide (line ≠ "\x7d;") = true := by
    intro line member
    obtain ⟨text, _, rfl⟩ := List.mem_map.mp member
    rw [decide_eq_true_eq]
    intro same
    rw [← same, Indent.unlaid_laid] at closed
    cases closed
  rw [initialisers?, List.dropWhile_append_of_pos inside, List.takeWhile_append_of_pos inside]
  have behind : ["\x7d;", "#endif", ""].takeWhile (fun line => decide (line ≠ "\x7d;")) = [] := rfl
  rw [behind, List.append_nil, Indent.unlaid_all, Option.bind_some, uncomma_written]
  exact if_pos rfl

/-- What a table is rendered to is read as the table. -/
theorem read_render (table : FunctionTable) (single : SingleLines table) :
    read? table.render = some ⟨table.guard, table.countMacro, table.size, table.typedefName,
      table.entries.filterMap id, table.tableName, table.entries.map (·.getD "NULL")⟩ := by
  let opened := "static const " ++ table.typedefName ++ " " ++ table.tableName ++
    ("[" ++ table.countMacro ++ "] = \x7b")
  have ends : prototype? opened = none := by
    cases found : prototype? opened with
    | none => rfl
    | some name =>
        have same := congrArg (fun line => line.toList.head?) (line_of_between found)
        simp [opened] at same
  have parted : written table ++ [""] =
      ("#ifndef " ++ table.guard ++ "") :: ("#define " ++ table.guard ++ "") ::
      "#include <stddef.h>" :: ("#define " ++ table.countMacro ++ (" " ++ toString table.size)) ::
      ("typedef int (*" ++ table.typedefName ++ ")(int x);") ::
      ((table.entries.filterMap id).map (fun name => "int " ++ name ++ "(int x);") ++ opened ::
        ((FunctionTable.initialisers table.entries).map Indent.laid ++
          ["\x7d;", "#endif", ""])) := by
    simp only [written, opened, List.append_assoc, List.cons_append, List.nil_append]
  rw [read?, render_written, lines_unlines _ (written_single table single), parted, readLines?]
  simp only [between_written, counter_written, declared_written _ _ _ ends, initialisers_written,
    opened, Option.bind_eq_bind, Option.bind_some, and_self, ↓reduceIte, Option.pure_def]

end rendering

end Declarations

end Microbench
