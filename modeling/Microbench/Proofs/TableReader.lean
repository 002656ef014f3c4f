import Microbench.Proofs.HeaderReader
/-!
A header has the table that it was made from.

All that a table holds can be read from its header: four names, and the slots with their order.
A slot that is `NULL` is read as an empty one, so a function of this name is the only thing that
a header cannot tell.
-/
namespace Microbench.Declarations
open Text

def slot (initialiser : String) : Option String :=
  if initialiser = "NULL" then none else some initialiser

def table (header : Declarations) : FunctionTable :=
  ⟨header.guard, header.countMacro, header.typedefName, header.tableName,
    header.initialisers.map slot⟩

def slotLines (entries : List (Option String)) : List String :=
  entries.mapIdx fun place entry =>
    Indent.laid (entry.getD "NULL" ++ if place + 1 = entries.length then "" else ",")

structure Declares (header : Declarations) (table : FunctionTable) : Prop where
  countMacro : header.countMacro = table.countMacro
  count : header.count = table.size
  slots : header.initialisers.length = table.size
  slot : ∀ place : Nat, header.initialisers[place]? = table.entries[place]?.map (·.getD "NULL")
  declared : header.prototypes = table.entries.filterMap id
  whole : header.table = table

section slots

theorem initialisers_at (entries : List (Option String)) (place : Nat) :
    (FunctionTable.initialisers entries)[place]? = entries[place]?.map fun entry =>
      entry.getD "NULL" ++ if place + 1 = entries.length then "" else "," := by
  induction entries using FunctionTable.initialisers.induct generalizing place with
  | case1 => rfl
  | case2 last =>
      cases place with
      | zero => simp [FunctionTable.initialisers]
      | succ place => rfl
  | case3 entry rest several ih =>
      rw [FunctionTable.initialisers.eq_3 _ _ several]
      cases place with
      | zero => simpa using several
      | succ place => simp [ih]

theorem slotLines_laid (entries : List (Option String)) :
    (FunctionTable.initialisers entries).map Indent.laid = slotLines entries := by
  apply List.ext_getElem?
  intro place
  rw [List.getElem?_map, initialisers_at, slotLines, List.getElem?_mapIdx, Option.map_map]
  rfl

theorem slots_named (entries : List (Option String)) (named : some "NULL" ∉ entries) :
    (entries.map (·.getD "NULL")).map slot = entries := by
  have each : ∀ entry ∈ entries, slot (entry.getD "NULL") = entry := by
    intro entry member
    cases entry with
    | none => rfl
    | some name =>
        have other : name ≠ "NULL" := fun same => named (same ▸ member)
        exact if_neg other
  rw [List.map_map]
  exact (List.map_congr_left each).trans (List.map_id entries)

end slots

/-- A header shows as many slots as its macro says, every slot in its place with commas between
them, and it declares the functions that stand in slots, each as often as it does. So it is the
header of one table only, as long as no function is called `NULL`. -/
theorem table_read_back (table : FunctionTable) (single : SingleLines table)
    (named : some "NULL" ∉ table.entries) :
    lines table.render =
      ["#ifndef " ++ table.guard, "#define " ++ table.guard, "#include <stddef.h>",
        "#define " ++ table.countMacro ++ " " ++ toString table.size,
        "typedef int (*" ++ table.typedefName ++ ")(int x);"] ++
      (table.entries.filterMap id).map (fun name => "int " ++ name ++ "(int x);") ++
      ["static const " ++ table.typedefName ++ " " ++ table.tableName ++ "[" ++
        table.countMacro ++ "] = \x7b"] ++
      slotLines table.entries ++ ["\x7d;", "#endif", ""] ∧
    (∃ header, read? table.render = some header ∧ Declares header table) ∧
    ∀ other : FunctionTable, SingleLines other → some "NULL" ∉ other.entries →
      other.render = table.render → other = table := by
  have found (any : FunctionTable) (plain : SingleLines any) (apart : some "NULL" ∉ any.entries) :
      ∃ header, read? any.render = some header ∧ Declares header any := by
    refine ⟨_, read_render any plain, ?_⟩
    constructor
    case countMacro => rfl
    case count => rfl
    case slots => exact List.length_map _
    case slot => exact fun place => List.getElem?_map
    case declared => rfl
    case whole => rw [Declarations.table, slots_named any.entries apart]
  constructor
  · rw [render_written, lines_unlines _ (written_single table single), written, slotLines_laid]
    simp only [String.append_empty, String.append_assoc, List.append_assoc, List.cons_append,
      List.nil_append]
  constructor
  · exact found table single named
  · intro other plain apart same
    obtain ⟨header, read, declares⟩ := found table single named
    obtain ⟨header', read', declares'⟩ := found other plain apart
    rw [same, read] at read'
    cases read'
    exact declares'.whole.symm.trans declares.whole

def oddTable : FunctionTable :=
  ⟨"a b", "#define", "", "t[", [some "\x7d;", none, some "f,", some "f,", some "\t:"]⟩

theorem table_read_back_odd :
    (∃ header, read? oddTable.render = some header ∧ Declares header oddTable) ∧
    slotLines oddTable.entries = ["\t\x7d;,", "\tNULL,", "\tf,,", "\tf,,", "\t:"] ∧
    ∀ other : FunctionTable, SingleLines other → some "NULL" ∉ other.entries →
      other.render = oddTable.render → other = oddTable := by
  have single : SingleLines oddTable := by
    refine ⟨by decide, by decide, by decide, by decide, ?_⟩
    simp [oddTable, SingleLine]
  have odd := table_read_back oddTable single (by decide)
  exact ⟨odd.2.1, by decide, odd.2.2⟩

end Microbench.Declarations
