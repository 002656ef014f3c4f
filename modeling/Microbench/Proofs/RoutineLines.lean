import Microbench.Proofs.CycleRoutine
import Microbench.Proofs.TextLines
import Microbench.Proofs.Transfers
/-!
Which lines of a cycle routine define a label.

A line of a routine holds no newline, and ends in a colon only if it defines a label, because
every other line ends in a number or in a word that is the same in all routines. So the lines of
a routine can be read off its text, and its local labels are those of its blocks, in order.
-/
namespace Microbench
open Text

theorem single_append (front back : String) :
    SingleLine (front ++ back) ↔ SingleLine front ∧ SingleLine back := by
  rw [SingleLine, String.toList_append, List.mem_append, not_or]
  rfl

theorem single_of_unbroken (text : String) (unbroken : ∀ c ∈ text.toList, isBlank c = false) :
    SingleLine text := by
  intro newline
  cases unbroken '\n' newline

theorem numbered_plain (start : String) (number : Nat) :
    endsInColon (symbolName start number).toList = false := colon_number start number

section single

theorem Mips.register_single (reg : Reg) : SingleLine (registerText reg) :=
  .append (by decide) (.number _)

theorem Mips.literal_single (literal : Literal) : SingleLine literal.text := by
  cases literal with
  | plus magnitude => exact .number magnitude
  | minus magnitude => exact .append (by decide) (.number magnitude)

theorem AArch64.narrow_single (reg : Reg) : SingleLine (narrowText reg) := by
  unfold narrowText
  split
  · decide
  · exact .append (by decide) (.number _)

theorem AArch64.wide_single (reg : Reg) : SingleLine (wideText reg) := by
  unfold wideText
  split
  · decide
  · exact .append (by decide) (.number _)

theorem AArch64.condition_single (condition : Condition) : SingleLine condition.text := by
  cases condition <;> decide

theorem repr_single (number : Nat) : SingleLine number.repr := .number number

theorem Mips.Instruction.single_text (instruction : Mips.Instruction)
    (named : ∀ label ∈ instruction.goesTo?, SingleLine label) : SingleLine instruction.text := by
  cases instruction <;> simp_all +decide [text, goesTo?, single_append, register_single,
    literal_single, repr_single]

theorem AArch64.Instruction.single_text (instruction : AArch64.Instruction)
    (named : ∀ label ∈ instruction.goesTo?, SingleLine label) : SingleLine instruction.text := by
  cases instruction <;> simp_all +decide [text, goesTo?, single_append, narrow_single,
    wide_single, condition_single, repr_single]

theorem Statement.instruction_single (statement : Statement) (runs : statement.isInstruction = true)
    (named : ∀ label ∈ statement.goesTo?, SingleLine label) : SingleLine statement.text := by
  cases statement with
  | mips instruction => exact instruction.single_text named
  | aarch64 instruction => exact instruction.single_text named
  | _ => cases runs

end single

namespace Statement

structure Told (statement : Statement) : Prop where
  single : SingleLine statement.text
  colon : endsInColon statement.text.toList = statement.defined?.isSome

section told

theorem label_told (name : String) (single : SingleLine name) : Told (.label name) :=
  ⟨single.append (by decide), colon_label name⟩

/-- Instructions that go to labels of one line stand on lines of their own. -/
theorem told_of_goesTo {statements : List Statement} {labels : List String}
    (goesTo : GoesTo statements labels)
    (proper : ∀ label ∈ labels, SingleLine label ∧ endsInColon label.toList = false) :
    ∀ statement ∈ statements, Told statement := by
  intro statement member
  have own (label : String) (goes : label ∈ statement.goesTo?) :=
    proper label (goesTo.goes ▸ List.mem_filterMap.mpr ⟨statement, member, goes⟩)
  have runs := goesTo.runs statement member
  exact ⟨statement.instruction_single runs fun label goes => (own label goes).1,
    statement.instruction_marked runs fun label goes => (own label goes).2⟩

end told

end Statement

namespace Routine
open Statement

def linesOf? (text : String) : Option (List String) :=
  (Text.lines text).dropLast.mapM Indent.unlaid?

section told

variable (routine : Routine) (told : ∀ statement ∈ routine.statements, Told statement)

include told

theorem linesOf_render : linesOf? routine.render = some routine.lines := by
  have single : ∀ line ∈ routine.lines.map Indent.laid, SingleLine line := by
    simp only [lines, List.mem_map, forall_exists_index, and_imp, forall_apply_eq_imp_iff₂]
    exact fun statement member => Indent.laid_single (told statement member).single
  rw [linesOf?, render, Indent.appendLines_laid, String.empty_append, lines_unlines _ single,
    List.dropLast_concat, Indent.unlaid_all]

end told

section marked

variable (routine : Routine) (marked : ∀ statement ∈ routine.statements,
  endsInColon statement.text.toList = statement.defined?.isSome)

include marked

theorem colons_marked : routine.lines.filter (fun line => endsInColon line.toList) =
    (routine.statements.filterMap defined?).map (· ++ ":") := by
  obtain ⟨name, statements, preserved⟩ := routine
  simp only [lines] at marked ⊢
  induction statements with
  | nil => rfl
  | cons statement rest ih =>
      have colon := marked statement List.mem_cons_self
      have later := ih fun other member => marked other (List.mem_cons_of_mem statement member)
      rw [List.map_cons, List.filter_cons, colon, later]
      cases statement <;> rfl

/-- Labels that do not end in a colon themselves are seen as they are. -/
theorem localLabels_marked
    (plain : ∀ name ∈ routine.statements.filterMap defined?, endsInColon name.toList = false) :
    routine.localLabels =
      (routine.statements.filterMap defined?).filter fun name => name != routine.name := by
  have both : (fun line : String => endsInColon line.toList && line != routine.name ++ ":") =
      fun line => (line != routine.name ++ ":") && endsInColon line.toList := by
    funext line
    exact Bool.and_comm _ _
  rw [localLabels, both, ← List.filter_filter, colons_marked routine marked, List.filter_map,
    List.map_map]
  have same : ((fun line => line != routine.name ++ ":") ∘ fun name : String => name ++ ":") =
      fun name => name != routine.name := by
    funext name
    rw [Bool.eq_iff_iff]
    simp only [Function.comp, bne_iff_ne, ne_eq, String.append_left_inj]
  rw [same]
  conv => rhs; rw [← List.map_id (List.filter _ _)]
  apply List.map_congr_left
  intro name member
  exact drop_label name (plain name (List.mem_filter.mp member |>.1))

end marked

end Routine

namespace CycleFamily
open Statement Target

section told

variable (target : Target)

theorem leaving_told (chain : Chain) (label : Nat) :
    ∀ statement ∈ leaving target chain label, Told statement := by
  apply told_of_goesTo (leaving_goesTo target chain label)
  intro name member
  cases List.mem_singleton.mp member
  exact ⟨.append (by decide) (.number _), numbered_plain ".L" _⟩

theorem returnSize_told (size : Nat) : ∀ statement ∈ returnSize target size, Told statement :=
  told_of_goesTo (returnSize_goesTo target size) nofun

variable (start : String) (size : Nat) (single : SingleLine start)

include single

theorem opening_told :
    ∀ statement ∈ target.opening (symbolName start size) false, Told statement := by
  have named : SingleLine (symbolName start size) := single.append (.number size)
  have shown := opening_legible target _ (numbered_plain start size) false
  have alone : ∀ statement ∈ target.opening (symbolName start size) false,
      SingleLine statement.text := by
    obtain ⟨_ | _, abi⟩ := target <;>
      simp +decide [opening, claimsTemporary, text, Directive.text, TypeMark.text, single_append,
        named]
  exact fun statement member => ⟨alone statement member, (shown statement member).marked⟩

theorem closing_told :
    ∀ statement ∈ target.closing (symbolName start size) false, Told statement := by
  have named : SingleLine (symbolName start size) := single.append (.number size)
  have shown := closing_legible target _ (numbered_plain start size) false
  have alone : ∀ statement ∈ target.closing (symbolName start size) false,
      SingleLine statement.text := by
    obtain ⟨_ | _, abi⟩ := target <;>
      simp +decide [closing, claimsTemporary, text, Directive.text, single_append, named]
  exact fun statement member => ⟨alone statement member, (shown statement member).marked⟩

end told

section routines

variable (family : CycleFamily) (chain : Chain)

theorem statements_told (single : SingleLine family.symbolStart) :
    ∀ statement ∈ family.statements chain, Told statement := by
  have labels (label : Nat) : Told (.label (cycleLabel label)) :=
    label_told _ (.append (by decide) (.number label))
  simp only [statements, blocks_edges, List.forall_mem_append]
  exact ⟨⟨⟨opening_told family.target _ chain.size single,
    blocks_all family.target chain Told labels (leaving_told family.target chain) 0 chain.size⟩,
    returnSize_told family.target chain.size⟩, closing_told family.target _ chain.size single⟩

theorem statements_labels : (family.statements chain).filterMap defined? =
    family.symbol chain.size :: (List.range chain.size).map cycleLabel := by
  obtain ⟨opening, opened⟩ := opening_directives family.target (family.symbol chain.size) false
  obtain ⟨closing, closed⟩ := closing_directives family.target (family.symbol chain.size) false
  have returns := (returnSize_goesTo family.target chain.size).unlabelled
  simp only [statements, opened, closed, blocks_edges, List.filterMap_append, directives_unlabelled,
    returns, blocks_labels, List.range_eq_range', List.filterMap_cons, List.filterMap_nil, defined?,
    List.nil_append, List.append_nil, List.singleton_append]

/-- The entry is left out, and no block is taken for it. -/
theorem localLabels_blocks (single : SingleLine family.symbolStart) (preserved : List Reg) :
    Routine.localLabels ⟨family.symbol chain.size, family.statements chain, preserved⟩ =
      (List.range chain.size).map cycleLabel := by
  have told := statements_told family chain single
  rw [Routine.localLabels_marked _ fun statement member => (told statement member).colon]
  · rw [statements_labels, List.filter_cons_of_neg (by simp), List.filter_eq_self]
    intro name member
    obtain ⟨label, inside, rfl⟩ := List.mem_map.mp member
    have below := List.mem_range.mp inside
    exact bne_iff_ne.mpr (symbol_not_cycleLabel family.symbolStart _ label below).symm
  · intro name member
    rw [statements_labels] at member
    rcases List.mem_cons.mp member with rfl | block
    · exact colon_number _ _
    · obtain ⟨label, _, rfl⟩ := List.mem_map.mp block
      exact colon_number _ _

end routines

end CycleFamily

end Microbench
