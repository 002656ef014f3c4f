import Microbench.Architecture
import Microbench.Statement
import Microbench.Proofs.AArch64.Reader
import Microbench.Proofs.Mips.Reader
/-!
Lines of source assembled into code.

A line without blanks that ends in a colon defines a label, a line that begins with a point
is a directive, and any other line has to be an instruction. No label may be defined twice.
Statements that fit their architecture assemble from their text into the cells that they
stand for.
-/
namespace Microbench

def Architecture.isa : Architecture → InstructionSet
  | .mips32 => Mips.instructionSet
  | .aarch64 => AArch64.instructionSet

namespace InstructionSet

variable (isa : InstructionSet)

def cell? (line : String) : Option (Cell isa.Instruction) :=
  let text := line.toList
  if Text.endsInColon text && text.all (fun c => !Text.isBlank c) then
    some (.label (String.ofList text.dropLast))
  else if text.head? = some '.' then some .directive
  else (isa.read? line).map .instruction

def assemble (lines : List String) : Option isa.Code :=
  match lines.mapM isa.cell? with
  | some cells => if (cells.filterMap Cell.label?).Nodup then some cells else none
  | none => none

end InstructionSet

namespace Statement

def defined? : Statement → Option String
  | .label name => some name
  | _ => none

def cell : (architecture : Architecture) → Statement → Cell architecture.isa.Instruction
  | _, .label name => .label name
  | .mips32, .mips instruction => .instruction instruction
  | .aarch64, .aarch64 instruction => .instruction instruction
  | _, _ => .directive

/-- Whether a statement's text is read as what the statement says. -/
def Fits : Architecture → Statement → Prop
  | _, .label name => ∀ c ∈ name.toList, Text.isBlank c = false
  | _, .directive _ => True
  | .mips32, .mips instruction => instruction.Fits
  | .aarch64, .aarch64 instruction => instruction.Fits
  | _, _ => False

theorem label_cell (architecture : Architecture) (statement : Statement) :
    (statement.cell architecture).label? = statement.defined? := by
  cases architecture <;> cases statement <;> rfl

theorem labels_cells (architecture : Architecture) (statements : List Statement) :
    (statements.map (cell architecture)).filterMap Cell.label? =
      statements.filterMap defined? := by
  rw [List.filterMap_map]
  congr 1
  funext statement
  exact label_cell architecture statement

section texts

theorem label_line (isa : InstructionSet) (name : String)
    (shown : ∀ c ∈ name.toList, Text.isBlank c = false) :
    isa.cell? (Statement.label name).text = some (.label name) := by
  have ended : Text.endsInColon (name.toList ++ [':']) = true := by simp [Text.endsInColon]
  have unbroken : (name.toList ++ [':']).all (fun c => !Text.isBlank c) = true := by
    simpa [show Text.isBlank ':' = false from rfl] using shown
  have text : (Statement.label name).text.toList = name.toList ++ [':'] := by
    simp [Statement.text]
  simp only [InstructionSet.cell?, text, ended, unbroken, Bool.and_self, ↓reduceIte,
    List.dropLast_concat, String.ofList_toList]

theorem directive_line (isa : InstructionSet) (line : Directive) :
    isa.cell? line.text = some .directive := by
  have pointed : line.text.toList.head? = some '.' := by cases line <;> simp [Directive.text]
  have unlabelled : (Text.endsInColon line.text.toList &&
      line.text.toList.all fun c => !Text.isBlank c) = false := by
    cases line
    case textSection => rfl
    all_goals simp [Directive.text, show Text.isBlank ' ' = true from rfl]
  simp [InstructionSet.cell?, unlabelled, pointed]

/-- A line is an instruction's if it is neither a label's nor a directive's. -/
theorem instruction_line (isa : InstructionSet) (line : String) (instruction : isa.Instruction)
    (unlabelled : (Text.endsInColon line.toList &&
      line.toList.all fun c => !Text.isBlank c) = false)
    (unpointed : line.toList.head? ≠ some '.') (read : isa.read? line = some instruction) :
    isa.cell? line = some (.instruction instruction) := by
  simp [InstructionSet.cell?, unlabelled, unpointed, read]

theorem mips_line (instruction : Mips.Instruction) (fits : instruction.Fits) :
    Mips.instructionSet.cell? instruction.text = some (.instruction instruction) := by
  have read : Mips.instructionSet.read? instruction.text = some instruction := by
    dsimp only [Mips.instructionSet]
    exact Mips.read_text instruction fits
  refine instruction_line Mips.instructionSet instruction.text instruction ?_ ?_ read
  · cases instruction
    case nop => rfl
    all_goals simp [Mips.Instruction.text, show Text.isBlank ' ' = true from rfl]
  · cases instruction <;> simp [Mips.Instruction.text]

theorem aarch64_line (instruction : AArch64.Instruction) (fits : instruction.Fits) :
    AArch64.instructionSet.cell? instruction.text = some (.instruction instruction) := by
  have read : AArch64.instructionSet.read? instruction.text = some instruction := by
    dsimp only [AArch64.instructionSet]
    exact AArch64.read_text instruction fits
  refine instruction_line AArch64.instructionSet instruction.text instruction ?_ ?_ read
  · cases instruction
    case ret => rfl
    all_goals simp [AArch64.Instruction.text, show Text.isBlank ' ' = true from rfl]
  · cases instruction <;> simp [AArch64.Instruction.text]

theorem cell_text (architecture : Architecture) (statement : Statement)
    (fits : statement.Fits architecture) :
    architecture.isa.cell? statement.text = some (statement.cell architecture) := by
  cases statement with
  | label name =>
      cases architecture
      · exact label_line _ name fits
      · exact label_line _ name fits
  | directive line =>
      cases architecture
      · exact directive_line _ line
      · exact directive_line _ line
  | mips instruction =>
      cases architecture
      · exact mips_line instruction fits
      · cases fits
  | aarch64 instruction =>
      cases architecture
      · cases fits
      · exact aarch64_line instruction fits
  | verbatim line => cases architecture <;> cases fits

end texts

/-- Lines are read one by one. That labels are distinct is asked of all of them together. -/
theorem cells_texts (architecture : Architecture) (statements : List Statement)
    (fits : ∀ statement ∈ statements, statement.Fits architecture) :
    (statements.map text).mapM architecture.isa.cell? =
      some (statements.map (cell architecture)) := by
  induction statements with
  | nil => rfl
  | cons first rest ih =>
      have later := ih fun statement member => fits statement (List.mem_cons_of_mem first member)
      rw [List.map_cons, List.mapM_cons, cell_text _ first (fits first List.mem_cons_self), later]
      rfl

/-- Statements that fit, with every label defined once, assemble from their texts. -/
theorem assemble_texts (architecture : Architecture) (statements : List Statement)
    (fits : ∀ statement ∈ statements, statement.Fits architecture)
    (distinct : (statements.filterMap defined?).Nodup) :
    architecture.isa.assemble (statements.map text) =
      some (statements.map (cell architecture)) := by
  rw [← labels_cells architecture] at distinct
  simp only [InstructionSet.assemble, cells_texts architecture statements fits, distinct, ↓reduceIte]

end Statement

end Microbench
