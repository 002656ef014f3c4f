import Mathlib.Data.List.Basic
import Mathlib.Data.List.TakeWhile
import Microbench.Proofs.ChainReader
import Microbench.Proofs.TextLines
/-!
How the text of statements shows whether they move control, and which labels they name.

A line that ends in a colon defines a label. Any other line is a control transfer if its first
word is the mnemonic of one, and the label that it goes to is its last operand, unless that is a
register or there is none. Statements that fit their architecture are read as what they are, so
the labels that lines define and go to are those of the statements behind them.
-/
namespace Microbench
open Text

namespace Statement

/-- The label among the operands, which stands last and is no register. -/
def Parts.label? (parts : Parts) : Option String :=
  parts.operands.getLast?.filter fun operand => operand.toList.head? != some '$'

end Statement

def definition? (line : String) : Option String :=
  if endsInColon line.toList then some (String.ofList line.toList.dropLast) else none

def Target.reference? (target : Target) (line : String) : Option String :=
  if !endsInColon line.toList && target.isControlTransfer line then
    (Statement.split line).label?
  else none

def definitions (lines : List String) : List String := lines.filterMap definition?

def Target.references (target : Target) (lines : List String) : List String :=
  lines.filterMap target.reference?

section reading
open Statement Target

/-- A directive, or the label of a block, begins with a point, as no mnemonic does. -/
theorem Target.pointed_passive (target : Target) (line : String)
    (pointed : line.toList.head? = some '.') : target.isControlTransfer line = false := by
  obtain ⟨behind, spelt⟩ : ∃ behind, line.toList = '.' :: behind := by
    cases same : line.toList with
    | nil => rw [same] at pointed; cases pointed
    | cons first behind => rw [same] at pointed; cases pointed; exact ⟨behind, rfl⟩
  have word : firstWord line.toList = '.' :: untilBlank behind := by
    rw [spelt, firstWord, trim_start_of_head '.' behind (by decide)]
    rfl
  have absent : ∀ mnemonic ∈ target.controlMnemonics, mnemonic.toList.head? ≠ some '.' := by
    obtain ⟨_ | _, abi⟩ := target <;> simp only [controlMnemonics] <;> decide
  rw [← Bool.not_eq_true, isControlTransfer, startsWithOneOf, word, List.contains_iff_mem]
  intro member
  exact absent _ member (by rw [String.toList_ofList]; rfl)

theorem Text.firstWord_unbroken (text : List Char) (unbroken : ∀ c ∈ text, isBlank c = false) :
    firstWord text = text := by
  have started : trimStart text = text :=
    (trim_start_self_iff text).mpr fun c begins => unbroken c (List.mem_of_head? begins)
  rw [firstWord, started, untilBlank, List.takeWhile_eq_self_iff]
  exact fun c member => by rw [unbroken c member]; rfl

theorem Statement.label_mnemonic (name : String) (unbroken : ∀ c ∈ name.toList, isBlank c = false) :
    (split (name ++ ":")).mnemonic = name ++ ":" := by
  have solid : ∀ c ∈ (name ++ ":").toList, isBlank c = false := by
    intro c member
    rw [String.toList_append] at member
    rcases List.mem_append.mp member with front | back
    · exact unbroken c front
    · cases List.mem_singleton.mp back
      decide
  rw [split_mnemonic, firstWord_unbroken _ solid, String.ofList_toList]

theorem Target.label_passive (target : Target) (name : String)
    (unbroken : ∀ c ∈ name.toList, isBlank c = false) :
    target.isControlTransfer (name ++ ":") = false := by
  -- no mnemonic ends in a colon, but the first word of a label's line does
  have absent : ∀ mnemonic ∈ target.controlMnemonics, endsInColon mnemonic.toList = false := by
    obtain ⟨_ | _, abi⟩ := target <;> simp only [controlMnemonics] <;> decide
  rw [← Bool.not_eq_true, isControlTransfer_split, label_mnemonic name unbroken,
    List.contains_iff_mem]
  intro member
  have ended := absent _ member
  rw [colon_label] at ended
  cases ended

theorem Directive.pointed (line : Directive) : line.text.toList.head? = some '.' := by
  cases line <;> simp [Directive.text]

theorem Mips.Instruction.transfer_text (abi : Abi) (instruction : Mips.Instruction) :
    isControlTransfer ⟨.mips32, abi⟩ instruction.text = instruction.isTransfer := by
  rw [mips_control]
  cases instruction <;> simp [controlMnemonics, parts, isTransfer]

theorem AArch64.Instruction.transfer_text (abi : Abi) (instruction : AArch64.Instruction) :
    isControlTransfer ⟨.aarch64, abi⟩ instruction.text = instruction.isTransfer := by
  rw [aarch64_control]
  cases instruction
  case branchIf condition label =>
    cases condition <;> simp [controlMnemonics, parts, isTransfer, Condition.text]
  all_goals simp [controlMnemonics, parts, isTransfer]

/-- A statement that fits is seen to move control exactly if it does. -/
theorem Statement.transfer_text (target : Target) (statement : Statement)
    (fits : statement.Fits target.architecture) :
    target.isControlTransfer statement.text = statement.isTransfer := by
  cases statement with
  | label name =>
      have unbroken : ∀ c ∈ name.toList, isBlank c = false := by
        obtain ⟨_ | _, abi⟩ := target <;> exact fits
      exact target.label_passive name unbroken
  | directive line => exact target.pointed_passive line.text line.pointed
  | mips instruction =>
      obtain ⟨_ | _, abi⟩ := target
      · exact instruction.transfer_text abi
      · cases fits
  | aarch64 instruction =>
      obtain ⟨_ | _, abi⟩ := target
      · cases fits
      · exact instruction.transfer_text abi
  | verbatim line => obtain ⟨_ | _, abi⟩ := target <;> cases fits

theorem label_last (mnemonic label : String) (front : List String) (fits : LabelFits label) :
    (Parts.mk mnemonic (front ++ [label])).label? = some label := by
  simp [Parts.label?, fits.2]

theorem Mips.Instruction.label_text (instruction : Mips.Instruction)
    (named : ∀ label ∈ instruction.goesTo?, LabelFits label)
    (transfer : instruction.isTransfer = true) :
    (split instruction.text).label? = instruction.goesTo? := by
  rw [instruction.split_text fun label goes => (named label goes).1]
  cases instruction with
  | jump label => exact label_last "j" label [] (named label rfl)
  | jumpRegister rs => simp [parts, Parts.label?, toList_registerText, goesTo?]
  | branchNotEqual rs rt label =>
      exact label_last "bne" label [registerText rs, registerText rt] (named label rfl)
  | branchPositiveLikely rs label =>
      exact label_last "bgtzl" label [registerText rs] (named label rfl)
  | _ => cases transfer

theorem AArch64.Instruction.label_text (instruction : AArch64.Instruction)
    (named : ∀ label ∈ instruction.goesTo?, LabelFits label)
    (transfer : instruction.isTransfer = true) :
    (split instruction.text).label? = instruction.goesTo? := by
  rw [instruction.split_text fun label goes => (named label goes).1]
  cases instruction with
  | branch label | branchIf _ label => exact label_last _ label [] (named label rfl)
  | ret => rfl
  | _ => cases transfer

end reading

section colons
open Statement Target

theorem Text.colon_neither (front back : String) (first : endsInColon front.toList = false)
    (second : endsInColon back.toList = false) : endsInColon (front ++ back).toList = false := by
  by_cases present : back.toList = []
  · rwa [String.toList_append, present, List.append_nil]
  · rw [colon_append front back present, second]

theorem Mips.colon_register (front : String) (reg : Reg) :
    endsInColon (front ++ registerText reg).toList = false := by
  rw [registerText, Reg.digits, ← String.append_assoc]
  exact colon_number (front ++ "$") _

theorem Mips.colon_literal (front : String) (literal : Literal) :
    endsInColon (front ++ literal.text).toList = false := by
  cases literal with
  | plus magnitude => exact colon_number front magnitude
  | minus magnitude =>
      rw [Literal.text, ← String.append_assoc]
      exact colon_number (front ++ "-") magnitude

theorem AArch64.colon_narrow (front : String) (reg : Reg) :
    endsInColon (front ++ narrowText reg).toList = false := by
  unfold narrowText
  split
  · exact colon_append front "wsp" (by decide)
  · rw [Reg.digits, ← String.append_assoc]
    exact colon_number (front ++ "w") _

theorem Mips.Instruction.colon_text (instruction : Mips.Instruction)
    (plain : ∀ label ∈ instruction.goesTo?, endsInColon label.toList = false) :
    endsInColon instruction.text.toList = false := by
  -- an instruction ends in its label, or in a number, a register or a bracket
  cases instruction with
  | jump label => exact colon_neither _ label (by decide) (plain label rfl)
  | jumpRegister rs => exact colon_register _ rs
  | nop => decide
  | branchNotEqual rs rt label =>
      exact colon_neither _ label (colon_append _ "," (by decide)) (plain label rfl)
  | branchPositiveLikely rs label =>
      exact colon_neither _ label (colon_append _ "," (by decide)) (plain label rfl)
  | addImmediate rt rs immediate => exact colon_literal _ immediate
  | multiply rd rs rt => exact colon_register _ rt
  | loadUpper rt immediate => exact colon_number _ _
  | orImmediate rt rs immediate => exact colon_number _ _
  | storeWord rt offset base => exact colon_append _ ")" (by decide)
  | loadWord rt offset base => exact colon_append _ ")" (by decide)

theorem AArch64.Instruction.colon_text (instruction : AArch64.Instruction)
    (plain : ∀ label ∈ instruction.goesTo?, endsInColon label.toList = false) :
    endsInColon instruction.text.toList = false := by
  cases instruction with
  | branch label => exact colon_neither _ label (by decide) (plain label rfl)
  | branchIf condition label =>
      exact colon_neither _ label (colon_append _ " " (by decide)) (plain label rfl)
  | ret => decide
  | move rd rn => exact colon_narrow _ rn
  | multiply rd rn rm => exact colon_narrow _ rm
  | moveUpperZeroing rd immediate => exact colon_append _ ", lsl #16" (by decide)
  | store rt offset => exact colon_append _ "]" (by decide)
  | load rt offset => exact colon_append _ "]" (by decide)
  | _ => exact colon_number _ _

end colons

section legible
open Statement Target

/-- A statement whose line shows whether it defines a label, whether it moves control, and which
label it goes to. -/
structure Statement.Legible (target : Target) (statement : Statement) : Prop where
  marked : endsInColon statement.text.toList = statement.defined?.isSome
  fits : statement.defined? = none → statement.Fits target.architecture
  named : ∀ label ∈ statement.goesTo?, LabelFits label

variable (target : Target)

theorem label_legible (name : String) : (Statement.label name).Legible target where
  marked := colon_label name
  fits := nofun
  named := nofun

theorem directive_legible (line : Directive) (plain : endsInColon line.text.toList = false) :
    (Statement.directive line).Legible target where
  marked := plain
  fits := fun _ => by obtain ⟨_ | _, abi⟩ := target <;> trivial
  named := nofun

omit target in
/-- Instructions are told from labels by the labels that they go to. -/
theorem Statement.instruction_marked (statement : Statement) (runs : statement.isInstruction = true)
    (plain : ∀ label ∈ statement.goesTo?, endsInColon label.toList = false) :
    endsInColon statement.text.toList = statement.defined?.isSome := by
  cases statement with
  | mips instruction => exact instruction.colon_text plain
  | aarch64 instruction => exact instruction.colon_text plain
  | _ => cases runs

theorem instruction_legible (statement : Statement) (runs : statement.isInstruction = true)
    (fits : statement.Fits target.architecture)
    (named : ∀ label ∈ statement.goesTo?, LabelFits label ∧ endsInColon label.toList = false) :
    statement.Legible target where
  marked := statement.instruction_marked runs fun label goes => (named label goes).2
  fits := fun _ => fits
  named := fun label goes => (named label goes).1

theorem Statement.label_text (statement : Statement)
    (named : ∀ label ∈ statement.goesTo?, LabelFits label)
    (transfer : statement.isTransfer = true) :
    (split statement.text).label? = statement.goesTo? := by
  cases statement with
  | mips instruction => exact instruction.label_text named transfer
  | aarch64 instruction => exact instruction.label_text named transfer
  | _ => cases transfer

variable {target} in
theorem Statement.Legible.defines {statement : Statement} (legible : statement.Legible target) :
    definition? statement.text = statement.defined? := by
  rw [definition?, legible.marked]
  cases statement with
  | label name => simp [defined?, text]
  | _ => rfl

variable {target} in
theorem Statement.Legible.refers {statement : Statement} (legible : statement.Legible target) :
    target.reference? statement.text = statement.goesTo? := by
  rw [reference?, legible.marked]
  cases defines : statement.defined? with
  | some name => cases statement <;> first | rfl | cases defines
  | none =>
      rw [statement.transfer_text target (legible.fits defines), Option.isSome_none, Bool.not_false,
        Bool.true_and]
      cases moves : statement.isTransfer with
      | true =>
          rw [if_pos rfl]
          exact statement.label_text legible.named moves
      | false => exact (statement.stays_here moves).symm

theorem Statement.GoesTo.legible {statements : List Statement} {labels : List String}
    (goesTo : GoesTo statements labels)
    (fits : ∀ statement ∈ statements, statement.Fits target.architecture)
    (named : ∀ label ∈ labels, LabelFits label ∧ endsInColon label.toList = false) :
    ∀ statement ∈ statements, statement.Legible target := by
  intro statement member
  apply instruction_legible target statement (goesTo.runs statement member) (fits statement member)
  intro label goes
  apply named
  rw [← goesTo.goes]
  exact List.mem_filterMap.mpr ⟨statement, member, goes⟩

variable (statements : List Statement) (legible : ∀ statement ∈ statements, statement.Legible target)

include legible

theorem definitions_texts :
    definitions (statements.map text) = statements.filterMap defined? := by
  rw [definitions, List.filterMap_map]
  exact List.filterMap_congr fun statement member => (legible statement member).defines

theorem references_texts :
    target.references (statements.map text) = statements.filterMap goesTo? := by
  rw [references, List.filterMap_map]
  exact List.filterMap_congr fun statement member => (legible statement member).refers

end legible

namespace Target
open Statement

section surroundings

variable (target : Target) (name : String) (plain : endsInColon name.toList = false)

include plain

theorem opening_legible (writesCounter : Bool) :
    ∀ statement ∈ target.opening name writesCounter, statement.Legible target := by
  have entry := label_legible target name
  have align : Legible target (.directive (.align 2)) := directive_legible target _ (by decide)
  have global : Legible target (.directive (.global name)) :=
    directive_legible target _ (colon_neither ".globl " name (by decide) plain)
  have typed (mark : TypeMark) : Legible target (.directive (.functionType name mark)) :=
    directive_legible target _ (colon_append _ "function" (by decide))
  have begun : Legible target (.directive (.entry name)) :=
    directive_legible target _ (colon_neither ".ent " name (by decide) plain)
  have mode (word : String) (known : endsInColon word.toList = false) :
      Legible target (.directive (.set word)) :=
    directive_legible target _ (colon_neither ".set " word (by decide) known)
  obtain ⟨_ | _, abi⟩ := target
  · by_cases claimed : claimsTemporary ⟨.mips32, abi⟩ writesCounter <;>
      simp [opening, claimed, entry, align, global, typed, begun, mode "nomips16" (by decide),
        mode "noreorder" (by decide), mode "nomacro" (by decide), mode "noat" (by decide)]
  · simp [opening, entry, align, global, typed]

theorem closing_legible (writesCounter : Bool) :
    ∀ statement ∈ target.closing name writesCounter, statement.Legible target := by
  have sized : Legible target (.directive (.size name)) :=
    directive_legible target _
      (colon_neither (".size " ++ name ++ ", .-") name (colon_append _ ", .-" (by decide)) plain)
  have ended : Legible target (.directive (.endEntry name)) :=
    directive_legible target _ (colon_neither ".end " name (by decide) plain)
  have mode (word : String) (known : endsInColon word.toList = false) :
      Legible target (.directive (.set word)) :=
    directive_legible target _ (colon_neither ".set " word (by decide) known)
  obtain ⟨_ | _, abi⟩ := target
  · by_cases claimed : claimsTemporary ⟨.mips32, abi⟩ writesCounter <;>
      simp [closing, claimed, sized, ended, mode "reorder" (by decide), mode "macro" (by decide),
        mode "at" (by decide)]
  · simp [closing, sized]

end surroundings

end Target

end Microbench
