import Microbench.Proofs.CycleRoutine
/-!
The chain of a cycle routine, read from its lines.

A reader looks for the label of a block and takes the last operand of the first control transfer
behind it. In the routine over a chain it finds the label of the successor, whatever the target
is, its convention included, and whatever the routine is called.
-/
namespace Microbench

namespace Target
open Statement

def transfer? (target : Target) (lines : List String) : Option String :=
  (lines.find? target.isControlTransfer).bind fun line => (split line).operands.getLast?

/-- Where the first control transfer behind a label leads to. -/
def leadsTo? (target : Target) (lines : List String) (label : String) : Option String :=
  target.transfer? (lines.dropWhile (· != label ++ ":")).tail

section transfers

variable (target : Target)

theorem isControlTransfer_split (line : String) :
    target.isControlTransfer line = target.controlMnemonics.contains (split line).mnemonic :=
  startsWithOneOf_split _ line

def carried (lines : List String) : List Parts := (lines.filter target.isControlTransfer).map split

theorem transfer_carried (lines rest : List String) (parts : Parts)
    (carries : target.carried lines = [parts]) :
    target.transfer? (lines ++ rest) = parts.operands.getLast? := by
  have first : (lines.find? target.isControlTransfer).map split = some parts := by
    rw [← List.head?_filter, ← List.head?_map]
    exact congrArg List.head? carries
  obtain ⟨line, found, spelt⟩ := Option.map_eq_some_iff.mp first
  rw [transfer?, List.find?_append, found, Option.some_or, Option.bind_some, spelt]

def jumpParts (label : String) : Parts :=
  match target.architecture with
  | .mips32 => ⟨"j", [label]⟩
  | .aarch64 => ⟨"b", [label]⟩

def branchParts (counter : Reg) (label : String) : Parts :=
  match target.architecture with
  | .mips32 => ⟨"bne", [Mips.registerText counter, "$0", label]⟩
  | .aarch64 => ⟨"b.hs", [label]⟩

theorem mips_control (abi : Abi) (instruction : Mips.Instruction) :
    isControlTransfer ⟨.mips32, abi⟩ instruction.text =
      Mips.controlMnemonics.contains instruction.parts.mnemonic := by
  rw [isControlTransfer_split, instruction.mnemonic_text]
  rfl

theorem aarch64_control (abi : Abi) (instruction : AArch64.Instruction) :
    isControlTransfer ⟨.aarch64, abi⟩ instruction.text =
      AArch64.controlMnemonics.contains instruction.parts.mnemonic := by
  rw [isControlTransfer_split, instruction.mnemonic_text]
  rfl

variable (name : String) (solid : Text.Solid name.toList)

include solid

theorem jump_carried : target.carried ((target.jump name).map text) = [target.jumpParts name] := by
  obtain ⟨_ | _, abi⟩ := target
  · have parts := (Mips.Instruction.jump name).split_text (by rintro _ ⟨⟩; exact solid)
    simp [carried, jump, text, mips_control, Mips.Instruction.parts, Mips.controlMnemonics, parts,
      jumpParts]
  · have parts := (AArch64.Instruction.branch name).split_text (by rintro _ ⟨⟩; exact solid)
    simp [carried, jump, text, aarch64_control, AArch64.Instruction.parts,
      AArch64.controlMnemonics, parts, jumpParts]

theorem countedBranch_carried (counter : Reg) (decrement : Nat) :
    target.carried ((target.countedBranch counter name decrement).map text) =
      [target.branchParts counter name] := by
  obtain ⟨_ | _, abi⟩ := target
  · have parts := (Mips.Instruction.branchNotEqual counter Mips.zero name).split_text
      (by rintro _ ⟨⟩; exact solid)
    have zero : Mips.registerText Mips.zero = "$0" := by decide
    simp [carried, countedBranch, text, mips_control, Mips.Instruction.parts,
      Mips.controlMnemonics, parts, zero, branchParts]
  · have parts := (AArch64.Instruction.branchIf .carrySet name).split_text
      (by rintro _ ⟨⟩; exact solid)
    -- the subtraction in front of the branch is none itself
    simp [carried, countedBranch, text, aarch64_control, AArch64.Instruction.parts,
      AArch64.Condition.text, AArch64.controlMnemonics, parts, branchParts]

end transfers

end Target

namespace CycleFamily
open Statement Target

section lines

def Apart (label : Nat) (statement : Statement) : Prop :=
  statement.text ≠ cycleLabel label ++ ":"

theorem directive_apart (label : Nat) (line : Directive) : Apart label (.directive line) := by
  intro same
  have second := congrArg (fun text : String => text.toList[1]?) same
  cases line <;> simp [text, Directive.text, cycleLabel] at second

theorem mips_apart (label : Nat) (instruction : Mips.Instruction) :
    Apart label (.mips instruction) := by
  intro same
  have first := congrArg (fun text : String => text.toList.head?) same
  cases instruction <;> simp [text, Mips.Instruction.text, cycleLabel] at first

theorem aarch64_apart (label : Nat) (instruction : AArch64.Instruction) :
    Apart label (.aarch64 instruction) := by
  intro same
  have first := congrArg (fun text : String => text.toList.head?) same
  cases instruction <;> simp [text, AArch64.Instruction.text, cycleLabel] at first

theorem label_apart (label : Nat) (name : String) (different : name ≠ cycleLabel label) :
    Apart label (.label name) :=
  fun same => different (String.append_left_inj ":" |>.mp same)

theorem opening_apart (target : Target) (name : String) (label : Nat)
    (different : name ≠ cycleLabel label) :
    ∀ statement ∈ target.opening name false, Apart label statement := by
  have named := label_apart label name different
  obtain ⟨_ | _, abi⟩ := target <;>
    simp [opening, claimsTemporary, directive_apart, named]

theorem leaving_apart (target : Target) (chain : Chain) (current label : Nat) :
    ∀ statement ∈ leaving target chain current, Apart label statement := by
  obtain ⟨_ | _, abi⟩ := target <;> unfold leaving <;> split <;>
    simp [countedBranch, jump, mips_apart, aarch64_apart]

/-- The blocks of smaller labels stand in front of the block of a label. -/
theorem blocks_apart (target : Target) (chain : Chain) (label : Nat) :
    ∀ statement ∈ blocks target chain 0 label, Apart label statement := by
  intro statement member
  obtain ⟨current, early, found⟩ := List.mem_flatMap.mp member
  have below : current < label := by
    have bounds := List.mem_range'_1.mp early
    omega
  rcases List.mem_cons.mp found with rfl | behind
  · apply label_apart
    exact fun same => Nat.ne_of_lt below (cycleLabel_injective _ _ same)
  · exact leaving_apart target chain current label statement behind

theorem leaving_transfers (target : Target) (chain : Chain) (label : Nat) (rest : List String) :
    target.transfer? ((leaving target chain label).map text ++ rest) =
      some (cycleLabel (chain.next label)) := by
  have solid := (cycleLabel_fits (chain.next label)).1
  unfold leaving
  split
  · rw [transfer_carried target _ rest _ (countedBranch_carried target _ solid _ 1)]
    obtain ⟨_ | _, abi⟩ := target <;> rfl
  · rw [transfer_carried target _ rest _ (jump_carried target _ solid)]
    obtain ⟨_ | _, abi⟩ := target <;> rfl

end lines

theorem statements_split (family : CycleFamily) (chain : Chain) (label : Nat)
    (inside : label < chain.size) : ∃ front behind,
      family.statements chain = front ++ .label (cycleLabel label) ::
        (leaving family.target chain label ++ behind) ∧
      ∀ statement ∈ front, Apart label statement := by
  have count : chain.size = label + (chain.size - (label + 1) + 1) := by omega
  have parted := blocks_add family.target chain 0 label (chain.size - (label + 1) + 1)
  rw [← count, Nat.zero_add, blocks_succ] at parted
  refine ⟨family.target.opening (family.symbol chain.size) false ++
      blocks family.target chain 0 label,
    blocks family.target chain (label + 1) (chain.size - (label + 1)) ++
      returnSize family.target chain.size ++
      family.target.closing (family.symbol chain.size) false, ?_, ?_⟩
  · rw [statements, blocks_edges, parted]
    simp only [List.append_assoc, List.cons_append]
  · intro statement member
    rcases List.mem_append.mp member with opened | early
    · have different := symbol_not_cycleLabel family.symbolStart chain.size label inside
      exact opening_apart family.target _ label different statement opened
    · exact blocks_apart family.target chain label statement early

/-- Behind the label of a block its routine goes on to the label of the successor. -/
theorem statements_lead (family : CycleFamily) (chain : Chain) (label : Nat)
    (inside : label < chain.size) :
    family.target.leadsTo? ((family.statements chain).map text) (cycleLabel label) =
      some (cycleLabel (chain.next label)) := by
  obtain ⟨front, behind, split, apart⟩ := family.statements_split chain label inside
  have passed : ∀ line ∈ front.map text, (line != cycleLabel label ++ ":") = true := by
    intro line member
    obtain ⟨statement, found, rfl⟩ := List.mem_map.mp member
    exact bne_iff_ne.mpr (apart statement found)
  have line : (Statement.label (cycleLabel label)).text = cycleLabel label ++ ":" := rfl
  rw [split, List.map_append, leadsTo?, List.dropWhile_append_of_pos passed, List.map_cons, line,
    List.dropWhile_cons_of_neg (by simp), List.tail_cons, List.map_append]
  exact leaving_transfers family.target chain label _

end CycleFamily

end Microbench
