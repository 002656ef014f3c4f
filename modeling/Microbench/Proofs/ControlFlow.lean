import Microbench.Proofs.Operations
/-!
Which statements move control, and which labels they name.

The operations of a target that only move data are one class: each of them gives an
instruction that control goes on behind and that multiplies nothing. What holds of the class
holds of the pieces that generators build from it. A piece is otherwise known by the labels
that it goes to, in order.
-/
namespace Microbench

namespace Mips.Instruction

def isTransfer : Instruction → Bool
  | .jump _ | .jumpRegister _ | .branchNotEqual .. | .branchPositiveLikely .. => true
  | _ => false

end Mips.Instruction

namespace AArch64.Instruction

def isTransfer : Instruction → Bool
  | .branch _ | .branchIf .. | .ret => true
  | _ => false

end AArch64.Instruction

namespace Statement

def isInstruction : Statement → Bool
  | .mips _ | .aarch64 _ => true
  | _ => false

def isTransfer : Statement → Bool
  | .mips instruction => instruction.isTransfer
  | .aarch64 instruction => instruction.isTransfer
  | _ => false

def goesTo? : Statement → Option String
  | .mips instruction => instruction.goesTo?
  | .aarch64 instruction => instruction.goesTo?
  | _ => none

theorem stays_here (statement : Statement) (stays : statement.isTransfer = false) :
    statement.goesTo? = none := by
  cases statement with
  | mips instruction => cases instruction <;> first | rfl | cases stays
  | aarch64 instruction => cases instruction <;> first | rfl | cases stays
  | _ => rfl

theorem instruction_unlabelled (statement : Statement) (runs : statement.isInstruction = true) :
    statement.defined? = none := by
  cases statement with
  | mips | aarch64 => rfl
  | _ => cases runs

structure Steady (statement : Statement) : Prop where
  runs : statement.isInstruction = true
  stays : statement.isTransfer = false

structure GoesTo (statements : List Statement) (labels : List String) : Prop where
  runs : ∀ statement ∈ statements, statement.isInstruction = true
  goes : statements.filterMap goesTo? = labels

theorem GoesTo.unlabelled {statements : List Statement} {labels : List String}
    (goesTo : GoesTo statements labels) : statements.filterMap defined? = [] :=
  List.filterMap_eq_nil_iff.mpr fun statement member =>
    statement.instruction_unlabelled (goesTo.runs statement member)

theorem goesTo_of_steady (statements : List Statement)
    (steady : ∀ statement ∈ statements, statement.Steady) : GoesTo statements [] where
  runs := fun statement member => (steady statement member).runs
  goes := List.filterMap_eq_nil_iff.mpr fun statement member =>
    statement.stays_here (steady statement member).stays

theorem GoesTo.append {front back : List Statement} {first second : List String}
    (leads : GoesTo front first) (follows : GoesTo back second) :
    GoesTo (front ++ back) (first ++ second) where
  runs := List.forall_mem_append.mpr ⟨leads.runs, follows.runs⟩
  goes := by rw [List.filterMap_append, leads.goes, follows.goes]

theorem directives_go_nowhere (lines : List Directive) :
    (lines.map Statement.directive).filterMap goesTo? = [] := by
  apply List.filterMap_eq_nil_iff.mpr
  intro statement member
  obtain ⟨line, _, rfl⟩ := List.mem_map.mp member
  rfl

end Statement

namespace Target
open Statement

/-- The operations that move data between registers and the stack, and do nothing else. -/
inductive MovesData (target : Target) : Statement → Prop
  | move (rd rs : Reg) : MovesData target (target.move rd rs)
  | loadSmall (rd : Reg) (immediate : UInt16) : MovesData target (target.loadSmall rd immediate)
  | loadUpper (rd : Reg) (half : UInt16) : MovesData target (target.loadUpper rd half)
  | orLower (rd : Reg) (half : UInt16) : MovesData target (target.orLower rd half)
  | adjustStack (delta : Int) : MovesData target (target.adjustStack delta)
  | storeRegister (reg : Reg) (offset : Nat) : MovesData target (target.storeRegister reg offset)
  | loadRegister (reg : Reg) (offset : Nat) : MovesData target (target.loadRegister reg offset)

section classes

variable {target : Target} {statement : Statement}

theorem MovesData.steady_unmultiplied (moves : target.MovesData statement) :
    statement.Steady ∧ statement.isMultiply = false := by
  obtain ⟨_ | _, abi⟩ := target
  · cases moves <;> exact ⟨⟨rfl, rfl⟩, rfl⟩
  · cases moves
    case adjustStack delta =>
      unfold Target.adjustStack
      by_cases down : delta < 0
      · simp only [down, ↓reduceIte]
        exact ⟨⟨rfl, rfl⟩, rfl⟩
      · simp only [down, ↓reduceIte]
        exact ⟨⟨rfl, rfl⟩, rfl⟩
    all_goals exact ⟨⟨rfl, rfl⟩, rfl⟩

theorem MovesData.steady (moves : target.MovesData statement) : statement.Steady :=
  moves.steady_unmultiplied.1

theorem MovesData.plain (moves : target.MovesData statement) : statement.Plain where
  unlabelled := statement.instruction_unlabelled moves.steady.runs
  unmultiplied := moves.steady_unmultiplied.2

theorem goesTo_of_movesData (statements : List Statement)
    (moves : ∀ statement ∈ statements, target.MovesData statement) : GoesTo statements [] :=
  goesTo_of_steady statements fun statement member => (moves statement member).steady

variable (target)

theorem multiply_steady (rd ra rb : Reg) : (target.multiply rd ra rb).Steady := by
  obtain ⟨_ | _, abi⟩ := target <;> exact ⟨rfl, rfl⟩

theorem jump_goesTo (label : String) : GoesTo (target.jump label) [label] := by
  obtain ⟨_ | _, abi⟩ := target <;> exact ⟨by simp [jump, isInstruction], rfl⟩

theorem countedBranch_goesTo (counter : Reg) (label : String) (decrement : Nat) :
    GoesTo (target.countedBranch counter label decrement) [label] := by
  obtain ⟨_ | _, abi⟩ := target <;> exact ⟨by simp [countedBranch, isInstruction], rfl⟩

theorem loopBranch_goesTo (counter : Reg) (label : String) (decrement : Nat) :
    GoesTo (target.loopBranch counter label decrement) [label] := by
  obtain ⟨_ | _, abi⟩ := target <;> exact ⟨by simp [loopBranch, isInstruction], rfl⟩

/-- A return goes to no label if the last statement of its function goes to none. -/
theorem returnAfter_goesTo (last : Option Statement) (steady : ∀ statement ∈ last, statement.Steady) :
    GoesTo (target.returnAfter last) [] := by
  cases last with
  | none => obtain ⟨_ | _, abi⟩ := target <;> exact ⟨by simp [returnAfter, isInstruction], rfl⟩
  | some last =>
      have alone : GoesTo [last] [] := by
        apply goesTo_of_steady
        intro statement member
        rw [List.mem_singleton.mp member]
        exact steady last rfl
      obtain ⟨_ | _, abi⟩ := target
      · have jumps : GoesTo [.mips (.jumpRegister abi.returnAddress)] [] :=
          ⟨by simp [isInstruction], rfl⟩
        exact jumps.append alone
      · have returns : GoesTo [.aarch64 .ret] [] := ⟨by simp [isInstruction], rfl⟩
        exact alone.append returns

end classes

end Target

end Microbench
