import Microbench.Proofs.Operations
/-!
What statements do, as a calling convention sees it.

Every statement sets a register, moves one by a constant, fills or empties a stack slot,
returns, or does none of these. Each operation of a target does the same on both architectures,
but for the registers: stack operations and returns go by the convention on MIPS32, while on
AArch64 the instruction set has a stack pointer and a link register of its own.
-/
namespace Microbench

/-- What a statement does to registers and stack slots. A branch inside the function does
nothing to either. -/
inductive Act where
  | idle
  | sets (reg : Reg)
  | shifts (reg : Reg) (amount : Int)
  | stores (reg : Reg) (offset : Nat) (base : Reg)
  | loads (reg : Reg) (offset : Nat) (base : Reg)
  | returns (through : Reg)
deriving DecidableEq

namespace Act

def written? : Act → Option Reg
  | .sets reg | .shifts reg _ | .loads reg .. => some reg
  | _ => none

def stored? : Act → Option Reg
  | .stores reg .. => some reg
  | _ => none

def returned? : Act → Option Reg
  | .returns through => some through
  | _ => none

def base? : Act → Option Reg
  | .shifts reg _ => some reg
  | .stores _ _ base | .loads _ _ base => some base
  | _ => none

/-- A register is stored in a slot before anything writes to it, and loaded from there before
the function returns. Nothing else is stored in the slot meanwhile, and nothing writes to the
register any more. -/
def Keeps (reg : Reg) (acts : List Act) : Prop :=
  ∃ before offset base between after,
    acts = before ++ .stores reg offset base :: (between ++ .loads reg offset base :: after) ∧
    (∀ act ∈ before, act.written? ≠ some reg ∧ act.returned? = none) ∧
    (∀ act ∈ between, act.returned? = none ∧ ∀ other, act ≠ .stores other offset base) ∧
    ∀ act ∈ after, act.written? ≠ some reg

theorem Keeps.stored {reg : Reg} {acts : List Act} (keeps : Keeps reg acts) :
    some reg ∈ acts.map stored? := by
  obtain ⟨before, offset, base, between, after, rfl, _⟩ := keeps
  simp [stored?]

def KeepsWritten (saved exempt : List Reg) (acts : List Act) : Prop :=
  ∀ reg ∈ saved, reg ∉ exempt → (∃ act ∈ acts, act.written? = some reg) → Keeps reg acts

/-- Slots are addressed from one register, and adjustments move it: all but that of the loop,
which lowers the counter by the unroll factor. -/
def AddressedFrom (base counter : Reg) (unroll : Nat) (acts : List Act) : Prop :=
  ∀ act ∈ acts, act ≠ .shifts counter (-unroll) → ∀ reg ∈ act.base?, reg = base

theorem AddressedFrom.slots {base counter : Reg} {unroll : Nat} {acts : List Act}
    (addressed : AddressedFrom base counter unroll acts) {act : Act} (member : act ∈ acts)
    (touching : ∃ reg offset other, act = .stores reg offset other ∨ act = .loads reg offset other) :
    ∃ reg offset, act = .stores reg offset base ∨ act = .loads reg offset base := by
  obtain ⟨reg, offset, other, rfl | rfl⟩ := touching
  · cases addressed _ member nofun other rfl
    exact ⟨reg, offset, .inl rfl⟩
  · cases addressed _ member nofun other rfl
    exact ⟨reg, offset, .inr rfl⟩

def ReturnsThrough (link : Reg) (acts : List Act) : Prop := acts.filterMap returned? = [link]

def Spares (reg : Reg) (acts : List Act) : Prop := ∀ act ∈ acts, act.written? ≠ some reg

end Act

/-- An addition to the register that always reads as nought moves nothing. -/
def Mips.Instruction.act : Mips.Instruction → Act
  | .jump _ | .nop | .branchNotEqual .. | .branchPositiveLikely .. => .idle
  | .jumpRegister rs => .returns rs
  | .addImmediate rt rs immediate =>
    if rt = rs ∧ rt ≠ Mips.zero ∧ immediate.value ≠ 0 then .shifts rt immediate.value else .sets rt
  | .multiply rd .. | .loadUpper rd _ | .orImmediate rd .. => .sets rd
  | .storeWord rt offset base => .stores rt offset base
  | .loadWord rt offset base => .loads rt offset base

theorem Mips.Instruction.writes_act (instruction : Mips.Instruction) (reg : Reg)
    (member : reg ∈ instruction.writes) : instruction.act.written? = some reg := by
  have named (other : Reg) (found : reg ∈ Mips.written other) : other = reg := by
    unfold Mips.written at found
    split at found
    · cases found
    · exact (List.mem_singleton.mp found).symm
  cases instruction
  case addImmediate rt rs immediate =>
    cases named rt member
    simp only [act]
    split <;> rfl
  case multiply rd _ _ | loadUpper rd _ | orImmediate rd _ _ | loadWord rd _ _ =>
    exact congrArg some (named rd member)
  all_goals cases member

/-- Only the register that reads as nought, and a constant of nought, make this no adjustment. -/
theorem Mips.Instruction.addToItself_act (reg : Reg) (immediate : Literal) :
    (addImmediate reg reg immediate).act = .shifts reg immediate.value ∨
      (addImmediate reg reg immediate).act = .sets reg := by
  by_cases moves : reg = reg ∧ reg ≠ Mips.zero ∧ immediate.value ≠ 0
  · exact .inl (if_pos moves)
  · exact .inr (if_neg moves)

def AArch64.Instruction.act : AArch64.Instruction → Act
  | .branch _ | .branchIf .. | .compare .. => .idle
  | .ret => .returns AArch64.linkRegister
  | .subtractSettingFlags rd rn immediate | .subtract rd rn immediate =>
    if rd = rn then .shifts rd (-immediate) else .sets rd
  | .move rd _ | .moveImmediate rd _ | .multiply rd .. | .moveUpperZeroing rd _
  | .moveLowerKeeping rd _ => .sets rd
  | .lowerStack bytes => .shifts AArch64.stackPointer (-bytes)
  | .raiseStack bytes => .shifts AArch64.stackPointer bytes
  | .store rt offset => .stores rt offset AArch64.stackPointer
  | .load rt offset => .loads rt offset AArch64.stackPointer

theorem AArch64.Instruction.writes_act (instruction : AArch64.Instruction) (reg : Reg)
    (member : reg ∈ instruction.writes) : instruction.act.written? = some reg := by
  cases instruction
  case subtract rd rn immediate | subtractSettingFlags rd rn immediate =>
    cases List.mem_singleton.mp member
    simp only [act]
    split <;> rfl
  case branch | branchIf | ret | compare | store => cases member
  all_goals exact congrArg some (List.mem_singleton.mp member).symm

namespace Statement

def act : Statement → Act
  | .mips instruction => instruction.act
  | .aarch64 instruction => instruction.act
  | _ => .idle

/-- No instruction writes to a register that its act does not name. -/
theorem writes_act (architecture : Architecture) (statement : Statement) (reg : Reg)
    (written : architecture.isa.writesTo reg (statement.cell architecture) = true) :
    statement.act.written? = some reg := by
  cases architecture <;> cases statement
  case mips32.mips instruction => exact instruction.writes_act reg (of_decide_eq_true written)
  case aarch64.aarch64 instruction => exact instruction.writes_act reg (of_decide_eq_true written)
  all_goals cases written

/-- What touches memory is a store or a load. -/
theorem touches_act (architecture : Architecture) (statement : Statement)
    (touching : architecture.isa.touches (statement.cell architecture) = true) :
    ∃ reg offset base, statement.act = .stores reg offset base ∨
      statement.act = .loads reg offset base := by
  cases architecture <;> cases statement
  case mips32.mips instruction =>
    cases instruction
    case storeWord rt offset base => exact ⟨rt, offset, base, .inl rfl⟩
    case loadWord rt offset base => exact ⟨rt, offset, base, .inr rfl⟩
    all_goals cases touching
  case aarch64.aarch64 instruction =>
    cases instruction
    case store rt offset => exact ⟨rt, offset, AArch64.stackPointer, .inl rfl⟩
    case load rt offset => exact ⟨rt, offset, AArch64.stackPointer, .inr rfl⟩
    all_goals cases touching
  all_goals cases touching

end Statement

namespace Target

def stackRegister (target : Target) : Reg :=
  match target.architecture with
  | .mips32 => target.abi.stackPointer
  | .aarch64 => AArch64.stackPointer

def linkRegister (target : Target) : Reg :=
  match target.architecture with
  | .mips32 => target.abi.returnAddress
  | .aarch64 => AArch64.linkRegister

def Writes (target : Target) (reg : Reg) (statements : List Statement) : Prop :=
  ∃ statement ∈ statements,
    target.architecture.isa.writesTo reg (statement.cell target.architecture) = true

theorem Writes.act {target : Target} {reg : Reg} {statements : List Statement}
    (writes : target.Writes reg statements) :
    ∃ act ∈ statements.map Statement.act, act.written? = some reg := by
  obtain ⟨statement, member, written⟩ := writes
  exact ⟨statement.act, List.mem_map_of_mem member, statement.writes_act _ reg written⟩

section acts

variable (target : Target)

theorem move_act (rd rs : Reg) : (target.move rd rs).act = .sets rd := by
  obtain ⟨_ | _, abi⟩ := target
  · exact if_neg fun moved => moved.2.2 rfl
  · rfl

theorem loadSmall_act (rd : Reg) (immediate : UInt16) :
    (target.loadSmall rd immediate).act = .sets rd := by
  obtain ⟨_ | _, abi⟩ := target
  · exact if_neg fun moved => moved.2.1 moved.1
  · rfl

theorem multiply_act (rd ra rb : Reg) : (target.multiply rd ra rb).act = .sets rd := by
  obtain ⟨_ | _, abi⟩ := target <;> rfl

theorem storeRegister_act (reg : Reg) (offset : Nat) :
    (target.storeRegister reg offset).act = .stores reg offset target.stackRegister := by
  obtain ⟨_ | _, abi⟩ := target <;> rfl

theorem loadRegister_act (reg : Reg) (offset : Nat) :
    (target.loadRegister reg offset).act = .loads reg offset target.stackRegister := by
  obtain ⟨_ | _, abi⟩ := target <;> rfl

theorem adjustStack_act (delta : Int) :
    (target.adjustStack delta).act = .shifts target.stackRegister delta ∨
      (target.adjustStack delta).act = .sets target.stackRegister := by
  obtain ⟨_ | _, abi⟩ := target
  · have moved := Mips.Instruction.addToItself_act abi.stackPointer (.ofInt delta)
    rwa [Literal.value_ofInt] at moved
  · left
    unfold adjustStack stackRegister
    by_cases negative : delta < 0
    · simp only [negative, ↓reduceIte, Statement.act, AArch64.Instruction.act]
      congr 1
      omega
    · simp only [negative, ↓reduceIte, Statement.act, AArch64.Instruction.act]
      congr 1
      omega

theorem loopBranch_acts (counter : Reg) (label : String) (decrement : Nat) :
    ∀ statement ∈ target.loopBranch counter label decrement,
      statement.act = .idle ∨ statement.act = .sets counter ∨
        statement.act = .shifts counter (-decrement) := by
  obtain ⟨_ | _, abi⟩ := target
  all_goals
    intro statement member
    simp only [loopBranch, List.mem_cons, List.not_mem_nil, or_false] at member
  · rcases member with rfl | rfl
    · exact .inl rfl
    · exact .inr (Mips.Instruction.addToItself_act counter (.minus decrement)).symm
  · rcases member with rfl | rfl | rfl
    · exact .inl rfl
    · exact .inr (.inr (if_pos rfl))
    · exact .inl rfl

theorem returnAfter_acts (last : Option Statement) :
    ∀ statement ∈ target.returnAfter last, statement.act = .idle ∨
      statement.act = .returns target.linkRegister ∨ statement ∈ last := by
  obtain ⟨_ | _, abi⟩ := target
  all_goals
    intro statement member
    simp only [returnAfter, List.mem_append, List.mem_cons, Option.mem_toList, List.not_mem_nil,
      or_false] at member
  · rcases member with rfl | rfl
    · exact .inr (.inl rfl)
    · cases last with
      | none => exact .inl rfl
      | some last => exact .inr (.inr rfl)
  · rcases member with kept | rfl
    · exact .inr (.inr kept)
    · exact .inr (.inl rfl)

theorem returnAfter_returns (last : Option Statement)
    (stays : ∀ statement ∈ last, statement.act.returned? = none) :
    (target.returnAfter last).filterMap (fun statement => statement.act.returned?) =
      [target.linkRegister] := by
  have kept : last.toList.filterMap (fun statement => statement.act.returned?) = [] :=
    List.filterMap_eq_nil_iff.mpr fun statement member => stays statement (Option.mem_toList.mp member)
  obtain ⟨_ | _, abi⟩ := target
  · cases last with
    | none => rfl
    | some last => exact congrArg (abi.returnAddress :: ·) kept
  · rw [returnAfter, List.filterMap_append, kept]
    rfl

end acts

end Target

end Microbench
