import Mathlib.Algebra.Group.Nat.Defs
import Microbench.AArch64.Instruction
import Microbench.Proofs.Machine
/-!
What the AArch64 instructions do.

Registers have 64 bits. Arithmetic is on their low halves, and writing a low half clears
the upper one. A compare and a subtraction that says so set the flags, no other subtraction
does. There are no delay slots. Wide words are loaded and stored at multiples of eight, and
only while the stack pointer is a multiple of sixteen.
-/
namespace Microbench.AArch64

structure Flags where
  negative : Bool
  zero : Bool
  carry : Bool
  overflow : Bool
deriving DecidableEq

/-- The flags of a subtraction. The carry is set when nothing is borrowed. -/
def Flags.ofSubtraction (first second : BitVec 32) : Flags where
  negative := (first - second).msb
  zero := first - second == 0
  carry := second.toNat ≤ first.toNat
  overflow := first.msb != second.msb && (first - second).msb != first.msb

def Condition.holds (condition : Condition) (flags : Flags) : Bool :=
  match condition with
  | .carrySet => flags.carry
  | .greater => !flags.zero && flags.negative == flags.overflow

/-- Nothing is borrowed from a word that is at least the constant. -/
theorem carrySet_constant (word : BitVec 32) (constant : Nat) (small : constant < 2 ^ 32) :
    Condition.carrySet.holds (Flags.ofSubtraction word (BitVec.ofNat 32 constant)) =
      decide (constant ≤ word.toNat) := by
  have same : (BitVec.ofNat 32 constant).toNat = constant := by
    rw [BitVec.toNat_ofNat, Nat.mod_eq_of_lt small]
  simp only [Condition.holds, Flags.ofSubtraction, same]

theorem greater_nought (word : BitVec 32) :
    Condition.greater.holds (Flags.ofSubtraction word 0) = decide (0 < word.toInt) := by
  have positive : 0 < word.toInt ↔ word ≠ 0 ∧ word.msb = false := by
    rw [BitVec.toInt_eq_msb_cond, ne_eq, BitVec.toNat_eq, BitVec.msb_eq_decide]
    have small := word.isLt
    simp only [BitVec.ofNat_eq_ofNat, BitVec.toNat_ofNat, decide_eq_true_eq, decide_eq_false_iff_not]
    split <;> omega
  simp only [positive]
  by_cases nought : word = 0#32
  · subst nought
    rfl
  · cases negative : word.msb <;>
      simp [Condition.holds, Flags.ofSubtraction, negative, nought, bne]

def linkRegister : Reg := 30

abbrev State := Processor 64 Flags

def slotAddress? (state : State) (offset : Nat) : Option (BitVec 64) :=
  let base := state.registers stackPointer
  let address := base + BitVec.ofNat 64 offset
  if base.toNat % 16 = 0 ∧ address.toNat % 8 = 0 then some address else none

namespace Instruction

def execute : Instruction → State → Option (State × Flow 64)
  | .branch label, state => some (state, .jump (.label label))
  | .branchIf condition label, state =>
    some (state, if condition.holds state.flags then .jump (.label label) else .next)
  | .ret, state => some (state, .jump (.address (state.registers linkRegister)))
  | .subtractSettingFlags rd rn immediate, state =>
    let constant := BitVec.ofNat 32 immediate
    some ({ state.setInt rd (state.int rn - constant) with
      flags := Flags.ofSubtraction (state.int rn) constant }, .next)
  | .subtract rd rn immediate, state =>
    some (state.setInt rd (state.int rn - BitVec.ofNat 32 immediate), .next)
  | .compare rn immediate, state =>
    some ({ state with flags := Flags.ofSubtraction (state.int rn) (BitVec.ofNat 32 immediate) },
      .next)
  | .move rd rn, state => some (state.setInt rd (state.int rn), .next)
  | .moveImmediate rd immediate, state =>
    some (state.setInt rd (immediate.toBitVec.setWidth 32), .next)
  | .multiply rd rn rm, state => some (state.setInt rd (state.int rn * state.int rm), .next)
  | .moveUpperZeroing rd immediate, state =>
    some (state.setInt rd (immediate.toBitVec ++ 0#16), .next)
  | .moveLowerKeeping rd immediate, state =>
    some (state.setInt rd ((state.int rd).extractLsb' 16 16 ++ immediate.toBitVec), .next)
  | .lowerStack bytes, state =>
    some (state.set stackPointer (state.registers stackPointer - BitVec.ofNat 64 bytes), .next)
  | .raiseStack bytes, state =>
    some (state.set stackPointer (state.registers stackPointer + BitVec.ofNat 64 bytes), .next)
  | .store rt offset, state =>
    (slotAddress? state offset).map fun address =>
      (state.store address (state.registers rt), .next)
  | .load rt offset, state =>
    (slotAddress? state offset).map fun address =>
      (state.set rt (state.memory address), .next)

def reads : Instruction → List Reg
  | .branch _ | .branchIf .. | .moveImmediate .. | .moveUpperZeroing .. => []
  | .ret => [linkRegister]
  | .subtractSettingFlags _ rn _ | .subtract _ rn _ | .compare rn _ | .move _ rn => [rn]
  | .multiply _ rn rm => [rn, rm]
  | .moveLowerKeeping rd _ => [rd]
  | .lowerStack _ | .raiseStack _ | .load .. => [stackPointer]
  | .store rt _ => [rt, stackPointer]

def writes : Instruction → List Reg
  | .branch _ | .branchIf .. | .ret | .compare .. | .store .. => []
  | .subtractSettingFlags rd .. | .subtract rd .. | .move rd _ | .moveImmediate rd _
  | .multiply rd .. | .moveUpperZeroing rd _ | .moveLowerKeeping rd _ | .load rd _ => [rd]
  | .lowerStack _ | .raiseStack _ => [stackPointer]

def touchesMemory : Instruction → Bool
  | .store .. | .load .. => true
  | _ => false

def isMultiply : Instruction → Bool
  | .multiply .. => true
  | _ => false

def lowers? : Instruction → Option (Reg × Nat)
  | .subtract rd rn count | .subtractSettingFlags rd rn count =>
    if rd = rn then some (rd, count) else none
  | _ => none

theorem execute_moveImmediate (state : State) (rd : Reg) (immediate : UInt16) :
    (moveImmediate rd immediate).execute state =
      some (state.setInt rd (BitVec.ofNat 32 immediate.toNat), .next) := by
  rw [execute, ← UInt16.toNat_toBitVec, BitVec.ofNat_toNat]

theorem execute_adjust (state : State) (delta : Int) :
    (if delta < 0 then lowerStack delta.natAbs else raiseStack delta.natAbs).execute state =
      some (state.set stackPointer
        (state.registers stackPointer + BitVec.ofInt 64 delta), .next) := by
  by_cases negative : delta < 0
  · have magnitude : BitVec.ofInt 64 delta = -BitVec.ofNat 64 delta.natAbs := by
      rw [← BitVec.ofInt_natCast, ← BitVec.ofInt_neg,
        Int.ofNat_natAbs_of_nonpos (Int.le_of_lt negative), Int.neg_neg]
    rw [if_pos negative, execute, magnitude, BitVec.sub_eq_add_neg]
  · have magnitude : BitVec.ofInt 64 delta = BitVec.ofNat 64 delta.natAbs := by
      rw [← BitVec.ofInt_natCast, Int.natAbs_of_nonneg (Int.not_lt.mp negative)]
    rw [if_neg negative, execute, magnitude]

theorem upper_extract (high : BitVec 16) : (high ++ 0#16).extractLsb' 16 16 = high := by
  ext place bound
  rw [BitVec.getElem_extractLsb', BitVec.getLsbD_append]
  simp [BitVec.getLsbD_eq_getElem bound]

theorem execute_moveLowerKeeping (state : State) (rd : Reg) (half : UInt16) (high : BitVec 16)
    (clear : state.int rd = high ++ 0#16) :
    (moveLowerKeeping rd half).execute state =
      some (state.setInt rd (high ++ half.toBitVec), .next) := by
  rw [execute, clear, upper_extract]

section branches

variable (state : State) (word : BitVec 32) (label : String)

theorem execute_branchCarrySet (constant : Nat) (small : constant < 2 ^ 32)
    (lowered : state.flags = Flags.ofSubtraction word (BitVec.ofNat 32 constant))
    (covered : constant ≤ word.toNat) :
    (branchIf .carrySet label).execute state = some (state, .jump (.label label)) := by
  rw [execute, lowered, carrySet_constant word constant small, if_pos (decide_eq_true covered)]

theorem execute_branchCarryClear (constant : Nat) (small : constant < 2 ^ 32)
    (lowered : state.flags = Flags.ofSubtraction word (BitVec.ofNat 32 constant))
    (borrowed : ¬ constant ≤ word.toNat) :
    (branchIf .carrySet label).execute state = some (state, .next) := by
  rw [execute, lowered, carrySet_constant word constant small, if_neg (by simpa using borrowed)]

theorem execute_branchGreater (compared : state.flags = Flags.ofSubtraction word 0)
    (going : 0 < word.toInt) :
    (branchIf .greater label).execute state = some (state, .jump (.label label)) := by
  rw [execute, compared, greater_nought, if_pos (decide_eq_true going)]

theorem execute_branchNotGreater (compared : state.flags = Flags.ofSubtraction word 0)
    (spent : word.toInt ≤ 0) : (branchIf .greater label).execute state = some (state, .next) := by
  rw [execute, compared, greater_nought, if_neg (by simp [spent])]

end branches

theorem slotAddress_whole (state : State) (offset : Nat)
    (aligned : (state.registers stackPointer).toNat % 16 = 0) (whole : offset % 8 = 0) :
    slotAddress? state offset =
      some (state.registers stackPointer + BitVec.ofNat 64 offset) := by
  have sum : (state.registers stackPointer + BitVec.ofNat 64 offset).toNat % 8 = 0 := by
    rw [BitVec.toNat_add, BitVec.toNat_ofNat]
    omega
  simp only [slotAddress?, aligned, sum, and_self, ↓reduceIte]

theorem execute_store (state : State) (rt : Reg) (offset : Nat)
    (aligned : (state.registers stackPointer).toNat % 16 = 0)
    (whole : offset % 8 = 0) :
    (store rt offset).execute state =
      some (state.store (state.registers stackPointer + BitVec.ofNat 64 offset)
        (state.registers rt), .next) := by
  simp only [execute, slotAddress_whole state offset aligned whole, Option.map_some]

theorem execute_load (state : State) (rt : Reg) (offset : Nat)
    (aligned : (state.registers stackPointer).toNat % 16 = 0)
    (whole : offset % 8 = 0) :
    (load rt offset).execute state =
      some (state.set rt (state.memory (state.registers stackPointer + BitVec.ofNat 64 offset)),
        .next) := by
  simp only [execute, slotAddress_whole state offset aligned whole, Option.map_some]

end Instruction

section laws

theorem set_of_set (state : State) (reg other : Reg) (word new : BitVec 64) :
    (state.set other word).set reg new =
      if other ∈ [reg] then state.set reg new else (state.set reg new).set other word := by
  by_cases same : other = reg
  · simp [same, Processor.set_set]
  · simp [same, Processor.set_comm state other reg word new same]

theorem setInt_of_set (state : State) (reg other : Reg) (word : BitVec 64) (new : BitVec 32) :
    (state.set other word).setInt reg new =
      if other ∈ [reg] then state.setInt reg new else (state.setInt reg new).set other word :=
  set_of_set state reg other word _

theorem int_set (state : State) (reg other : Reg) (word : BitVec 64) (different : reg ≠ other) :
    (state.set other word).int reg = state.int reg := by
  simp [Processor.int, different]

theorem execute_keeps (instruction : Instruction) (state after : State) (flow : Flow 64)
    (effect : instruction.execute state = some (after, flow)) (reg : Reg)
    (spared : reg ∉ instruction.writes) : after.registers reg = state.registers reg := by
  cases instruction <;>
    simp only [Instruction.execute, Option.some.injEq, Prod.mk.injEq, Option.map_eq_some_iff] at effect <;>
    simp only [Instruction.writes, List.mem_cons, List.not_mem_nil, or_false] at spared
  case store => obtain ⟨address, _, rfl, _⟩ := effect; rfl
  case load => obtain ⟨address, _, rfl, _⟩ := effect; exact if_neg spared
  all_goals obtain ⟨rfl, _⟩ := effect
  case branch | branchIf | ret | compare => rfl
  all_goals exact if_neg spared

theorem execute_depends (instruction : Instruction) (state : State) (reg : Reg) (word : BitVec 64)
    (unread : reg ∉ instruction.reads) :
    instruction.execute (state.set reg word) = (instruction.execute state).map fun done =>
      (if reg ∈ instruction.writes then done.1 else done.1.set reg word, done.2) := by
  have apart (source : Reg) (read : source ∈ instruction.reads) : source ≠ reg :=
    fun equal => unread (equal ▸ read)
  cases instruction <;>
    simp only [Instruction.reads, List.mem_cons, List.not_mem_nil, or_false, forall_eq_or_imp,
      forall_eq] at apart
  case subtractSettingFlags rd rn immediate =>
    have same := int_set state rn reg word apart
    by_cases target : reg = rd
    · subst target
      simp [Instruction.execute, Instruction.writes, setInt_of_set, same]
    · simp [Instruction.execute, Instruction.writes, setInt_of_set, same, target]
      rfl
  case lowerStack | raiseStack =>
    simp only [Instruction.execute, Processor.set_registers, apart, ↓reduceIte]
    rw [set_of_set]
    rfl
  case load rt offset =>
    have same : (state.set reg word).memory = state.memory := rfl
    have moved (address : BitVec 64) := set_of_set state rt reg word (state.memory address)
    simp [Instruction.execute, Instruction.writes, slotAddress?, apart, same, moved]
  case store => simp [Instruction.execute, Instruction.writes, slotAddress?, apart]; rfl
  all_goals simp [Instruction.execute, Instruction.writes, setInt_of_set, int_set, apart]
  all_goals rfl

theorem execute_ignores (instruction : Instruction) (state : State)
    (memory : BitVec 64 → BitVec 64) (quiet : instruction.touchesMemory = false) :
    instruction.execute { state with memory := memory } =
      (instruction.execute state).map fun done => ({ done.1 with memory := memory }, done.2) := by
  cases instruction
  case store | load => cases quiet
  all_goals rfl

theorem execute_lowered (instruction : Instruction) (reg : Reg) (count : Nat)
    (lowers : instruction.lowers? = some (reg, count)) (state : State) :
    ∃ after flow, instruction.execute state = some (after, flow) ∧
      after.int reg = state.int reg - BitVec.ofNat 32 count := by
  cases instruction <;> try cases lowers
  case subtract rd rn constant | subtractSettingFlags rd rn constant =>
    simp only [Instruction.lowers?, Option.ite_none_right_eq_some, Option.some.injEq,
      Prod.mk.injEq] at lowers
    obtain ⟨rfl, rfl, rfl⟩ := lowers
    exact ⟨_, _, rfl, (Processor.setInt_int (by decide) state _ _ _).trans (if_pos rfl)⟩

end laws

end Microbench.AArch64
