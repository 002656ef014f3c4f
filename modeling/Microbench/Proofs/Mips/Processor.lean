import Microbench.Mips.Instruction
import Microbench.Proofs.Machine
import Microbench.Proofs.WrittenLine
/-!
What the MIPS32 instructions do, and how they are read from a line of source.

Registers have 32 bits, and register 0 reads as nought whatever is written to it. A jump or
a taken branch lets the instruction behind it run first; a likely branch that is not taken
leaves that instruction out. Words are loaded and stored at multiples of four only. The
reader knows the one spelling of every instruction that the generators use and refuses
operands that have no room in their fields.
-/
namespace Microbench.Mips
open Text

abbrev State := Processor 32 Unit

def value (state : State) (reg : Reg) : BitVec 32 :=
  if reg = zero then 0 else state.registers reg

def assign (state : State) (reg : Reg) (word : BitVec 32) : State :=
  if reg = zero then state else state.set reg word

def written (reg : Reg) : List Reg := if reg = zero then [] else [reg]

def wordAddress? (state : State) (base : Reg) (offset : Nat) : Option (BitVec 32) :=
  let address := value state base + BitVec.ofNat 32 offset
  if address.toNat % 4 = 0 then some address else none

namespace Instruction

/-- The low 32 bits of a product are what `mul` keeps. -/
def execute : Instruction → State → Option (State × Flow 32)
  | .jump label, state => some (state, .jumpAfterSlot (.label label))
  | .jumpRegister rs, state => some (state, .jumpAfterSlot (.address (value state rs)))
  | .nop, state => some (state, .next)
  | .branchNotEqual rs rt label, state =>
    some (state, if value state rs ≠ value state rt then .jumpAfterSlot (.label label) else .next)
  | .branchPositiveLikely rs label, state =>
    some (state,
      if 0 < (value state rs).toInt then .jumpAfterSlot (.label label) else .skipSlot)
  | .addImmediate rt rs immediate, state =>
    some (assign state rt (value state rs + BitVec.ofInt 32 immediate.value), .next)
  | .multiply rd rs rt, state => some (assign state rd (value state rs * value state rt), .next)
  | .loadUpper rt immediate, state =>
    some (assign state rt (immediate.toBitVec ++ 0#16), .next)
  | .orImmediate rt rs immediate, state =>
    some (assign state rt (value state rs ||| immediate.toBitVec.setWidth 32), .next)
  | .storeWord rt offset base, state =>
    (wordAddress? state base offset).map fun address =>
      (state.store address (value state rt), .next)
  | .loadWord rt offset base, state =>
    (wordAddress? state base offset).map fun address =>
      (assign state rt (state.memory address), .next)

def reads : Instruction → List Reg
  | .jump _ | .nop | .loadUpper .. => []
  | .jumpRegister rs | .branchPositiveLikely rs _ | .addImmediate _ rs _
  | .orImmediate _ rs _ => [rs]
  | .branchNotEqual rs rt _ | .multiply _ rs rt => [rs, rt]
  | .storeWord rt _ base => [rt, base]
  | .loadWord _ _ base => [base]

def writes : Instruction → List Reg
  | .addImmediate rt .. | .multiply rt .. | .loadUpper rt _ | .orImmediate rt ..
  | .loadWord rt .. => written rt
  | _ => []

def touchesMemory : Instruction → Bool
  | .storeWord .. | .loadWord .. => true
  | _ => false

def isMultiply : Instruction → Bool
  | .multiply .. => true
  | _ => false

def lowers? : Instruction → Option (Reg × Nat)
  | .addImmediate rt rs (.minus count) => if rt = rs ∧ rt ≠ zero then some (rt, count) else none
  | _ => none

end Instruction

section named

/-- Of a register that is not register 0, the whole is the C `int`. -/
theorem value_named (state : State) (reg : Reg) (named : reg ≠ zero) :
    value state reg = state.int reg := by
  simp [value, named, Processor.int]

theorem assign_named (state : State) (reg : Reg) (word : BitVec 32) (named : reg ≠ zero) :
    assign state reg word = state.setInt reg word := by
  simp [assign, named, Processor.setInt]

theorem value_zero (state : State) : value state zero = 0 := if_pos rfl

theorem wordAddress_whole (state : State) (base : Reg) (offset : Nat) (based : base ≠ zero)
    (aligned : (state.registers base).toNat % 4 = 0) (whole : offset % 4 = 0) :
    wordAddress? state base offset = some (state.registers base + BitVec.ofNat 32 offset) := by
  have sum : (state.registers base + BitVec.ofNat 32 offset).toNat % 4 = 0 := by
    rw [BitVec.toNat_add, BitVec.toNat_ofNat]
    omega
  simp only [wordAddress?, value, if_neg based, if_pos sum]

/-- Filling in the lower half of a word whose lower half is clear. -/
theorem fill_lower (high low : BitVec 16) :
    (high ++ 0#16) ||| low.setWidth 32 = high ++ low := by
  ext place bound
  rw [BitVec.getElem_or, BitVec.getElem_append, BitVec.getElem_append, BitVec.getElem_setWidth]
  by_cases lower : place < 16
  · simp [lower]
  · simp [lower, BitVec.getLsbD_of_ge low place (by omega)]

namespace Instruction

theorem execute_move (state : State) (rt rs : Reg) (into : rt ≠ zero) (source : rs ≠ zero) :
    (addImmediate rt rs (.plus 0)).execute state =
      some (state.setInt rt (state.int rs), .next) := by
  rw [execute, assign_named _ _ _ into, value_named _ _ source]
  simp [Literal.value]

theorem execute_lower (state : State) (reg : Reg) (count : Nat) (named : reg ≠ zero) :
    (addImmediate reg reg (.minus count)).execute state =
      some (state.setInt reg (state.int reg - BitVec.ofNat 32 count), .next) := by
  rw [execute, assign_named _ _ _ named, value_named _ _ named]
  simp [Literal.value, BitVec.sub_eq_add_neg, BitVec.ofInt_neg]

theorem execute_adjust (state : State) (reg : Reg) (delta : Int) (named : reg ≠ zero) :
    (addImmediate reg reg (.ofInt delta)).execute state =
      some (state.set reg (state.registers reg + BitVec.ofInt 32 delta), .next) := by
  simp only [execute, assign, value, if_neg named, Literal.value_ofInt]

theorem execute_loadConstant (state : State) (rt : Reg) (constant : Nat) (into : rt ≠ zero) :
    (addImmediate rt zero (.plus constant)).execute state =
      some (state.setInt rt (BitVec.ofNat 32 constant), .next) := by
  rw [execute, assign_named _ _ _ into]
  simp [value, Literal.value]

theorem execute_multiply (state : State) (rd rs rt : Reg) (into : rd ≠ zero)
    (first : rs ≠ zero) (second : rt ≠ zero) :
    (multiply rd rs rt).execute state =
      some (state.setInt rd (state.int rs * state.int rt), .next) := by
  rw [execute, assign_named _ _ _ into, value_named _ _ first, value_named _ _ second]

theorem execute_loadUpper (state : State) (rt : Reg) (half : UInt16) (into : rt ≠ zero) :
    (loadUpper rt half).execute state =
      some (state.setInt rt (half.toBitVec ++ 0#16), .next) := by
  rw [execute, assign_named _ _ _ into]

theorem execute_orImmediate (state : State) (rt : Reg) (half : UInt16) (high : BitVec 16)
    (into : rt ≠ zero) (clear : state.int rt = high ++ 0#16) :
    (orImmediate rt rt half).execute state =
      some (state.setInt rt (high ++ half.toBitVec), .next) := by
  rw [execute, assign_named _ _ _ into, value_named _ _ into, clear, fill_lower]

theorem execute_branchNotZero (state : State) (rs : Reg) (label : String) (named : rs ≠ zero)
    (going : state.int rs ≠ 0) :
    (branchNotEqual rs zero label).execute state =
      some (state, .jumpAfterSlot (.label label)) := by
  rw [execute, value_named _ _ named, value_zero, if_pos going]

theorem execute_branchZero (state : State) (rs : Reg) (label : String) (named : rs ≠ zero)
    (spent : state.int rs = 0) :
    (branchNotEqual rs zero label).execute state = some (state, .next) := by
  rw [execute, value_named _ _ named, value_zero, if_neg (not_not_intro spent)]

theorem execute_branchPositive (state : State) (rs : Reg) (label : String) (named : rs ≠ zero)
    (going : 0 < (state.int rs).toInt) :
    (branchPositiveLikely rs label).execute state =
      some (state, .jumpAfterSlot (.label label)) := by
  rw [execute, value_named _ _ named, if_pos going]

theorem execute_branchNotPositive (state : State) (rs : Reg) (label : String) (named : rs ≠ zero)
    (spent : (state.int rs).toInt ≤ 0) :
    (branchPositiveLikely rs label).execute state = some (state, .skipSlot) := by
  rw [execute, value_named _ _ named, if_neg (Int.not_lt.mpr spent)]

theorem execute_storeWord (state : State) (rt base : Reg) (offset : Nat) (named : rt ≠ zero)
    (based : base ≠ zero) (aligned : (state.registers base).toNat % 4 = 0)
    (whole : offset % 4 = 0) :
    (storeWord rt offset base).execute state =
      some (state.store (state.registers base + BitVec.ofNat 32 offset) (state.registers rt),
        .next) := by
  simp only [execute, value, if_neg named, wordAddress_whole state base offset based aligned whole,
    Option.map_some]

theorem execute_loadWord (state : State) (rt base : Reg) (offset : Nat) (named : rt ≠ zero)
    (based : base ≠ zero) (aligned : (state.registers base).toNat % 4 = 0)
    (whole : offset % 4 = 0) :
    (loadWord rt offset base).execute state =
      some (state.set rt (state.memory (state.registers base + BitVec.ofNat 32 offset)),
        .next) := by
  simp only [execute, assign, if_neg named,
    wordAddress_whole state base offset based aligned whole, Option.map_some]

end Instruction

end named

section laws

theorem assign_registers (state : State) (reg : Reg) (word : BitVec 32) (other : Reg) :
    (assign state reg word).registers other =
      if other = reg ∧ reg ≠ zero then word else state.registers other := by
  unfold assign
  by_cases constant : reg = zero <;> by_cases same : other = reg <;> simp [constant, same]

theorem assign_spares (state : State) (reg other : Reg) (word : BitVec 32)
    (absent : other ∉ written reg) :
    (assign state reg word).registers other = state.registers other := by
  rw [assign_registers, if_neg]
  rintro ⟨rfl, named⟩
  simp [written, named] at absent

theorem value_set (state : State) (reg other : Reg) (word : BitVec 32) (different : reg ≠ other) :
    value (state.set other word) reg = value state reg := by
  simp [value, different]

theorem assign_set (state : State) (reg other : Reg) (word new : BitVec 32) :
    assign (state.set other word) reg new =
      if other ∈ written reg then assign state reg new else (assign state reg new).set other word := by
  unfold assign written
  by_cases constant : reg = zero
  · simp [constant]
  · by_cases same : other = reg
    · simp [constant, same, Processor.set_set]
    · simp [constant, same, Processor.set_comm state other reg word new same]

theorem assign_with_memory (state : State) (memory : BitVec 32 → BitVec 32) (reg : Reg)
    (word : BitVec 32) : assign { state with memory := memory } reg word =
      { assign state reg word with memory := memory } := by
  unfold assign
  split <;> rfl

theorem execute_keeps (instruction : Instruction) (state after : State) (flow : Flow 32)
    (effect : instruction.execute state = some (after, flow)) (reg : Reg)
    (spared : reg ∉ instruction.writes) : after.registers reg = state.registers reg := by
  cases instruction <;>
    simp only [Instruction.execute, Option.some.injEq, Prod.mk.injEq, Option.map_eq_some_iff] at effect
  case storeWord => obtain ⟨address, _, rfl, _⟩ := effect; rfl
  case loadWord => obtain ⟨address, _, rfl, _⟩ := effect; exact assign_spares _ _ _ _ spared
  all_goals obtain ⟨rfl, _⟩ := effect
  case addImmediate | multiply | loadUpper | orImmediate => exact assign_spares _ _ _ _ spared
  all_goals rfl

theorem execute_depends (instruction : Instruction) (state : State) (reg : Reg) (word : BitVec 32)
    (unread : reg ∉ instruction.reads) :
    instruction.execute (state.set reg word) = (instruction.execute state).map fun done =>
      (if reg ∈ instruction.writes then done.1 else done.1.set reg word, done.2) := by
  have same (source : Reg) (read : source ∈ instruction.reads) :
      value (state.set reg word) source = value state source :=
    value_set state source reg word fun equal => unread (equal ▸ read)
  cases instruction <;>
    simp only [Instruction.reads, List.mem_cons, List.not_mem_nil, or_false, forall_eq_or_imp,
      forall_eq] at same <;>
    simp [Instruction.execute, Instruction.writes, wordAddress?, assign_set, same]
  case addImmediate | multiply | loadUpper | orImmediate | storeWord | loadWord => rfl

theorem execute_ignores (instruction : Instruction) (state : State)
    (memory : BitVec 32 → BitVec 32) (quiet : instruction.touchesMemory = false) :
    instruction.execute { state with memory := memory } =
      (instruction.execute state).map fun done => ({ done.1 with memory := memory }, done.2) := by
  cases instruction
  case storeWord | loadWord => cases quiet
  all_goals simp [Instruction.execute, value, assign_with_memory]

theorem execute_lowered (instruction : Instruction) (reg : Reg) (count : Nat)
    (lowers : instruction.lowers? = some (reg, count)) (state : State) :
    ∃ after flow, instruction.execute state = some (after, flow) ∧
      after.int reg = state.int reg - BitVec.ofNat 32 count := by
  cases instruction <;> try cases lowers
  case addImmediate rt rs immediate =>
    cases immediate with
    | plus count => cases lowers
    | minus count =>
        simp only [Instruction.lowers?, Option.ite_none_right_eq_some, Option.some.injEq,
          Prod.mk.injEq] at lowers
        obtain ⟨⟨rfl, named⟩, rfl, rfl⟩ := lowers
        refine ⟨_, _, rfl, ?_⟩
        simp [Processor.int, assign_registers, named, value, Literal.value, BitVec.sub_eq_add_neg,
          BitVec.ofInt_neg]

end laws

end Microbench.Mips
