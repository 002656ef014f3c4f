import Microbench.Proofs.Operations
/-!
What running the operations of a target does.

The plain ones each have one effect, the same on both architectures when it is said in terms
of C `int`s. The ones that move control are runs of their own, since a delay slot belongs to
the branch before it. What the architectures do not share is left open: the flags, and what
the counter of a loop holds once the loop is over.
-/
namespace Microbench

/-- Whether a branch that counts goes to its label. MIPS32 looks at the counter as it was,
AArch64 at the borrow of lowering it. -/
def Architecture.Goes : Architecture → (decrement : Nat) → (count : BitVec 32) → Prop
  | .mips32, _, count => count ≠ 0
  | .aarch64, decrement, count => decrement ≤ count.toNat

/-- Taking off one borrows from nought alone. -/
theorem Architecture.goes_one (architecture : Architecture) (count : BitVec 32) :
    architecture.Goes 1 count ↔ count ≠ 0 := by
  cases architecture with
  | mips32 => exact Iff.rfl
  | aarch64 =>
      have nought : count = 0 ↔ count.toNat = 0 := BitVec.toNat_eq
      rw [ne_eq, nought]
      exact Nat.one_le_iff_ne_zero

namespace Target
open Statement InstructionSet

section plain

variable (target : Target) (state : target.architecture.isa.State)

theorem move_runs (rd rs : Reg) (into : target.architecture.Writable rd)
    (source : target.architecture.Writable rs) :
    (target.move rd rs).Runs target.architecture state (state.setInt rd (state.int rs)) := by
  obtain ⟨_ | _, abi⟩ := target
  · exact runs_mips _ _ _ (Mips.Instruction.execute_move _ _ _ into.2 source.2)
  · exact runs_aarch64 _ _ _ rfl

theorem loadSmall_runs (rd : Reg) (immediate : UInt16) (into : target.architecture.Writable rd) :
    (target.loadSmall rd immediate).Runs target.architecture state
      (state.setInt rd (BitVec.ofNat 32 immediate.toNat)) := by
  obtain ⟨_ | _, abi⟩ := target
  · exact runs_mips _ _ _ (Mips.Instruction.execute_loadConstant _ _ _ into.2)
  · exact runs_aarch64 _ _ _ (AArch64.Instruction.execute_moveImmediate _ _ _)

/-- Everything that is to be known of a multiply. -/
theorem multiply_instruction (target : Target) (rd ra rb : Reg)
    (into : target.architecture.Writable rd) (first : target.architecture.Writable ra)
    (second : target.architecture.Writable rb) :
    ∃ instruction, (target.multiply rd ra rb).cell target.architecture = .instruction instruction ∧
      target.architecture.isa.isMultiply instruction = true ∧
      target.architecture.isa.writes instruction = [rd] ∧
      target.architecture.isa.reads instruction = [ra, rb] ∧
      ∀ state : target.architecture.isa.State, target.architecture.isa.execute instruction state =
        some (state.setInt rd (state.int ra * state.int rb), .next) := by
  obtain ⟨_ | _, abi⟩ := target
  · refine ⟨.multiply rd ra rb, rfl, rfl, if_neg into.2, rfl, ?_⟩
    intro state
    exact Mips.Instruction.execute_multiply state _ _ _ into.2 first.2 second.2
  · exact ⟨.multiply rd ra rb, rfl, rfl, rfl, rfl, fun state => rfl⟩

theorem loadUpper_runs (rd : Reg) (half : UInt16) (into : target.architecture.Writable rd) :
    (target.loadUpper rd half).Runs target.architecture state
      (state.setInt rd (half.toBitVec ++ 0#16)) := by
  obtain ⟨_ | _, abi⟩ := target
  · exact runs_mips _ _ _ (Mips.Instruction.execute_loadUpper _ _ _ into.2)
  · exact runs_aarch64 _ _ _ rfl

theorem orLower_runs (rd : Reg) (high : BitVec 16) (half : UInt16)
    (into : target.architecture.Writable rd) (clear : state.int rd = high ++ 0#16) :
    (target.orLower rd half).Runs target.architecture state
      (state.setInt rd (high ++ half.toBitVec)) := by
  obtain ⟨_ | _, abi⟩ := target
  · exact runs_mips _ _ _ (Mips.Instruction.execute_orImmediate _ _ _ _ into.2 clear)
  · exact runs_aarch64 _ _ _ (AArch64.Instruction.execute_moveLowerKeeping _ _ _ _ clear)

end plain

section stack

variable (architecture : Architecture) (pool : List Reg) (state : architecture.isa.State)

theorem stackPointer_named : Architecture.mips32.stockAbi.stackPointer ≠ Mips.zero := by decide

theorem adjustStack_runs (delta : Int) :
    ((withPool architecture pool).adjustStack delta).Runs architecture state
      (state.set architecture.stockAbi.stackPointer
        (state.registers architecture.stockAbi.stackPointer +
          BitVec.ofInt architecture.isa.width delta)) := by
  cases architecture
  · refine runs_mips _ _ _ (Mips.Instruction.execute_adjust state _ delta ?_)
    exact stackPointer_named
  · exact runs_aarch64 _ _ _ (AArch64.Instruction.execute_adjust state delta)

variable (reg : Reg) (offset : Nat) (named : architecture.Writable reg)
  (aligned : (state.registers architecture.stockAbi.stackPointer).toNat %
    architecture.stockAbi.stackAlign.toNat = 0)
  (whole : offset % architecture.stockAbi.slotSize.toNat = 0)

def slotAddress : BitVec architecture.isa.width :=
  state.registers architecture.stockAbi.stackPointer + BitVec.ofNat _ offset

theorem quartered {bytes : Nat} (aligned : bytes % 8 = 0) : bytes % 4 = 0 := by omega

include named aligned whole in
theorem storeRegister_runs :
    ((withPool architecture pool).storeRegister reg offset).Runs architecture state
      (state.store (slotAddress architecture state offset) (state.registers reg)) := by
  cases architecture
  · exact runs_mips _ _ _ (Mips.Instruction.execute_storeWord state reg _ offset named.2
      stackPointer_named (quartered aligned) whole)
  · exact runs_aarch64 _ _ _ (AArch64.Instruction.execute_store state reg offset aligned whole)

include named aligned whole in
theorem loadRegister_runs :
    ((withPool architecture pool).loadRegister reg offset).Runs architecture state
      (state.set reg (state.memory (slotAddress architecture state offset))) := by
  cases architecture
  · exact runs_mips _ _ _ (Mips.Instruction.execute_loadWord state reg _ offset named.2
      stackPointer_named (quartered aligned) whole)
  · exact runs_aarch64 _ _ _ (AArch64.Instruction.execute_load state reg offset aligned whole)

end stack

section control

variable (target : Target) (program rest destination : target.architecture.isa.Code)
  (state : target.architecture.isa.State) (label : String)
  (found : target.architecture.isa.seek label program = some destination)

include found in
theorem jump_reaches :
    target.architecture.isa.Reaches program
      (.within ((target.jump label).map (cell target.architecture) ++ rest) state)
      ((target.jump label).map (cell target.architecture)) (.within destination state) := by
  obtain ⟨_ | _, abi⟩ := target
  · exact Reaches.of_step (step_slot rfl rfl (goTo_label found))
  · exact Reaches.of_step (step_jump rfl (goTo_label found))

variable (counter : Reg) (named : target.architecture.Writable counter) (decrement : Nat)

section counting

variable (small : decrement < 2 ^ 32)

include found named small in
theorem countedBranch_repeats
    (going : target.architecture.Goes decrement (state.int counter)) :
    ∃ flags, target.architecture.isa.Reaches program
      (.within ((target.countedBranch counter label decrement).map (cell target.architecture) ++ rest)
        state)
      ((target.countedBranch counter label decrement).map (cell target.architecture))
      (.within destination
        { state.setInt counter (state.int counter - BitVec.ofNat 32 decrement) with
          flags := flags }) := by
  obtain ⟨_ | _, abi⟩ := target
  · have branch := Mips.Instruction.execute_branchNotZero state counter label named.2 going
    have lower := Mips.Instruction.execute_lower state counter decrement named.2
    exact ⟨(), Reaches.of_step (step_slot branch lower (goTo_label found))⟩
  · refine ⟨AArch64.Flags.ofSubtraction (Processor.int state counter) (BitVec.ofNat 32 decrement),
      (Reaches.of_step (step_next rfl)).trans
      (Reaches.of_step (step_jump ?_ (goTo_label found)))⟩
    exact AArch64.Instruction.execute_branchCarrySet _ _ label decrement small rfl going

include named small in
/-- A branch that is not taken lowers the counter all the same. -/
theorem countedBranch_ends
    (staying : ¬ target.architecture.Goes decrement (state.int counter)) :
    ∃ flags, target.architecture.isa.Reaches program
      (.within ((target.countedBranch counter label decrement).map (cell target.architecture) ++ rest)
        state)
      ((target.countedBranch counter label decrement).map (cell target.architecture))
      (.within rest
        { state.setInt counter (state.int counter - BitVec.ofNat 32 decrement) with
          flags := flags }) := by
  obtain ⟨_ | _, abi⟩ := target
  · have branch := Mips.Instruction.execute_branchZero state counter label named.2
      (Classical.not_not.mp staying)
    have lower := Mips.Instruction.execute_lower state counter decrement named.2
    exact ⟨(), (Reaches.of_step (step_next branch)).trans (Reaches.of_step (step_next lower))⟩
  · refine ⟨AArch64.Flags.ofSubtraction (Processor.int state counter) (BitVec.ofNat 32 decrement),
      (Reaches.of_step (step_next rfl)).trans (Reaches.of_step (step_next ?_))⟩
    exact AArch64.Instruction.execute_branchCarryClear _ _ label decrement small rfl staying

end counting

include named in
/-- A loop branch takes its decrement off the counter, and lowers nothing else. -/
theorem loopBranch_lowers :
    ((target.loopBranch counter label decrement).map (cell target.architecture)).filterMap
      (fun passed => passed.instruction?.bind target.architecture.isa.lowers?) =
      [(counter, decrement)] := by
  obtain ⟨_ | _, abi⟩ := target
  · have lowers : (Mips.Instruction.addImmediate counter counter (.minus decrement)).lowers? =
        some (counter, decrement) := if_pos ⟨rfl, named.2⟩
    show List.filterMap id [none, (Mips.Instruction.addImmediate counter counter
      (.minus decrement)).lowers?] = _
    rw [lowers]
    rfl
  · have lowers : (AArch64.Instruction.subtract counter counter decrement).lowers? =
        some (counter, decrement) := if_pos rfl
    show List.filterMap id [none, (AArch64.Instruction.subtract counter counter
      decrement).lowers?, none] = _
    rw [lowers]
    rfl

include found named in
theorem loopBranch_repeats (going : 0 < (state.int counter).toInt) :
    ∃ flags, target.architecture.isa.Reaches program
      (.within ((target.loopBranch counter label decrement).map (cell target.architecture) ++ rest)
        state)
      ((target.loopBranch counter label decrement).map (cell target.architecture))
      (.within destination
        { state.setInt counter (state.int counter - BitVec.ofNat 32 decrement) with
          flags := flags }) := by
  obtain ⟨_ | _, abi⟩ := target
  · have branch := Mips.Instruction.execute_branchPositive state counter label named.2 going
    have lower := Mips.Instruction.execute_lower state counter decrement named.2
    exact ⟨(), Reaches.of_step (step_slot branch lower (goTo_label found))⟩
  · refine ⟨AArch64.Flags.ofSubtraction (Processor.int state counter) 0,
      (Reaches.of_step (step_next rfl)).trans ((Reaches.of_step (step_next rfl)).trans
      (Reaches.of_step (step_jump ?_ (goTo_label found))))⟩
    exact AArch64.Instruction.execute_branchGreater _ _ label rfl going

include named in
/-- The last round leaves the counter as it was where the slot is left out, and lowered where there
is no slot. -/
theorem loopBranch_ends (spent : (state.int counter).toInt ≤ 0) :
    ∃ trace after, target.architecture.isa.Reaches program
        (.within ((target.loopBranch counter label decrement).map (cell target.architecture) ++ rest)
          state) trace (.within rest after) ∧
      (∀ passed ∈ trace,
        passed ∈ (target.loopBranch counter label decrement).map (cell target.architecture)) ∧
      after.memory = state.memory ∧
      ∀ reg, reg ≠ counter → after.registers reg = state.registers reg := by
  obtain ⟨_ | _, abi⟩ := target
  · have branch := Mips.Instruction.execute_branchNotPositive state counter label named.2 spent
    refine ⟨_, state, Reaches.of_step (step_skip branch), ?_, rfl, fun reg other => rfl⟩
    intro passed member
    cases List.mem_singleton.mp member
    exact List.mem_cons_self
  · let lowered : AArch64.State :=
      Processor.setInt state counter (Processor.int state counter - BitVec.ofNat 32 decrement)
    let after : AArch64.State :=
      { lowered with flags := AArch64.Flags.ofSubtraction (Processor.int state counter) 0 }
    refine ⟨_, after, (Reaches.of_step (step_next rfl)).trans ((Reaches.of_step (step_next rfl)).trans
      (Reaches.of_step (step_next ?_))), fun passed member => member, rfl,
      fun reg other => if_neg other⟩
    exact AArch64.Instruction.execute_branchNotGreater _ _ label rfl spent

end control

section returning

variable (architecture : Architecture) (pool : List Reg) (program rest : architecture.isa.Code)
  (state : architecture.isa.State)

theorem return_reaches :
    architecture.isa.Reaches program
      (.within (((withPool architecture pool).returnAfter none).map (cell architecture) ++ rest) state)
      (((withPool architecture pool).returnAfter none).map (cell architecture))
      (.returned (state.registers architecture.stockAbi.returnAddress) state) := by
  cases architecture
  · exact Reaches.of_step (step_slot rfl rfl rfl)
  · exact Reaches.of_step (step_jump rfl rfl)

/-- The last statement runs before control is back, even where it stands in the slot. -/
theorem returnAfter_reaches (last : Statement) (after : architecture.isa.State)
    (runs : last.Runs architecture state after)
    (kept : after.registers architecture.stockAbi.returnAddress =
      state.registers architecture.stockAbi.returnAddress) :
    architecture.isa.Reaches program
      (.within (((withPool architecture pool).returnAfter (some last)).map (cell architecture) ++ rest)
        state)
      (((withPool architecture pool).returnAfter (some last)).map (cell architecture))
      (.returned (state.registers architecture.stockAbi.returnAddress) after) := by
  obtain ⟨instruction, same, effect⟩ := runs
  cases architecture
  · have slots : ((withPool .mips32 pool).returnAfter (some last)).map (cell .mips32) =
        [.instruction (.jumpRegister 31), .instruction instruction] := congrArg ([_, ·]) same
    rw [slots]
    exact Reaches.of_step (step_slot rfl effect rfl)
  · have line : ((withPool .aarch64 pool).returnAfter (some last)).map (cell .aarch64) =
        [.instruction instruction, .instruction .ret] := congrArg ([·, _]) same
    rw [line, ← kept]
    exact (Reaches.of_step (step_next effect)).trans (Reaches.of_step (step_jump rfl rfl))

end returning

end Target

end Microbench
