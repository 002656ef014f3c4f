import Mathlib.Data.List.Count
import Microbench.Proofs.CycleRoutine
import Microbench.Proofs.RandomChains
/-!
What a call of a cycle routine does.

Only the last block in the order of the labels looks at the argument, wherever the walk meets
it. Up to there a walk changes nothing. From there it goes around once for every unit of the
argument, read as a number without sign, and each time meets all labels once. The branch that
is not taken falls out of the blocks into the return.
-/
namespace Microbench

theorem Halves.append_ofWord (word : UInt32) :
    (ofWord word).high.toBitVec ++ (ofWord word).low.toBitVec = word.toBitVec := by
  ext place bound
  rw [BitVec.getElem_append]
  by_cases lower : place < 16
  · simp only [ofWord, lower, ↓reduceDIte, UInt32.toBitVec_toUInt16, BitVec.getElem_setWidth]
    exact BitVec.getLsbD_eq_getElem bound
  · have shifted : 16 + (place - 16) = place := by omega
    have half : (ofWord word).high.toBitVec = (word.toBitVec >>> 16).setWidth 16 := by
      simp [ofWord]
    simp only [lower, ↓reduceDIte, half, BitVec.getElem_setWidth, BitVec.getLsbD_ushiftRight, shifted]
    exact BitVec.getLsbD_eq_getElem bound

theorem Halves.word_append (halves : Halves) :
    halves.word.toBitVec = halves.high.toBitVec ++ halves.low.toBitVec := by
  ext place inside
  rw [BitVec.getElem_append]
  by_cases lower : place < 16
  · simp [Halves.word, lower]
  · have beyond : 16 ≤ place := by omega
    simpa [Halves.word, lower, BitVec.getLsbD_of_ge _ _ beyond] using
      BitVec.getLsbD_eq_getElem (by omega)

theorem Halves.word_ofWord (word : UInt32) : (ofWord word).word = word := by
  rw [← UInt32.toBitVec_inj, word_append, append_ofWord]

namespace CycleFamily
open Statement Target InstructionSet

section walking

variable (architecture : Architecture) (pool : List Reg) (chain : Chain)

def blockCells (label : Nat) : architecture.isa.Code :=
  .label (cycleLabel label) ::
    (leaving (withPool architecture pool) chain label).map (cell architecture)

theorem blockCells_labels (label : Nat) :
    (blockCells architecture pool chain label).filterMap Cell.label? = [cycleLabel label] := by
  rw [blockCells, labels_cons, labels_cells, (leaving_goesTo _ _ _).unlabelled]

variable (program back : architecture.isa.Code) (cycle : chain.SingleCycle)
  (found : ∀ label, label < chain.size → architecture.isa.seek (cycleLabel label) program =
    some (codeFrom architecture pool chain back label))

include found cycle

/-- A block that is not the last one leads to its successor and does nothing else. -/
theorem block_reaches (label : Nat) (inside : label < chain.size) (early : label + 1 ≠ chain.size)
    (state : architecture.isa.State) :
    architecture.isa.Reaches program
      (.within (codeFrom architecture pool chain back label) state)
      (blockCells architecture pool chain label)
      (.within (codeFrom architecture pool chain back (chain.next label)) state) := by
  have jumps := jump_reaches (withPool architecture pool) program
    (codeFrom architecture pool chain back (label + 1)) _ state (cycleLabel (chain.next label))
    (found _ (cycle.stays label 1 inside))
  have left : leaving (withPool architecture pool) chain label =
      (withPool architecture pool).jump (cycleLabel (chain.next label)) := if_neg early
  rw [codeFrom_block back label inside, blockCells, left]
  exact (Reaches.of_label (cycleLabel label)).trans jumps

theorem walk_reaches (steps first : Nat) (inside : first < chain.size)
    (early : ∀ step, step < steps → chain.after step first + 1 ≠ chain.size)
    (state : architecture.isa.State) :
    ∃ trace, architecture.isa.Reaches program
        (.within (codeFrom architecture pool chain back first) state) trace
        (.within (codeFrom architecture pool chain back (chain.after steps first)) state) ∧
      trace.filterMap Cell.label? = (chain.walk steps first).map cycleLabel := by
  -- the state stays the same, so the induction needs no other invariant than the block reached
  induction steps with
  | zero => exact ⟨[], Reaches.refl program _, rfl⟩
  | succ steps ih =>
      obtain ⟨trace, walked, labels⟩ := ih fun step bound => early step (Nat.lt_succ_of_lt bound)
      have onward := block_reaches architecture pool chain program back cycle found _
        (cycle.stays first steps inside) (early steps (Nat.lt_succ_self steps)) state
      refine ⟨_, walked.trans onward, ?_⟩
      rw [List.filterMap_append, labels, blockCells_labels, Chain.walk_add, List.map_append]
      rfl

variable (last : Nat) (full : last + 1 = chain.size)

include full

/-- From the last block, while there is something to count, a walk goes once around. -/
theorem round_reaches (state : architecture.isa.State)
    (going : state.int architecture.stockAbi.argument ≠ 0) :
    ∃ trace flags, architecture.isa.Reaches program
        (.within (codeFrom architecture pool chain back last) state) trace
        (.within (codeFrom architecture pool chain back last)
          { state.setInt architecture.stockAbi.argument
              (state.int architecture.stockAbi.argument - 1) with flags := flags }) ∧
      trace.filterMap Cell.label? = (chain.walk chain.size last).map cycleLabel := by
  have inside : last < chain.size := by omega
  have second := cycle.stays last 1 inside
  obtain ⟨flags, branch⟩ := countedBranch_repeats (withPool architecture pool) program
    (codeFrom architecture pool chain back (last + 1)) _ state (cycleLabel (chain.next last))
    (found _ second) architecture.stockAbi.argument architecture.writable_argument 1 (by decide)
    ((architecture.goes_one _).mpr going)
  have left : leaving (withPool architecture pool) chain last =
      (withPool architecture pool).countedBranch architecture.stockAbi.argument
        (cycleLabel (chain.next last)) 1 := if_pos full
  have early : ∀ step, step < last → chain.after step (chain.next last) + 1 ≠ chain.size := by
    intro step bound same
    rw [Chain.after_next] at same
    exact cycle.open_before last (step + 1) inside (Nat.succ_pos step) (by omega) (by omega)
  obtain ⟨trace, walked, labels⟩ := walk_reaches architecture pool chain program back cycle found
    last (chain.next last) second early
    { state.setInt architecture.stockAbi.argument
        (state.int architecture.stockAbi.argument - 1) with flags := flags }
  rw [Chain.after_next, full, cycle.closes last inside] at walked
  have begun : architecture.isa.Reaches program
      (.within (codeFrom architecture pool chain back last) state)
      (blockCells architecture pool chain last)
      (.within (codeFrom architecture pool chain back (chain.next last))
        { state.setInt architecture.stockAbi.argument
            (state.int architecture.stockAbi.argument - 1) with flags := flags }) := by
    rw [codeFrom_block back last inside, blockCells, left]
    exact (Reaches.of_label (cycleLabel last)).trans branch
  refine ⟨_, flags, begun.trans walked, ?_⟩
  rw [List.filterMap_append, blockCells_labels, labels, ← full, Nat.add_comm last 1, Chain.walk_add]
  rfl

omit cycle found in
/-- The last block falls into the return when there is nothing left to count. -/
theorem block_ends (state : architecture.isa.State)
    (spent : state.int architecture.stockAbi.argument = 0) :
    ∃ flags, architecture.isa.Reaches program
      (.within (codeFrom architecture pool chain back last) state)
      (blockCells architecture pool chain last)
      (.within (exitCode architecture pool chain back)
        { state.setInt architecture.stockAbi.argument
            (state.int architecture.stockAbi.argument - 1) with flags := flags }) := by
  have inside : last < chain.size := by omega
  obtain ⟨flags, branch⟩ := countedBranch_ends (Target.withPool architecture pool) program
    (exitCode architecture pool chain back) state (cycleLabel (chain.next last))
    architecture.stockAbi.argument architecture.writable_argument 1 (by decide)
    (mt (architecture.goes_one _).mp (not_not_intro spent))
  have left : leaving (Target.withPool architecture pool) chain last =
      (Target.withPool architecture pool).countedBranch architecture.stockAbi.argument
        (cycleLabel (chain.next last)) 1 := if_pos full
  refine ⟨flags, ?_⟩
  rw [codeFrom_block back last inside, blockCells, left, full, codeFrom_last]
  exact (Reaches.of_label (cycleLabel last)).trans branch

/-- From the last block on a walk goes around as often as the argument says. -/
theorem rounds_reach (rounds : Nat) (state : architecture.isa.State)
    (left : (state.int architecture.stockAbi.argument).toNat = rounds) :
    ∃ trace after, architecture.isa.Reaches program
        (.within (codeFrom architecture pool chain back last) state) trace
        (.within (exitCode architecture pool chain back) after) ∧
      trace.filterMap Cell.label? =
        (chain.walk (rounds * chain.size + 1) last).map cycleLabel ∧
      after.memory = state.memory ∧
      ∀ reg, reg ≠ architecture.stockAbi.argument → after.registers reg = state.registers reg := by
  have inside : last < chain.size := by omega
  -- induction on the argument as a number, which every round lowers by one without a borrow
  induction rounds generalizing state with
  | zero =>
      have spent : state.int architecture.stockAbi.argument = 0 := BitVec.eq_of_toNat_eq left
      obtain ⟨flags, ends⟩ := block_ends architecture pool chain program back last full state spent
      refine ⟨_, _, ends, ?_, rfl, fun reg other => if_neg other⟩
      rw [blockCells_labels, Nat.zero_mul]
      rfl
  | succ rounds ih =>
      have going : state.int architecture.stockAbi.argument ≠ 0 := by
        intro spent
        rw [spent] at left
        cases left
      obtain ⟨front, flags, round, labels⟩ := round_reaches architecture pool chain program back cycle
        found last full state going
      have lowered : (Processor.int { state.setInt architecture.stockAbi.argument
          (state.int architecture.stockAbi.argument - 1) with flags := flags }
          architecture.stockAbi.argument).toNat = rounds := by
        have counted := Processor.setInt_int architecture.isa.wide state
          architecture.stockAbi.argument architecture.stockAbi.argument
          (state.int architecture.stockAbi.argument - 1)
        rw [if_pos rfl] at counted
        apply (congrArg BitVec.toNat counted).trans
        have large := (state.int architecture.stockAbi.argument).isLt
        rw [BitVec.toNat_sub, left, show (1 : BitVec 32).toNat = 1 from rfl]
        omega
      obtain ⟨rest, after, later, others, memory, spared⟩ := ih _ lowered
      refine ⟨_, after, round.trans later, ?_, memory, ?_⟩
      · rw [List.filterMap_append, labels, others, ← List.map_append,
          ← cycle.walk_around rounds 1 last inside]
      · intro reg other
        exact (spared reg other).trans (if_neg other)

end walking

section returning

variable (architecture : Architecture) (pool : List Reg) (chain : Chain)
  (program back : architecture.isa.Code) (state : architecture.isa.State)

/-- The return puts the size into the result, upper half first. -/
theorem exit_reaches :
    ∃ trace after, architecture.isa.Reaches program
        (.within (exitCode architecture pool chain back) state) trace
        (.returned (state.registers architecture.stockAbi.returnAddress) after) ∧
      trace.filterMap Cell.label? = [] ∧
      after.int architecture.stockAbi.result = BitVec.ofNat 32 chain.size ∧
      after.memory = state.memory ∧
      ∀ reg, reg ≠ architecture.stockAbi.result → after.registers reg = state.registers reg := by
  have wide := architecture.isa.wide
  have roles := architecture.roles_apart
  let halves := Halves.ofWord (UInt32.ofNat chain.size)
  have loads := loadUpper_runs (withPool architecture pool) state architecture.stockAbi.result
    halves.high architecture.writable_result
  let half := state.setInt architecture.stockAbi.result (halves.high.toBitVec ++ 0#16)
  have clear : half.int architecture.stockAbi.result = halves.high.toBitVec ++ 0#16 := by
    rw [Processor.setInt_int wide, if_pos rfl]
  have fills := orLower_runs (withPool architecture pool) half architecture.stockAbi.result
    halves.high.toBitVec halves.low architecture.writable_result clear
  let after := half.setInt architecture.stockAbi.result
    (halves.high.toBitVec ++ halves.low.toBitVec)
  have spared (reg : Reg) (other : reg ≠ architecture.stockAbi.result) :
      after.registers reg = state.registers reg := (if_neg other).trans (if_neg other)
  have link : half.registers architecture.stockAbi.returnAddress =
      state.registers architecture.stockAbi.returnAddress := if_neg roles.result_link.symm
  have returns := returnAfter_reaches architecture pool program back half _ after fills
    (if_neg roles.result_link.symm)
  rw [link] at returns
  have passed := reaches_of_pass program
    ([(withPool architecture pool).loadUpper architecture.stockAbi.result halves.high].map
      (cell architecture))
    (((withPool architecture pool).returnAfter (some ((withPool architecture pool).orLower
      architecture.stockAbi.result halves.low))).map (cell architecture) ++ back)
    state half (Runs.pass_cons loads [])
  refine ⟨_, after, passed.trans returns, ?_, ?_, rfl, spared⟩
  · rw [← List.map_append, labels_cells]
    exact (returnSize_goesTo (withPool architecture pool) chain.size).unlabelled
  · rw [Processor.setInt_int wide, if_pos rfl]
    exact Halves.append_ofWord _

end returning

section calls

/-- What a caller finds after a cycle routine, and what the routine has passed on the way. -/
structure Walked (architecture : Architecture) (target : Target) (chain : Chain) (name : String)
    (distance : Nat) (before after : architecture.isa.State) (trace : architecture.isa.Code) :
    Prop where
  labels : trace.filterMap Cell.label? = name ::
    (chain.walk (distance + 1 + (before.int target.abi.argument).toNat * chain.size) 0).map cycleLabel
  lastLabel : (trace.filterMap Cell.label?).count (cycleLabel (chain.size - 1)) =
    (before.int target.abi.argument).toNat + 1
  result : (after.int target.abi.result).toNat = chain.size
  memory : after.memory = before.memory
  others : ∀ reg, reg ≠ target.abi.argument → reg ≠ target.abi.result →
    after.registers reg = before.registers reg
  confined : ∀ passed ∈ trace,
    architecture.isa.Confined [target.abi.argument, target.abi.result] passed

theorem walk_met (chain : Chain) (distance rounds last : Nat)
    (met : chain.after distance 0 = last) :
    chain.walk (distance + 1 + rounds * chain.size) 0 =
      chain.walk distance 0 ++ chain.walk (rounds * chain.size + 1) last := by
  have total : distance + 1 + rounds * chain.size = distance + (rounds * chain.size + 1) := by omega
  rw [total, Chain.walk_add, met]

/-- The last label is met once for every unit of the argument and once more. -/
theorem count_last (chain : Chain) (cycle : chain.SingleCycle) (name : String)
    (distance rounds last : Nat) (inside : last < chain.size) (met : chain.after distance 0 = last)
    (first : ∀ earlier, earlier < distance → chain.after earlier 0 ≠ last)
    (other : name ≠ cycleLabel last) :
    (name :: (chain.walk (distance + 1 + rounds * chain.size) 0).map cycleLabel).count
      (cycleLabel last) = rounds + 1 := by
  have none : (chain.walk distance 0).count last = 0 := by
    apply List.count_eq_zero.mpr
    intro member
    obtain ⟨earlier, bound, same⟩ := List.mem_map.mp member
    exact first earlier (List.mem_range.mp bound) same
  rw [List.count_cons_of_ne other, List.count_map_of_injective _ _ cycleLabel_injective,
    walk_met chain distance rounds last met, List.count_append, none,
    cycle.count_start rounds last inside, Nat.zero_add]

theorem laid_walks {architecture : Architecture} {pool : List Reg} {chain : Chain} {start : String}
    {routine : Routine} {front back : architecture.isa.Code}
    (laid : Laid architecture pool chain start routine front back) (cycle : chain.SingleCycle)
    (present : 0 < chain.size) (few : chain.size < 4294967296) (distance : Nat)
    (met : chain.after distance 0 = chain.size - 1)
    (first : ∀ earlier, earlier < distance → chain.after earlier 0 ≠ chain.size - 1)
    (before : architecture.isa.State) :
    ∃ trace after, architecture.isa.Reaches
        (front ++ .label routine.name :: codeFrom architecture pool chain back 0)
        (.within (.label routine.name :: codeFrom architecture pool chain back 0) before) trace
        (.returned (before.registers architecture.stockAbi.returnAddress) after) ∧
      Walked architecture (withPool architecture pool) chain routine.name distance before after
        trace := by
  -- the walk up to the last label, the rounds that the argument asks for, and the return
  have roles := architecture.roles_apart
  have found := block_found laid
  have full : chain.size - 1 + 1 = chain.size := Nat.sub_add_cancel present
  have inside : chain.size - 1 < chain.size := by omega
  have early : ∀ step, step < distance → chain.after step 0 + 1 ≠ chain.size := by
    intro step bound same
    exact first step bound (by omega)
  obtain ⟨approach, walked, approached⟩ := walk_reaches architecture pool chain _ back cycle found
    distance 0 present early before
  rw [met] at walked
  obtain ⟨turns, final, rounds, turned, kept, spared⟩ := rounds_reach architecture pool chain _ back
    cycle found (chain.size - 1) full _ before rfl
  obtain ⟨ending, after, returns, ended, result, memory, others⟩ := exit_reaches architecture pool
    chain (front ++ .label routine.name :: codeFrom architecture pool chain back 0) back final
  rw [spared _ roles.argument_link.symm] at returns
  have run := (((Reaches.of_label routine.name).trans walked).trans rounds).trans returns
  have labels : (([Cell.label routine.name] ++ approach ++ turns) ++ ending).filterMap Cell.label? =
      routine.name :: (chain.walk (distance + 1 +
        (before.int architecture.stockAbi.argument).toNat * chain.size) 0).map cycleLabel := by
    rw [List.filterMap_append, List.filterMap_append, List.filterMap_append, approached, turned, ended,
      List.append_nil, walk_met chain distance _ _ met, List.map_append, List.append_assoc]
    rfl
  refine ⟨_, after, run, labels, ?_, ?_, memory.trans kept, ?_, ?_⟩
  · rw [labels]
    apply count_last chain cycle _ distance _ _ inside met first
    rw [laid.named]
    exact symbol_not_cycleLabel start chain.size _ inside
  · exact (congrArg BitVec.toNat result).trans (Nat.mod_eq_of_lt few)
  · intro reg away apart
    rw [others reg apart, spared reg away]
  · -- every passed cell is one of the program's, and the program is confined as a whole
    intro passed member
    apply laid.confined
    refine Reaches.mem _ run ?_ passed member
    exact fun cell found => List.mem_append_right front found

variable (architecture : Architecture) (pool : Option (List Reg)) (target : Target)
  (start : String) (chain : Chain)
  (built : Target.build architecture pool = .ok target)
  (made : (∃ order, Chain.ofOrder order = .ok chain) ∨
    ∃ size stream, (Chain.random size stream).1 = .ok chain)
  (unbroken : ∀ c ∈ start.toList, Text.isBlank c = false)

include built made unbroken in
/-- A call of a cycle routine comes back with the size, whatever the registers and the memory
hold, after it has walked the chain as often as the argument says. -/
theorem routine_walks_chain : ∃ routine program entry distance,
    (⟨target, start⟩ : CycleFamily).emit chain = .ok routine ∧
    architecture.isa.assemble routine.lines = some program ∧
    architecture.isa.seek routine.name program = some entry ∧
    distance < chain.size ∧ chain.after distance 0 = chain.size - 1 ∧
    (∀ earlier, earlier < distance → chain.after earlier 0 ≠ chain.size - 1) ∧
    ∀ before : architecture.isa.State, ∃ trace after,
      architecture.isa.Reaches program (.within entry before) trace
        (.returned (before.registers target.abi.returnAddress) after) ∧
      Walked architecture target chain routine.name distance before after trace := by
  obtain ⟨same, _⟩ := build_withPool architecture pool target built
  generalize pool.getD architecture.stockAbi.accumulators = regs at same
  subst same
  have ordered : ∃ order, Chain.ofOrder order = .ok chain := by
    rcases made with ordered | ⟨size, stream, drawn⟩
    · exact ordered
    · exact Chain.random_ordered size stream chain drawn
  obtain ⟨order, linked⟩ := ordered
  obtain ⟨accepted, sound⟩ := Chain.ofOrder_checked order chain linked
  have cycle := Chain.single_of_order order chain linked
  obtain ⟨_, least, most⟩ := (Chain.sizeFault_none_iff _).mp accepted
  have few : chain.size < 4294967296 := Nat.lt_of_le_of_lt most (by decide)
  have present : 0 < chain.size := Nat.lt_of_lt_of_le (by decide) least
  obtain ⟨routine, front, back, emitted, laid⟩ :=
    routine_laid architecture regs chain start present sound unbroken
  obtain ⟨distance, short, met, first⟩ :=
    cycle.meets 0 (chain.size - 1) present (Nat.sub_one_lt_of_lt present)
  exact ⟨routine, _, _, distance, emitted, laid.assembled, entry_found laid, short, met, first,
    laid_walks laid cycle present few distance met first⟩

theorem routine_walks_four :
    let before : Mips.State := ⟨fun _ => 1, fun _ => 0, ()⟩
    ∃ routine program entry trace after,
      (⟨stock .mips32, "goto_test"⟩ : CycleFamily).emit ⟨#[3, 2, 0, 1]⟩ = .ok routine ∧
      Mips.instructionSet.assemble routine.lines = some program ∧
      Mips.instructionSet.Reaches program (.within entry before) trace (.returned 1 after) ∧
      trace.filterMap Cell.label? = routine.name :: [0, 3, 1, 2, 0, 3].map cycleLabel ∧
      (after.int 2).toNat = 4 := by
  intro before
  obtain ⟨routine, program, entry, distance, emitted, assembled, _, short, met, first, called⟩ :=
    routine_walks_chain .mips32 none (stock .mips32) "goto_test" ⟨#[3, 2, 0, 1]⟩ rfl
      (.inl ⟨[2, 0, 3, 1], by decide +kernel⟩) (by simp [Text.isBlank])
  obtain ⟨trace, after, returns, walked⟩ := called before
  have once : distance = 1 := by
    cases distance with
    | zero => cases met
    | succ more =>
        cases more with
        | zero => rfl
        | succ more => exact absurd rfl (first 1 (by omega))
  subst once
  exact ⟨routine, program, entry, trace, after, emitted, assembled, returns, walked.labels,
    walked.result⟩

end calls

end CycleFamily

end Microbench
