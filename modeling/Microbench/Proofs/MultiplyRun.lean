import Microbench.Proofs.MultiplyRoutine
/-!
What a call of a multiply function does.

The counter starts at the argument, read as a signed number, and falls by the unroll factor
for as long as it is positive. So the body runs once, and once more for every unroll factor
that fits into the argument, the last one in part. The result is the argument, every
accumulator is its ordinal times the counters it has met, and the frame hides from the caller
what a callee may not change.
-/
namespace Microbench.MultiplyFamily
open Statement Target InstructionSet

section counting

def trips (unroll : Nat) (count : BitVec 32) : Nat :=
  (count.toInt.toNat + unroll - 1) / unroll

/-- How often the body of a function runs: once, and once more for every unroll factor or
part of one in the argument. -/
def rounds (unroll : Nat) (argument : BitVec 32) : Nat := 1 + trips unroll argument

def product (unroll : Nat) : Nat → BitVec 32 → BitVec 32
  | 0, count => power count unroll
  | more + 1, count => power count unroll * product unroll more (count - BitVec.ofNat 32 unroll)

theorem trips_over (unroll : Nat) (count : BitVec 32) (positive : 1 ≤ unroll)
    (spent : count.toInt ≤ 0) : trips unroll count = 0 := by
  rw [trips, Int.toNat_of_nonpos spent]
  exact Nat.div_eq_of_lt (by omega)

/-- A positive counter does not go round the end of the numbers when it is lowered. -/
theorem lowered_toInt (unroll : Nat) (count : BitVec 32) (small : unroll ≤ 32768)
    (going : 0 < count.toInt) :
    (count - BitVec.ofNat 32 unroll).toInt = count.toInt - unroll := by
  have limit := BitVec.toInt_lt (x := count)
  have factor : (BitVec.ofNat 32 unroll).toInt = unroll := by
    rw [BitVec.toInt_ofNat']
    exact Int.bmod_eq_of_le (by omega) (by omega)
  rw [BitVec.toInt_sub, factor]
  apply Int.bmod_eq_of_le <;> omega

theorem trips_going (unroll : Nat) (count : BitVec 32) (positive : 1 ≤ unroll)
    (small : unroll ≤ 32768) (going : 0 < count.toInt) :
    trips unroll count = trips unroll (count - BitVec.ofNat 32 unroll) + 1 := by
  rw [trips, trips, lowered_toInt unroll count small going, ← Nat.add_div_right _ positive]
  -- the last trip may take off more than is left, and is still one trip
  by_cases last : count.toInt ≤ unroll
  · have spent : (count.toInt - unroll).toNat = 0 := Int.toNat_of_nonpos (by omega)
    have once (sum : Nat) (least : unroll ≤ sum) (most : sum < 2 * unroll) : sum / unroll = 1 :=
      Nat.div_eq_of_lt_le (by omega) (by omega)
    rw [spent, once _ (by omega) (by omega), once _ (by omega) (by omega)]
  · congr 1
    omega

end counting

section looping

variable (target : Target) (accumulators : List Reg) (unroll : Nat) (head : String)
  (program rest : target.architecture.isa.Code)
  (writable : ∀ reg ∈ accumulators, target.architecture.Writable reg)
  (counted : target.architecture.Writable target.abi.counter)
  (apart : ∀ reg ∈ accumulators, reg ≠ target.abi.counter) (distinct : accumulators.Nodup)

include counted in
theorem branch_quiet (spelt : Target.LabelFits head) (encoded : unroll ≤ target.maxDecrement) :
    target.architecture.isa.Quiet (branchCells target unroll head) :=
  plain_quiet target.architecture _
    (loopBranch_fits target target.abi.counter head unroll counted spelt encoded)
    (loopBranch_plain target target.abi.counter head unroll)

include writable counted in
theorem multiplies_body : (bodyCells target accumulators unroll).filter
    target.architecture.isa.isMultiplyCell = bodyCells target accumulators unroll := by
  apply List.filter_eq_self.mpr
  intro passed member
  rw [bodyCells_rota] at member
  obtain ⟨reg, turn, rfl⟩ := List.mem_map.mp member
  have own := writable reg (mem_rota _ _ _ turn)
  obtain ⟨instruction, written, multiplies, _⟩ := multiply_instruction target reg reg
    target.abi.counter own own counted
  rw [advance, written]
  exact multiplies

theorem round_labels (tail : target.architecture.isa.Code) :
    (.label head :: bodyCells target accumulators unroll ++ tail).filterMap Cell.label? =
      head :: tail.filterMap Cell.label? := by
  have body : (bodyCells target accumulators unroll).filterMap Cell.label? = [] := by
    rw [bodyCells, labels_cells, (body_goesTo _ _ _).unlabelled]
  rw [List.cons_append, labels_cons, List.filterMap_append, body, List.nil_append]

include writable counted in
theorem round_multiplies (tail : target.architecture.isa.Code) :
    (.label head :: bodyCells target accumulators unroll ++ tail).filter
        target.architecture.isa.isMultiplyCell =
      bodyCells target accumulators unroll ++ tail.filter target.architecture.isa.isMultiplyCell := by
  rw [List.cons_append, multiplies_cons, List.filter_append,
    multiplies_body target accumulators unroll writable counted]

structure Turned (before after : target.architecture.isa.State) : Prop where
  counter : after.int target.abi.counter = before.int target.abi.counter
  products : ∀ reg ∈ accumulators, after.int reg =
    before.int reg * power (before.int target.abi.counter) unroll
  others : ∀ reg, reg ∉ accumulators → after.registers reg = before.registers reg
  memory : after.memory = before.memory

include writable counted apart distinct in
theorem round_reaches (state : target.architecture.isa.State) :
    ∃ after, target.architecture.isa.Reaches program
        (.within (loopCode target accumulators unroll head rest) state)
        (.label head :: bodyCells target accumulators unroll)
        (.within (branchCells target unroll head ++ rest) after) ∧
      Turned target accumulators unroll state after := by
  obtain ⟨after, passed, memory, spared, products⟩ := advances_pass target accumulators writable
    counted apart (rota accumulators unroll) (mem_rota accumulators unroll) state
  have others (reg : Reg) (absent : reg ∉ accumulators) : after.registers reg = state.registers reg :=
    spared reg fun turn => absent (mem_rota _ _ _ turn)
  rw [← bodyCells_rota] at passed
  refine ⟨after, reaches_of_pass program (.label head :: bodyCells target accumulators unroll) _
    state after passed, ?_, ?_, others, memory⟩
  · have absent : target.abi.counter ∉ accumulators := fun member => apart _ member rfl
    rw [Processor.int, Processor.int, others _ absent]
  · intro reg member
    rw [products reg, count_rota accumulators unroll reg distinct member]

structure Looped (before after : target.architecture.isa.State) (more : Nat)
    (trace : target.architecture.isa.Code) : Prop where
  labels : trace.filterMap Cell.label? = List.replicate (more + 1) head
  multiplies : trace.filter target.architecture.isa.isMultiplyCell =
    (List.replicate (more + 1) (bodyCells target accumulators unroll)).flatten
  products : ∀ reg ∈ accumulators, after.int reg =
    before.int reg * product unroll more (before.int target.abi.counter)
  others : ∀ reg, reg ∉ accumulators → reg ≠ target.abi.counter →
    after.registers reg = before.registers reg
  memory : after.memory = before.memory

structure Repeated (before after : target.architecture.isa.State)
    (trace : target.architecture.isa.Code) : Prop where
  labels : trace.filterMap Cell.label? = [head]
  multiplies : trace.filter target.architecture.isa.isMultiplyCell =
    bodyCells target accumulators unroll
  counter : after.int target.abi.counter =
    before.int target.abi.counter - BitVec.ofNat 32 unroll
  products : ∀ reg ∈ accumulators, after.int reg =
    before.int reg * power (before.int target.abi.counter) unroll
  others : ∀ reg, reg ∉ accumulators → reg ≠ target.abi.counter →
    after.registers reg = before.registers reg
  memory : after.memory = before.memory

variable {target accumulators unroll head} in
theorem Looped.cons {before middle after : target.architecture.isa.State} {more : Nat}
    {front back : target.architecture.isa.Code}
    (repeated : Repeated target accumulators unroll head before middle front)
    (looped : Looped target accumulators unroll head middle after more back) :
    Looped target accumulators unroll head before after (more + 1) (front ++ back) := by
  constructor
  case labels =>
    rw [List.filterMap_append, repeated.labels, looped.labels]
    rfl
  case multiplies =>
    rw [List.filter_append, repeated.multiplies, looped.multiplies]
    rfl
  case products =>
    intro reg member
    rw [looped.products reg member, repeated.products reg member, repeated.counter, product,
      BitVec.mul_assoc]
  case others =>
    intro reg absent other
    rw [looped.others reg absent other, repeated.others reg absent other]
  case memory => exact looped.memory.trans repeated.memory

variable (spelt : Target.LabelFits head) (positive : 1 ≤ unroll)
  (encoded : unroll ≤ target.maxDecrement)
  (found : target.architecture.isa.seek head program =
    some (loopCode target accumulators unroll head rest))

section rounds

include writable counted apart distinct spelt encoded

theorem round_ends (state : target.architecture.isa.State)
    (spent : (state.int target.abi.counter).toInt ≤ 0) :
    ∃ trace after, target.architecture.isa.Reaches program
        (.within (loopCode target accumulators unroll head rest) state) trace
        (.within rest after) ∧
      Looped target accumulators unroll head state after 0 trace := by
  have still := branch_quiet target unroll head counted spelt encoded
  obtain ⟨middle, round, turned⟩ := round_reaches target accumulators unroll head program rest
    writable counted apart distinct state
  rw [← turned.counter] at spent
  obtain ⟨tail, after, branch, within, memory, others⟩ :=
    loopBranch_ends target program rest middle head target.abi.counter counted unroll spent
  have quiet : target.architecture.isa.Quiet tail := fun passed member =>
    still passed (within passed member)
  refine ⟨_, after, round.trans branch, ?_, ?_, ?_, ?_, memory.trans turned.memory⟩
  · rw [round_labels, quiet.labels]
    rfl
  · rw [round_multiplies target accumulators unroll head writable counted, quiet.multiplies]
    simp
  · intro reg member
    rw [Processor.int, others reg (apart reg member)]
    exact turned.products reg member
  · intro reg absent other
    rw [others reg other, turned.others reg absent]

include found in
theorem round_repeats (state : target.architecture.isa.State)
    (going : 0 < (state.int target.abi.counter).toInt) :
    ∃ trace after, target.architecture.isa.Reaches program
        (.within (loopCode target accumulators unroll head rest) state) trace
        (.within (loopCode target accumulators unroll head rest) after) ∧
      Repeated target accumulators unroll head state after trace := by
  have wide := target.architecture.isa.wide
  have still := branch_quiet target unroll head counted spelt encoded
  obtain ⟨middle, round, turned⟩ := round_reaches target accumulators unroll head program rest
    writable counted apart distinct state
  rw [← turned.counter] at going
  obtain ⟨flags, branch⟩ := loopBranch_repeats target program rest _ middle head found
    target.abi.counter counted unroll going
  let next : target.architecture.isa.State :=
    { middle.setInt target.abi.counter
        (middle.int target.abi.counter - BitVec.ofNat 32 unroll) with flags := flags }
  change target.architecture.isa.Reaches program (.within (branchCells target unroll head ++ rest)
    middle) (branchCells target unroll head) (.within _ next) at branch
  have spared (reg : Reg) (other : reg ≠ target.abi.counter) :
      next.registers reg = middle.registers reg := if_neg other
  refine ⟨_, next, round.trans branch, ?_, ?_, ?_, ?_, ?_, turned.memory⟩
  · rw [round_labels, still.labels]
  · rw [round_multiplies target accumulators unroll head writable counted, still.multiplies,
      List.append_nil]
  · rw [← turned.counter]
    exact (Processor.setInt_int wide middle _ _ _).trans (if_pos rfl)
  · intro reg member
    rw [← turned.products reg member, Processor.int, Processor.int, spared reg (apart reg member)]
  · intro reg absent other
    rw [spared reg other, turned.others reg absent]

end rounds

include writable counted apart distinct spelt positive encoded found in
/-- The loop is repeated as often as its counter can be lowered while it is positive. -/
theorem loop_reaches (more : Nat) (state : target.architecture.isa.State)
    (left : trips unroll (state.int target.abi.counter) = more) :
    ∃ trace after, target.architecture.isa.Reaches program
        (.within (loopCode target accumulators unroll head rest) state) trace
        (.within rest after) ∧
      Looped target accumulators unroll head state after more trace := by
  have small : unroll ≤ 32768 := by
    obtain ⟨_ | _, abi⟩ := target
    · exact encoded
    · exact Nat.le_trans encoded (show 4095 ≤ 32768 by decide)
  -- induction on the rounds to come, which the counter of the state determines
  induction more generalizing state with
  | zero =>
      have spent : (state.int target.abi.counter).toInt ≤ 0 := by
        apply Int.not_lt.mp
        intro going
        rw [trips_going unroll _ positive small going] at left
        cases left
      exact round_ends target accumulators unroll head program rest writable counted apart distinct
        spelt encoded state spent
  | succ more ih =>
      have going : 0 < (state.int target.abi.counter).toInt := by
        apply Int.not_le.mp
        intro spent
        rw [trips_over unroll _ positive spent] at left
        cases left
      rw [trips_going unroll _ positive small going, Nat.succ.injEq] at left
      obtain ⟨front, middle, round, repeated⟩ := round_repeats target accumulators unroll head
        program rest writable counted apart distinct spelt encoded found state going
      obtain ⟨back, after, later, looped⟩ := ih middle (by rw [repeated.counter]; exact left)
      exact ⟨_, after, round.trans later, Looped.cons repeated looped⟩

end looping

section starting

variable (architecture : Architecture) (pool : List Reg) (state : architecture.isa.State)

/-- The argument is copied into the counter, and into the result if it is not there. -/
theorem copies_pass :
    ∃ after, architecture.isa.pass
        (([(withPool architecture pool).move architecture.stockAbi.counter
            architecture.stockAbi.argument] ++
          if architecture.stockAbi.result = architecture.stockAbi.argument then [] else
            [(withPool architecture pool).move architecture.stockAbi.result
              architecture.stockAbi.argument]).map (cell architecture)) state = some after ∧
      after.memory = state.memory ∧
      after.int architecture.stockAbi.counter = state.int architecture.stockAbi.argument ∧
      after.int architecture.stockAbi.result = state.int architecture.stockAbi.argument ∧
      ∀ reg, reg ≠ architecture.stockAbi.counter → reg ≠ architecture.stockAbi.result →
        after.registers reg = state.registers reg := by
  have wide := architecture.isa.wide
  have counts := move_runs (withPool architecture pool) state architecture.stockAbi.counter
    architecture.stockAbi.argument architecture.writable_counter architecture.writable_argument
  let counted := state.setInt architecture.stockAbi.counter
    (state.int architecture.stockAbi.argument)
  have roles := architecture.roles_apart
  have still : counted.int architecture.stockAbi.argument =
      state.int architecture.stockAbi.argument := by
    rw [Processor.setInt_int wide, if_neg roles.argument_counter]
  have count : counted.int architecture.stockAbi.counter =
      state.int architecture.stockAbi.argument := by
    rw [Processor.setInt_int wide, if_pos rfl]
  rw [List.singleton_append, Runs.pass_cons counts]
  by_cases shared : architecture.stockAbi.result = architecture.stockAbi.argument
  · rw [if_pos shared]
    refine ⟨counted, rfl, rfl, count, ?_, fun reg other _ => if_neg other⟩
    rw [shared]
    exact still
  · rw [if_neg shared]
    have copies := move_runs (withPool architecture pool) counted architecture.stockAbi.result
      architecture.stockAbi.argument architecture.writable_result architecture.writable_argument
    refine ⟨_, Runs.pass_cons copies [], rfl, ?_, ?_, ?_⟩
    · rw [Processor.setInt_int wide, if_neg roles.result_counter.symm]
      exact count
    · rw [Processor.setInt_int wide, if_pos rfl]
      exact still
    · intro reg other away
      exact (if_neg away).trans (if_neg other)

/-- Registers are numbered from their places in a list. -/
theorem numbers_pass (target : Target) (regs : List Reg) (first : Nat)
    (state : target.architecture.isa.State)
    (writable : ∀ reg ∈ regs, target.architecture.Writable reg) (distinct : regs.Nodup)
    (few : first + regs.length < UInt16.size) :
    ∃ after, target.architecture.isa.pass
        (((regs.zipIdx first).map fun (reg, index) =>
          target.loadSmall reg (UInt16.ofNat (index + 1))).map (cell target.architecture)) state =
        some after ∧
      after.memory = state.memory ∧
      (∀ place reg, regs[place]? = some reg →
        after.int reg = BitVec.ofNat 32 (first + place + 1)) ∧
      ∀ reg, reg ∉ regs → after.registers reg = state.registers reg := by
  have wide := target.architecture.isa.wide
  -- the registers are distinct, so what one of them was given is not overwritten
  induction regs generalizing first state with
  | nil => exact ⟨state, rfl, rfl, by simp, fun _ _ => rfl⟩
  | cons reg rest ih =>
      rw [List.length_cons] at few
      obtain ⟨absent, others⟩ := List.nodup_cons.mp distinct
      have loads := loadSmall_runs target state reg (UInt16.ofNat (first + 1))
        (writable reg List.mem_cons_self)
      rw [UInt16.toNat_ofNat_of_lt' (by omega)] at loads
      let numbered := state.setInt reg (BitVec.ofNat 32 (first + 1))
      obtain ⟨after, passed, memory, ordinals, spared⟩ := ih (first + 1) numbered
        (fun other member => writable other (List.mem_cons_of_mem reg member)) others (by omega)
      refine ⟨after, ?_, memory, ?_, ?_⟩
      · rw [List.zipIdx_cons, List.map_cons, Runs.pass_cons loads]
        exact passed
      · intro place other own
        cases place with
        | zero =>
            cases Option.some.inj own
            rw [Processor.int, spared reg absent]
            apply (Processor.setInt_int wide state reg reg _).trans
            rw [if_pos rfl, Nat.add_zero]
        | succ place =>
            rw [ordinals place other own]
            congr 1
            omega
      · intro other outside
        rw [List.mem_cons, not_or] at outside
        exact (spared other outside.2).trans (if_neg outside.1)

variable (width : Nat)

structure Started (before after : architecture.isa.State) : Prop where
  counter : after.int architecture.stockAbi.counter = before.int architecture.stockAbi.argument
  result : after.int architecture.stockAbi.result = before.int architecture.stockAbi.argument
  ordinals : ∀ place reg, (pool.take width)[place]? = some reg →
    after.int reg = BitVec.ofNat 32 (place + 1)
  others : ∀ reg, reg ≠ architecture.stockAbi.counter → reg ≠ architecture.stockAbi.result →
    reg ∉ pool.take width → after.registers reg = before.registers reg
  memory : after.memory = before.memory

theorem setUp_passes (accepted : architecture.Accepts pool) :
    ∃ after, architecture.isa.pass
        ((setUp (withPool architecture pool) (pool.take width)).map (cell architecture)) state =
        some after ∧ Started architecture pool width state after := by
  have few : 0 + (pool.take width).length < UInt16.size := by
    have short := accepted.few
    rw [List.length_take, show UInt16.size = 65536 from rfl]
    omega
  obtain ⟨copied, copies, kept, counter, result, spared⟩ := copies_pass architecture pool state
  obtain ⟨after, numbers, memory, ordinals, others⟩ := numbers_pass (withPool architecture pool)
    (pool.take width) 0 copied (writable_of_taken architecture pool width accepted)
    (accepted.distinct.sublist (List.take_sublist width pool)) few
  have unnumbered (role : Reg) (fixed : ∀ reg, architecture.IsFree reg → reg ≠ role) :
      after.int role = copied.int role := by
    have absent : role ∉ pool.take width := fun member =>
      fixed role (accepted.free role (List.mem_of_mem_take member)) rfl
    rw [Processor.int, Processor.int, others role absent]
  refine ⟨after, ?_, ?_, ?_, ?_, ?_, memory.trans kept⟩
  · rw [setUp, List.map_append, pass_append, copies]
    exact numbers
  · rw [unnumbered _ fun reg free => free.ne_counter, counter]
  · rw [unnumbered _ fun reg free => free.ne_result, result]
  · intro place reg own
    rw [ordinals place reg own, Nat.zero_add]
  · intro reg away apart absent
    rw [others reg absent, spared reg away apart]

end starting

section returning

structure Completed (architecture : Architecture) (target : Target) (unroll width : Nat)
    (frame : Frame) (before after : architecture.isa.State) : Prop where
  result : after.int target.abi.result = before.int target.abi.argument
  stackPointer : after.registers target.abi.stackPointer = before.registers target.abi.stackPointer
  calleeSaved : ∀ reg ∈ target.abi.calleeSaved, after.registers reg = before.registers reg
  others : ∀ reg, reg ≠ target.abi.counter → reg ≠ target.abi.result →
    reg ∉ target.abi.accumulators.take width → after.registers reg = before.registers reg
  products : ∀ place reg, (target.abi.accumulators.take width)[place]? = some reg →
    target.abi.isCalleeSaved reg = false →
    after.int reg = BitVec.ofNat 32 (place + 1) *
      product unroll (trips unroll (before.int target.abi.argument))
        (before.int target.abi.argument)
  memory : ∀ address : BitVec architecture.isa.width,
    address.toNat + frame.size < (before.registers target.abi.stackPointer).toNat ∨
      (before.registers target.abi.stackPointer).toNat ≤ address.toNat →
    after.memory address = before.memory address

variable {architecture : Architecture} {pool : List Reg} {unroll width : Nat} {frame : Frame}
  {before inner ready final after : architecture.isa.State}

section stages

variable {more : Nat} {trace : architecture.isa.Code} (accepted : architecture.Accepts pool)
  (started : Started architecture pool width inner ready)
  (looped : Looped (withPool architecture pool) (pool.take width) unroll (loopLabel width) ready final
    more trace)

include started looped

theorem loop_spares (reg : Reg) (away : reg ≠ architecture.stockAbi.counter)
    (apart : reg ≠ architecture.stockAbi.result) (absent : reg ∉ pool.take width) :
    final.registers reg = inner.registers reg := by
  rw [looped.others reg absent away, started.others reg away apart absent]

include accepted in
/-- A register with a role is no accumulator. -/
theorem loop_spares_role (role : Reg) (away : role ≠ architecture.stockAbi.counter)
    (apart : role ≠ architecture.stockAbi.result)
    (fixed : role ∈ architecture.stockAbi.fixedRegisters) :
    final.registers role = inner.registers role := by
  apply loop_spares started looped role away apart
  intro member
  exact (accepted.free role (List.mem_of_mem_take member)).2 fixed

variable (sound : frame.Sound architecture)
  (saved : frame.saved = (pool.take width).filter architecture.stockAbi.isCalleeSaved)
  (taken : frame.Taken architecture before inner)
  (released : frame.Released architecture before final after)

include accepted taken released in
/-- A saved register comes back from the slot that the prologue filled. -/
theorem saved_restored (reg : Reg) (member : reg ∈ frame.saved) :
    after.registers reg = before.registers reg := by
  have roles := architecture.roles_apart
  have pointer := loop_spares_role accepted started looped architecture.stockAbi.stackPointer
    roles.counter_stack.symm roles.result_stack.symm (by simp [Abi.fixedRegisters])
  have memory : final.memory = inner.memory := looped.memory.trans started.memory
  rw [← Frame.slot_registers frame] at member
  obtain ⟨slot, found, rfl⟩ := List.mem_map.mp member
  rw [released.restored slot found, memory, slotAddress, pointer]
  exact taken.filled slot found

include saved taken released in
theorem unused_kept (reg : Reg) (away : reg ≠ architecture.stockAbi.counter)
    (apart : reg ≠ architecture.stockAbi.result) (absent : reg ∉ pool.take width) :
    after.registers reg = before.registers reg := by
  by_cases pointing : reg = architecture.stockAbi.stackPointer
  · rw [pointing]
    exact released.raised
  · have unsaved : reg ∉ frame.saved := by
      rw [saved]
      exact fun member => absent (List.mem_filter.mp member).1
    rw [released.others reg pointing unsaved, loop_spares started looped reg away apart absent,
      taken.others reg pointing]

include accepted sound saved taken released in
/-- The frame is taken, the loop is prepared and run, and the frame is given back. -/
theorem completed_of_stages (entered : ready.int architecture.stockAbi.counter =
      before.int architecture.stockAbi.argument)
    (counted : trips unroll (before.int architecture.stockAbi.argument) = more) :
    Completed architecture (withPool architecture pool) unroll width frame before after := by
  have roles := architecture.roles_apart
  have free (reg : Reg) (member : reg ∈ pool.take width) : architecture.IsFree reg :=
    accepted.free reg (List.mem_of_mem_take member)
  constructor
  case result =>
    have absent : architecture.stockAbi.result ∉ pool.take width :=
      fun member => (free _ member).ne_result rfl
    have unsaved : architecture.stockAbi.result ∉ frame.saved :=
      fun member => (sound.free _ member).ne_result rfl
    rw [Processor.int, released.others _ roles.result_stack unsaved,
      looped.others _ absent roles.result_counter]
    exact started.result.trans (started.counter.symm.trans entered)
  case stackPointer => exact released.raised
  case calleeSaved =>
    -- an accumulator among them is saved and restored, any other is never written
    intro reg member
    have apart : ∀ kept ∈ architecture.stockAbi.calleeSaved,
        kept ≠ architecture.stockAbi.counter ∧ kept ≠ architecture.stockAbi.result := by
      cases architecture <;> decide
    by_cases used : reg ∈ pool.take width
    · apply saved_restored accepted started looped taken released reg
      rw [saved]
      exact List.mem_filter.mpr ⟨used, by simpa [Abi.isCalleeSaved] using member⟩
    · exact unused_kept started looped saved taken released reg (apart reg member).1
        (apart reg member).2 used
  case others => exact unused_kept started looped saved taken released
  case products =>
    intro place reg own unsaved
    have used := List.mem_of_getElem? own
    have absent : reg ∉ frame.saved := by
      rw [saved]
      intro member
      have callee : architecture.stockAbi.isCalleeSaved reg = true := (List.mem_filter.mp member).2
      rw [show architecture.stockAbi.isCalleeSaved reg = false from unsaved] at callee
      cases callee
    rw [Processor.int, released.others reg (free reg used).ne_stackPointer absent]
    apply (looped.products reg used).trans
    rw [started.ordinals place reg own, counted]
    congr 2
  case memory =>
    intro address outside
    rw [released.memory, looped.memory.trans started.memory]
    exact taken.spared address outside

end stages

theorem preamble_passes (accepted : architecture.Accepts pool) {prologue : List Statement}
    (opens : frame.Opens architecture prologue) (width : Nat) (name : String)
    (room : frame.Room architecture before) :
    ∃ inner ready, architecture.isa.pass (preamble architecture pool width name prologue) before =
        some ready ∧
      frame.Taken architecture before inner ∧ Started architecture pool width inner ready := by
  obtain ⟨inner, takes, taken⟩ := opens.takes before room
  obtain ⟨ready, starts, started⟩ := setUp_passes architecture pool inner width accepted
  refine ⟨inner, ready, ?_, taken, started⟩
  rw [preamble, pass_label, List.map_append, pass_append, takes]
  exact starts

end returning

section calls

theorem laid_returns {architecture : Architecture} {pool : List Reg} {unroll width : Nat}
    {start : String} {routine : Routine} {frame : Frame} {prologue : List Statement}
    {front back : architecture.isa.Code}
    (laid : Laid architecture pool unroll width start routine frame prologue front back)
    (accepted : architecture.Accepts pool) (apart : ¬ ".Lilp".toList <+: start.toList)
    (positive : 1 ≤ unroll) (encoded : unroll ≤ (withPool architecture pool).maxDecrement)
    (before : architecture.isa.State) (room : frame.Room architecture before) :
    ∃ trace after, architecture.isa.Reaches
        (front ++ entryCode architecture pool unroll width routine.name frame prologue back)
        (.within (entryCode architecture pool unroll width routine.name frame prologue back) before)
        trace (.returned (before.registers architecture.stockAbi.returnAddress) after) ∧
      trace.filterMap Cell.label? = routine.name ::
        List.replicate (rounds unroll (before.int architecture.stockAbi.argument)) (loopLabel width) ∧
      trace.filter architecture.isa.isMultiplyCell =
        (List.replicate (rounds unroll (before.int architecture.stockAbi.argument))
          (bodyCells (withPool architecture pool) (pool.take width) unroll)).flatten ∧
      Completed architecture (withPool architecture pool) unroll width frame before after := by
  -- the entry, the loop and the return one after the other, from any state with room for the frame
  have roles := architecture.roles_apart
  obtain ⟨inner, ready, prepared, taken, started⟩ :=
    preamble_passes accepted laid.opens width routine.name room
  have entered : ready.int architecture.stockAbi.counter =
      before.int architecture.stockAbi.argument := by
    apply started.counter.trans
    rw [Processor.int, Processor.int, taken.others _ roles.argument_stack]
  obtain ⟨trace, final, loops, looped⟩ := loop_reaches (withPool architecture pool) _ unroll
    (loopLabel width) _ _ (writable_of_taken architecture pool width accepted)
    architecture.writable_counter (apart_of_taken architecture pool width accepted)
    (accepted.distinct.sublist (List.take_sublist width pool)) (loopLabel_fits width) positive encoded
    (head_found laid accepted apart) _ ready rfl
  have pointer := loop_spares_role accepted started looped architecture.stockAbi.stackPointer
    roles.counter_stack.symm roles.result_stack.symm (by simp [Abi.fixedRegisters])
  have link := loop_spares_role accepted started looped architecture.stockAbi.returnAddress
    roles.counter_link.symm roles.result_link.symm (by simp [Abi.fixedRegisters])
  obtain ⟨after, returns, released⟩ := Frame.epilogue_returns pool laid.sound _ back before final room
    (pointer.trans taken.lowered)
  rw [link, taken.others _ roles.stack_link.symm] at returns
  have ends := plain_quiet architecture _ (Frame.epilogue_fits pool laid.sound)
    (Frame.epilogue_plain (withPool architecture pool))
  have begins := preamble_quiet architecture pool width accepted laid.opens
  refine ⟨_, after, ((reaches_of_pass _ _ _ before ready prepared).trans loops).trans returns, ?_, ?_,
    ?_⟩
  · rw [List.filterMap_append, List.filterMap_append, ends.labels, looped.labels, preamble,
      labels_cons, begins.labels, rounds, ← entered, Nat.add_comm 1]
    simp
  · rw [List.filter_append, List.filter_append, ends.multiplies, looped.multiplies, preamble,
      multiplies_cons, begins.multiplies, rounds, ← entered, Nat.add_comm 1]
    simp
  · exact completed_of_stages accepted started looped laid.sound laid.saved taken released entered
      (by rw [← entered])

variable (architecture : Architecture) (pool : Option (List Reg)) (target : Target)
  (maxWidth unroll width : Nat) (start : String) (family : MultiplyFamily)
  (built : Target.build architecture pool = .ok target)
  (created : create target maxWidth unroll start = .ok family)
  (shaped : Shape.error? ⟨width, unroll⟩ target = none)
  (unbroken : ∀ c ∈ start.toList, Text.isBlank c = false)
  (apart : ¬ ".Lilp".toList <+: start.toList)

include built created shaped unbroken apart in
/-- A call of a multiply function comes back, whatever the registers and the memory hold. -/
theorem function_returns : ∃ routine frame program entry,
    family.routine width = .ok routine ∧
    Frame.ofRegisters? target.abi (target.abi.accumulators.take width) = some frame ∧
    architecture.isa.assemble routine.lines = some program ∧
    architecture.isa.seek routine.name program = some entry ∧
    ∀ before : architecture.isa.State,
      (before.registers target.abi.stackPointer).toNat % target.abi.stackAlign.toNat = 0 →
      frame.size ≤ (before.registers target.abi.stackPointer).toNat →
      ∃ trace after, architecture.isa.Reaches program (.within entry before) trace
          (.returned (before.registers target.abi.returnAddress) after) ∧
        trace.filterMap Cell.label? = routine.name ::
          List.replicate (rounds unroll (before.int target.abi.argument)) (loopLabel width) ∧
        trace.filter architecture.isa.isMultiplyCell =
          (List.replicate (rounds unroll (before.int target.abi.argument))
            ((body target (target.abi.accumulators.take width) unroll).map
              (cell architecture))).flatten ∧
        Completed architecture target unroll width frame before after := by
  obtain ⟨same, accepted⟩ := build_withPool architecture pool target built
  generalize pool.getD architecture.stockAbi.accumulators = regs at same accepted
  subst same
  cases of_create created
  obtain ⟨frame, prologue, routine, front, back, made, laid⟩ := routine_laid architecture regs maxWidth
    unroll width start accepted shaped unbroken apart
  obtain ⟨⟨positive, encoded⟩, _⟩ := shape_bounds shaped
  refine ⟨routine, frame, _, _, made, laid.framed, laid.assembled, entry_found laid, ?_⟩
  intro before aligned enough
  exact laid_returns laid accepted apart positive encoded before ⟨aligned, enough⟩

theorem function_returns_seven :
    let before : AArch64.State :=
      ⟨fun reg => if reg = AArch64.stackPointer then 4096 else 7, fun _ => 0,
        ⟨false, false, false, false⟩⟩
    ∃ routine program entry trace after,
      (⟨withPool .aarch64 [20, 10], 2, 3, "func"⟩ : MultiplyFamily).routine 2 = .ok routine ∧
      AArch64.instructionSet.assemble routine.lines = some program ∧
      AArch64.instructionSet.Reaches program (.within entry before) trace (.returned 7 after) ∧
      trace.filterMap Cell.label? = routine.name :: List.replicate 4 (loopLabel 2) ∧
      after.int 0 = 7 := by
  intro before
  obtain ⟨routine, frame, program, entry, made, framed, assembled, _, called⟩ :=
    function_returns .aarch64 (some [20, 10]) (withPool .aarch64 [20, 10]) 2 3 2 "func" _
      rfl rfl rfl (by simp [Text.isBlank]) (by decide)
  have enough : frame.size ≤ (before.registers AArch64.stackPointer).toNat := by
    cases framed
    decide
  obtain ⟨trace, after, returns, labels, _, completed⟩ := called before (by decide) enough
  have four : rounds 3 (before.int 0) = 4 := by decide
  change trace.filterMap Cell.label? =
    routine.name :: List.replicate (rounds 3 (before.int 0)) (loopLabel 2) at labels
  rw [four] at labels
  exact ⟨routine, program, entry, trace, after, made, assembled, returns, labels, completed.result⟩

end calls

end Microbench.MultiplyFamily
