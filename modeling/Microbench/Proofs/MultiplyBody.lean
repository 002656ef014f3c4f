import Microbench.MultiplyFamily
import Microbench.Proofs.Frames
import Microbench.Proofs.Labels
/-!
The loop bodies of multiply functions.

A body is one multiply for every accumulator in turn, again and again. Each writes its own
accumulator and reads nothing but that and the counter, and the accumulators are distinct
and have no role in the convention. So no two multiplies of different accumulators interfere,
and the body does the same in any order.
-/
namespace Microbench.MultiplyFamily
open Statement Target InstructionSet

section accepted

theorem of_create {target : Target} {maxWidth unroll : Nat} {start : String}
    {family : MultiplyFamily} (created : create target maxWidth unroll start = .ok family) :
    family = ⟨target, maxWidth, unroll, start⟩ := by
  unfold create at created
  split at created
  · cases created
  · exact (Except.ok.inj created).symm

theorem shape_of_create {target : Target} {maxWidth unroll : Nat} {start : String}
    {family : MultiplyFamily} (created : create target maxWidth unroll start = .ok family) :
    Shape.error? ⟨maxWidth, unroll⟩ target = none := by
  unfold create at created
  split at created
  · cases created
  · assumption

theorem shape_bounds {target : Target} {width unroll : Nat}
    (accepted : Shape.error? ⟨width, unroll⟩ target = none) :
    (1 ≤ unroll ∧ unroll ≤ target.maxDecrement) ∧
      (1 ≤ width ∧ width ≤ target.abi.accumulators.length) := by
  simp only [Shape.error?] at accepted
  split at accepted
  · cases accepted
  · next unrolled =>
      split at accepted
      · cases accepted
      · next wide =>
          simp only [Bool.or_eq_true, decide_eq_true_eq, not_or, Nat.not_lt] at unrolled wide
          exact ⟨unrolled, wide⟩

/-- The widths below an accepted one are accepted too. -/
theorem shape_narrower {target : Target} {maxWidth unroll width : Nat}
    (accepted : Shape.error? ⟨maxWidth, unroll⟩ target = none) (least : 1 ≤ width)
    (narrower : width ≤ maxWidth) : Shape.error? ⟨width, unroll⟩ target = none := by
  obtain ⟨⟨unrolled, encoded⟩, _, wide⟩ := shape_bounds accepted
  have bound : width ≤ target.abi.maxWidth := Nat.le_trans narrower wide
  simp [Shape.error?, Nat.not_lt.mpr unrolled, Nat.not_lt.mpr encoded, Nat.not_lt.mpr least,
    Nat.not_lt.mpr bound]

theorem shape_of_check {target : Target} {width unroll : Nat} {shape : Shape}
    (accepted : Shape.check width unroll target = .ok shape) :
    Shape.error? ⟨width, unroll⟩ target = none := by
  unfold Shape.check at accepted
  split at accepted
  · cases accepted
  · assumption

end accepted

section turns

def rota (accumulators : List Reg) (unroll : Nat) : List Reg :=
  (List.replicate unroll accumulators).flatten

theorem body_rota (target : Target) (accumulators : List Reg) (unroll : Nat) :
    body target accumulators unroll = (rota accumulators unroll).map fun reg =>
      target.multiply reg reg target.abi.counter := by
  rw [body, rota, List.map_flatten, List.map_replicate]
  rfl

theorem mem_rota (accumulators : List Reg) (unroll : Nat) (reg : Reg)
    (member : reg ∈ rota accumulators unroll) : reg ∈ accumulators := by
  obtain ⟨part, copied, found⟩ := List.mem_flatten.mp member
  rw [(List.mem_replicate.mp copied).2] at found
  exact found

theorem rota_length (accumulators : List Reg) (unroll : Nat) :
    (rota accumulators unroll).length = unroll * accumulators.length := by
  simp [rota, List.length_flatten]

theorem rota_getElem (accumulators : List Reg) (unroll place : Nat)
    (bound : place < unroll * accumulators.length) :
    (rota accumulators unroll)[place]? = accumulators[place % accumulators.length]? := by
  induction unroll generalizing place with
  | zero => omega
  | succ unroll ih =>
      have parted : rota accumulators (unroll + 1) = accumulators ++ rota accumulators unroll := rfl
      rw [parted]
      by_cases first : place < accumulators.length
      · rw [List.getElem?_append_left first, Nat.mod_eq_of_lt first]
      · have behind := Nat.le_of_not_lt first
        rw [Nat.succ_mul] at bound
        rw [List.getElem?_append_right behind, ih _ (by omega), ← Nat.mod_eq_sub_mod behind]

theorem count_rota (accumulators : List Reg) (unroll : Nat) (reg : Reg)
    (distinct : accumulators.Nodup) (member : reg ∈ accumulators) :
    (rota accumulators unroll).count reg = unroll := by
  induction unroll with
  | zero => rfl
  | succ unroll ih =>
      have parted : rota accumulators (unroll + 1) = accumulators ++ rota accumulators unroll := rfl
      rw [parted, List.count_append, ih, distinct.count, if_pos member, Nat.add_comm]

end turns

section interleaving

structure RoundRobin (isa : InstructionSet) (accumulators : List Reg) (counter : Reg)
    (unroll : Nat) (body : isa.Code) : Prop where
  length : body.length = unroll * accumulators.length
  turn : ∀ place, place < body.length → ∃ accumulator instruction,
    accumulators[place % accumulators.length]? = some accumulator ∧
    body[place]? = some (.instruction instruction) ∧
    isa.isMultiply instruction = true ∧ isa.writes instruction = [accumulator] ∧
    isa.reads instruction = [accumulator, counter] ∧
    ∀ state : isa.State, isa.execute instruction state =
      some (state.setInt accumulator (state.int accumulator * state.int counter), .next)
  evenly : ∀ accumulator ∈ accumulators, body.countP (isa.writesTo accumulator) = unroll
  anyOrder : ∀ state, ∃ after, isa.pass body state = some after ∧
    ∀ order, order.Perm body → isa.pass order state = some after

variable (target : Target) (accumulators : List Reg)
  (writable : ∀ reg ∈ accumulators, target.architecture.Writable reg)
  (counted : target.architecture.Writable target.abi.counter)
  (apart : ∀ reg ∈ accumulators, reg ≠ target.abi.counter)

def advance (reg : Reg) : Cell target.architecture.isa.Instruction :=
  (target.multiply reg reg target.abi.counter).cell target.architecture

include writable counted in
theorem advance_pass (reg : Reg) (member : reg ∈ accumulators) (rest : target.architecture.isa.Code)
    (state : target.architecture.isa.State) :
    target.architecture.isa.pass (advance target reg :: rest) state =
      target.architecture.isa.pass rest
        (state.setInt reg (state.int reg * state.int target.abi.counter)) := by
  obtain ⟨instruction, written, _, _, _, effect⟩ := multiply_instruction target reg reg
    target.abi.counter (writable reg member) (writable reg member) counted
  rw [advance, written]
  exact pass_instruction instruction rest state _ (effect state)

include writable counted apart in
theorem advance_comm (first second : Reg) (left : first ∈ accumulators)
    (right : second ∈ accumulators) (state : target.architecture.isa.State) :
    target.architecture.isa.pass [advance target first, advance target second] state =
      target.architecture.isa.pass [advance target second, advance target first] state := by
  -- each of two multiplies reads what the other leaves alone
  have wide := target.architecture.isa.wide
  by_cases same : first = second
  · rw [same]
  · have spared (one reg : Reg) (kept : reg ≠ one) :
        (state.setInt one (state.int one * state.int target.abi.counter)).int reg =
          state.int reg := by
      rw [Processor.setInt_int wide, if_neg kept]
    rw [advance_pass target accumulators writable counted first left,
      advance_pass target accumulators writable counted second right,
      advance_pass target accumulators writable counted second right,
      advance_pass target accumulators writable counted first left]
    rw [spared first second (Ne.symm same), spared second first same,
      spared first _ (apart first left).symm, spared second _ (apart second right).symm]
    exact congrArg (target.architecture.isa.pass []) (Processor.set_comm state first second _ _ same)

def power (factor : BitVec 32) : Nat → BitVec 32
  | 0 => 1
  | count + 1 => factor * power factor count

include writable counted apart in
/-- Each multiply takes the counter once more into one accumulator. -/
theorem advances_pass (regs : List Reg) (within : ∀ reg ∈ regs, reg ∈ accumulators)
    (state : target.architecture.isa.State) :
    ∃ after, target.architecture.isa.pass (regs.map (advance target)) state = some after ∧
      after.memory = state.memory ∧
      (∀ reg, reg ∉ regs → after.registers reg = state.registers reg) ∧
      ∀ reg, after.int reg =
        state.int reg * power (state.int target.abi.counter) (regs.count reg) := by
  have wide := target.architecture.isa.wide
  -- the counter is no accumulator, so every multiply meets the same one
  induction regs generalizing state with
  | nil => exact ⟨state, rfl, rfl, fun _ _ => rfl, fun reg => (BitVec.mul_one _).symm⟩
  | cons first rest ih =>
      have member := within first List.mem_cons_self
      let middle := state.setInt first (state.int first * state.int target.abi.counter)
      obtain ⟨after, passed, memory, spared, products⟩ :=
        ih (fun reg later => within reg (List.mem_cons_of_mem first later)) middle
      refine ⟨after, ?_, memory, ?_, ?_⟩
      · rw [List.map_cons, advance_pass target accumulators writable counted first member]
        exact passed
      · intro reg absent
        rw [List.mem_cons, not_or] at absent
        exact (spared reg absent.2).trans (if_neg absent.1)
      · intro reg
        have counter : middle.int target.abi.counter = state.int target.abi.counter := by
          rw [Processor.setInt_int wide, if_neg (apart first member).symm]
        rw [products reg, counter, Processor.setInt_int wide]
        by_cases same : reg = first
        · rw [same, if_pos rfl, List.count_cons_self, power, BitVec.mul_assoc]
        · rw [if_neg same, List.count_cons_of_ne (Ne.symm same)]

end interleaving

section body

variable (target : Target) (accumulators : List Reg) (unroll : Nat)

def bodyCells : target.architecture.isa.Code :=
  (body target accumulators unroll).map (cell target.architecture)

theorem bodyCells_rota : bodyCells target accumulators unroll =
    (rota accumulators unroll).map (advance target) := by
  rw [bodyCells, body_rota, List.map_map]
  rfl

variable (writable : ∀ reg ∈ accumulators, target.architecture.Writable reg)
  (counted : target.architecture.Writable target.abi.counter)
  (apart : ∀ reg ∈ accumulators, reg ≠ target.abi.counter) (distinct : accumulators.Nodup)

include writable counted in
theorem body_turn (place : Nat) (bound : place < (bodyCells target accumulators unroll).length) :
    ∃ accumulator instruction, accumulators[place % accumulators.length]? = some accumulator ∧
      (bodyCells target accumulators unroll)[place]? = some (.instruction instruction) ∧
      target.architecture.isa.isMultiply instruction = true ∧
      target.architecture.isa.writes instruction = [accumulator] ∧
      target.architecture.isa.reads instruction = [accumulator, target.abi.counter] ∧
      ∀ state : target.architecture.isa.State, target.architecture.isa.execute instruction state =
        some (state.setInt accumulator (state.int accumulator * state.int target.abi.counter),
          .next) := by
  rw [bodyCells_rota, List.length_map, rota_length] at bound
  have present : 0 < accumulators.length := Nat.pos_of_ne_zero fun none => by simp [none] at bound
  obtain ⟨accumulator, own⟩ : ∃ accumulator,
      accumulators[place % accumulators.length]? = some accumulator :=
    ⟨_, List.getElem?_eq_getElem (Nat.mod_lt place present)⟩
  have member := List.mem_of_getElem? own
  obtain ⟨instruction, written, multiplies, writes, reads, effect⟩ :=
    multiply_instruction target accumulator accumulator target.abi.counter
      (writable _ member) (writable _ member) counted
  refine ⟨accumulator, instruction, own, ?_, multiplies, writes, reads, effect⟩
  rw [bodyCells_rota, List.getElem?_map, rota_getElem _ _ _ bound, own, ← written]
  rfl

include writable counted distinct in
theorem body_evenly (accumulator : Reg) (member : accumulator ∈ accumulators) :
    (bodyCells target accumulators unroll).countP (target.architecture.isa.writesTo accumulator) =
      unroll := by
  have own (reg : Reg) (found : reg ∈ rota accumulators unroll) :
      target.architecture.isa.writesTo accumulator (advance target reg) =
        decide (reg = accumulator) := by
    have inside := writable _ (mem_rota _ _ _ found)
    obtain ⟨instruction, written, _, writes, _, _⟩ := multiply_instruction target reg reg
      target.abi.counter inside inside counted
    rw [advance, written]
    simp [writesTo, writes, eq_comm]
  have often := count_rota accumulators unroll accumulator distinct member
  rw [bodyCells_rota, List.countP_map]
  refine Eq.trans (List.countP_congr ?_) often
  intro reg found
  rw [Function.comp_apply, own reg found, decide_eq_true_eq, beq_iff_eq]

include writable counted apart in
theorem body_anyOrder (state : target.architecture.isa.State) :
    ∃ after, target.architecture.isa.pass (bodyCells target accumulators unroll) state = some after ∧
      ∀ order, order.Perm (bodyCells target accumulators unroll) →
        target.architecture.isa.pass order state = some after := by
  -- multiplies of one accumulator are equal, and those of two do not interfere
  obtain ⟨after, passed, _⟩ := advances_pass target accumulators writable counted apart
    (rota accumulators unroll) (mem_rota accumulators unroll) state
  rw [← bodyCells_rota] at passed
  refine ⟨after, passed, ?_⟩
  intro order moved
  rw [← passed]
  apply pass_perm moved
  have found : ∀ passed ∈ order, ∃ reg ∈ accumulators, advance target reg = passed := by
    intro passed member
    have inside := moved.mem_iff.mp member
    rw [bodyCells_rota] at inside
    obtain ⟨reg, turn, rfl⟩ := List.mem_map.mp inside
    exact ⟨reg, mem_rota _ _ _ turn, rfl⟩
  intro first left second right
  obtain ⟨one, inside, rfl⟩ := found first left
  obtain ⟨other, within, rfl⟩ := found second right
  exact advance_comm target accumulators writable counted apart one other inside within

include writable counted apart distinct in
theorem body_roundRobin : RoundRobin target.architecture.isa accumulators target.abi.counter unroll
    (bodyCells target accumulators unroll) := by
  constructor
  · rw [bodyCells_rota, List.length_map, rota_length]
  · exact body_turn target accumulators unroll writable counted
  · exact body_evenly target accumulators unroll writable counted distinct
  · exact body_anyOrder target accumulators unroll writable counted apart

end body

end Microbench.MultiplyFamily
