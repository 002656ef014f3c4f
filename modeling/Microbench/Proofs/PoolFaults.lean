import Mathlib.Algebra.Group.Nat.Defs
import Microbench.Proofs.BuiltTarget
/-!
What the check of a convention accepts, and what it blames.

A pool is usable if every register of it exists, stands in it once and has no role of its own.
The check goes over the pool from the front, so the fault it gives is that of the first register
that is wrong, and the stack layout is blamed only when no register is. For the two stock
conventions the registers without a role are written out: there a pool is accepted exactly if
it is a choice of these in some order.
-/
namespace Microbench

theorem isPowerOfTwo_iff (n : Nat) : isPowerOfTwo n = true ↔ ∃ exponent, n = 2 ^ exponent := by
  rw [isPowerOfTwo, beq_iff_eq, Nat.one_shiftLeft]
  constructor
  · intro power
    exact ⟨n.log2, power.symm⟩
  · rintro ⟨exponent, rfl⟩
    rw [Nat.log2_two_pow]

namespace Abi

structure Unoccupied (abi : Abi) (reg : Reg) : Prop where
  argument : reg ≠ abi.argument
  result : reg ≠ abi.result
  counter : reg ≠ abi.counter
  stackPointer : reg ≠ abi.stackPointer
  returnAddress : reg ≠ abi.returnAddress
  reserved : reg ∉ abi.reserved

structure Usable (abi : Abi) : Prop where
  present : abi.accumulators ≠ []
  numbered : ∀ reg ∈ abi.accumulators, reg.number.val < abi.registerCount.toNat
  distinct : abi.accumulators.Pairwise (· ≠ ·)
  unoccupied : ∀ reg ∈ abi.accumulators, abi.Unoccupied reg
  slotted : abi.slotSize ≠ 0
  aligned : ∃ exponent, abi.stackAlign.toNat = 2 ^ exponent

/-- What is wrong with a register that stands behind others in a pool. One that does not exist
is never called repeated, and a repeated one never fixed. -/
inductive Wrong (abi : Abi) (front : List Reg) (reg : Reg) : PoolFault → Prop where
  | missing (beyond : abi.registerCount.toNat ≤ reg.number.val) :
      Wrong abi front reg (.missing reg abi.registerCount)
  | repeated (below : reg.number.val < abi.registerCount.toNat) (again : reg ∈ front) :
      Wrong abi front reg (.repeated reg)
  | fixed (below : reg.number.val < abi.registerCount.toNat) (fresh : reg ∉ front)
      (occupied : ¬ abi.Unoccupied reg) : Wrong abi front reg (.fixed reg)

def WrongAt (abi : Abi) (pool : List Reg) (place : Nat) (fault : PoolFault) : Prop :=
  ∃ reg, pool[place]? = some reg ∧ abi.Wrong (pool.take place) reg fault

structure FirstWrong (abi : Abi) (pool : List Reg) (place : Nat) (fault : PoolFault) : Prop where
  wrong : abi.WrongAt pool place fault
  least : ∀ earlier other, earlier < place → ¬ abi.WrongAt pool earlier other

inductive Blames (abi : Abi) : PoolFault → Prop where
  | empty (absent : abi.accumulators = []) : Blames abi .empty
  | register (place : Nat) (fault : PoolFault)
      (first : abi.FirstWrong abi.accumulators place fault) : Blames abi fault
  | layout (present : abi.accumulators ≠ [])
      (fits : ∀ place fault, ¬ abi.WrongAt abi.accumulators place fault)
      (bad : abi.slotSize = 0 ∨ ¬ ∃ exponent, abi.stackAlign.toNat = 2 ^ exponent) :
      Blames abi (.stackLayout abi.slotSize abi.stackAlign)

section roles

theorem unoccupied_iff (abi : Abi) (reg : Reg) : abi.Unoccupied reg ↔ reg ∉ abi.fixedRegisters := by
  simp only [fixedRegisters, List.cons_append, List.nil_append, List.mem_cons, not_or]
  constructor
  · rintro ⟨argument, result, counter, stack, link, reserved⟩
    exact ⟨argument, result, counter, stack, link, reserved⟩
  · rintro ⟨argument, result, counter, stack, link, reserved⟩
    exact ⟨argument, result, counter, stack, link, reserved⟩

theorem sound_iff_usable (abi : Abi) : abi.Sound ↔ abi.Usable := by
  constructor
  · intro sound
    exact ⟨sound.present, sound.numbered, sound.distinct,
      fun reg member => (abi.unoccupied_iff reg).mpr (sound.free reg member), sound.slotted,
      (isPowerOfTwo_iff _).mp sound.aligned⟩
  · intro usable
    exact ⟨usable.present, usable.distinct, usable.numbered,
      fun reg member => (abi.unoccupied_iff reg).mp (usable.unoccupied reg member), usable.slotted,
      (isPowerOfTwo_iff _).mpr usable.aligned⟩

theorem layoutFault_some_iff (abi : Abi) (fault : PoolFault) : abi.layoutFault? = some fault ↔
    (abi.slotSize = 0 ∨ ¬ ∃ exponent, abi.stackAlign.toNat = 2 ^ exponent) ∧
      fault = .stackLayout abi.slotSize abi.stackAlign := by
  have tested : (abi.slotSize = 0 || !isPowerOfTwo abi.stackAlign.toNat) = true ↔
      (abi.slotSize = 0 ∨ ¬ ∃ exponent, abi.stackAlign.toNat = 2 ^ exponent) := by
    rw [← isPowerOfTwo_iff]
    simp
  unfold layoutFault?
  split
  · next bad => rw [← tested, and_iff_right bad, Option.some.injEq, eq_comm]
  · next good => simp only [← tested, good, false_and, reduceCtorEq]

end roles

section scanning

variable (abi : Abi)

theorem Wrong.unique {front : List Reg} {reg : Reg} {fault other : PoolFault}
    (wrong : abi.Wrong front reg fault) (also : abi.Wrong front reg other) : fault = other := by
  cases wrong <;> cases also <;> first | rfl | omega | contradiction

/-- One register is checked against those in front of it, in whatever order they were put aside. -/
theorem registerFault_cons (front rest : List Reg) (reg : Reg) :
    (∃ fault, abi.Wrong front reg fault ∧
      registerFault? abi.registerCount abi.fixedRegisters front.reverse (reg :: rest) =
        some fault) ∨
    ((∀ fault, ¬ abi.Wrong front reg fault) ∧
      registerFault? abi.registerCount abi.fixedRegisters front.reverse (reg :: rest) =
        registerFault? abi.registerCount abi.fixedRegisters (front ++ [reg]).reverse rest) := by
  rw [List.reverse_append, List.reverse_singleton, List.singleton_append, registerFault?]
  simp only [List.mem_reverse]
  by_cases missing : abi.registerCount.toNat ≤ reg.number.val
  · left
    exact ⟨_, .missing missing, if_pos missing⟩
  have below := Nat.lt_of_not_le missing
  by_cases repeated : reg ∈ front
  · left
    exact ⟨_, .repeated below repeated, by rw [if_neg missing, if_pos repeated]⟩
  by_cases fixed : reg ∈ abi.fixedRegisters
  · left
    have occupied : ¬ abi.Unoccupied reg := fun free => (abi.unoccupied_iff reg).mp free fixed
    exact ⟨_, .fixed below repeated occupied,
      by rw [if_neg missing, if_neg repeated, if_pos fixed]⟩
  · right
    refine ⟨?_, by rw [if_neg missing, if_neg repeated, if_neg fixed]⟩
    rintro fault (beyond | ⟨_, again⟩ | ⟨_, _, occupied⟩)
    · exact missing beyond
    · exact repeated again
    · exact occupied ((abi.unoccupied_iff reg).mpr fixed)

theorem wrongAt_middle (front rest : List Reg) (reg : Reg) (fault : PoolFault) :
    abi.WrongAt (front ++ reg :: rest) front.length fault ↔ abi.Wrong front reg fault := by
  rw [WrongAt, List.take_left, List.getElem?_append_right (Nat.le_refl _), Nat.sub_self]
  simp

theorem registers_scanned (front rest : List Reg)
    (passed : ∀ place fault, place < front.length → ¬ abi.WrongAt (front ++ rest) place fault) :
    (∃ place fault, abi.FirstWrong (front ++ rest) place fault ∧
      registerFault? abi.registerCount abi.fixedRegisters front.reverse rest = some fault) ∨
    ((∀ place fault, ¬ abi.WrongAt (front ++ rest) place fault) ∧
      registerFault? abi.registerCount abi.fixedRegisters front.reverse rest = none) := by
  -- the pool is scanned from the front, and what was passed is known to be right
  induction rest generalizing front with
  | nil =>
      right
      refine ⟨?_, rfl⟩
      intro place fault wrong
      obtain ⟨reg, found, _⟩ := id wrong
      rw [List.append_nil] at found
      exact passed place fault (List.getElem?_eq_some_iff.mp found).1 wrong
  | cons reg rest ih =>
      rcases abi.registerFault_cons front rest reg with ⟨fault, wrong, given⟩ | ⟨right, given⟩
      · left
        have here := (abi.wrongAt_middle front rest reg fault).mpr wrong
        exact ⟨front.length, fault, ⟨here, passed⟩, given⟩
      · rw [given]
        have along : front ++ reg :: rest = (front ++ [reg]) ++ rest := by simp
        have next := ih (front ++ [reg]) (by
          intro place fault before wrong
          rw [← along] at wrong
          rw [List.length_append, List.length_singleton] at before
          rcases Nat.lt_succ_iff_lt_or_eq.mp before with earlier | rfl
          · exact passed place fault earlier wrong
          · exact right fault ((abi.wrongAt_middle front rest reg fault).mp wrong))
        rwa [← along] at next

theorem FirstWrong.unique {pool : List Reg} {place there : Nat} {fault other : PoolFault}
    (first : abi.FirstWrong pool place fault) (also : abi.FirstWrong pool there other) :
    fault = other := by
  rcases Nat.lt_trichotomy place there with before | rfl | behind
  · exact absurd first.wrong (also.least place fault before)
  · obtain ⟨reg, found, wrong⟩ := first.wrong
    obtain ⟨same, again, wrong_too⟩ := also.wrong
    cases found.symm.trans again
    exact Wrong.unique abi wrong wrong_too
  · exact absurd also.wrong (first.least there other behind)

theorem fault_some_iff (fault : PoolFault) : abi.fault? = some fault ↔ abi.Blames fault := by
  have scanned := abi.registers_scanned [] abi.accumulators (by intro _ _ before; cases before)
  rw [List.nil_append, List.reverse_nil] at scanned
  unfold fault?
  by_cases absent : abi.accumulators = []
  · rw [if_pos absent]
    constructor
    · rintro ⟨⟩
      exact .empty absent
    · rintro (_ | ⟨place, _, first⟩ | ⟨present, _, _⟩)
      · rfl
      · obtain ⟨reg, found, _⟩ := first.wrong
        rw [absent] at found
        cases found
      · exact absurd absent present
  rw [if_neg absent]
  rcases scanned with ⟨place, found, first, given⟩ | ⟨fits, given⟩
  · rw [given]
    constructor
    · rintro ⟨⟩
      exact .register place _ first
    · rintro (none | ⟨there, _, also⟩ | ⟨_, fits, _⟩)
      · exact absurd none absent
      · exact congrArg some (FirstWrong.unique abi first also)
      · exact absurd first.wrong (fits place found)
  · rw [given]
    show abi.layoutFault? = some fault ↔ _
    rw [abi.layoutFault_some_iff]
    constructor
    · rintro ⟨bad, rfl⟩
      exact .layout absent fits bad
    · rintro (none | ⟨place, _, first⟩ | ⟨_, _, bad⟩)
      · exact absurd none absent
      · exact absurd first.wrong (fits place fault)
      · exact ⟨bad, rfl⟩

theorem validate_ok_iff : abi.validate = .ok () ↔ abi.Usable := by
  rw [← sound_iff_usable, ← fault_none_iff, validate]
  cases abi.fault? <;> simp

theorem validate_error_iff (fault : PoolFault) :
    abi.validate = .error fault ↔ abi.Blames fault := by
  rw [← fault_some_iff, validate]
  cases abi.fault? <;> simp

end scanning

end Abi

section pools

def Architecture.Offers (architecture : Architecture) (reg : Reg) : Prop :=
  let number := reg.number.val
  match architecture with
  | .mips32 => (8 ≤ number ∧ number ≤ 15) ∨ (16 ≤ number ∧ number ≤ 23) ∨ number = 24 ∨ number = 25
  | .aarch64 => (10 ≤ number ∧ number ≤ 15) ∨ (19 ≤ number ∧ number ≤ 28)

theorem Architecture.offers_iff_free (architecture : Architecture) (reg : Reg) :
    architecture.Offers reg ↔ architecture.IsFree reg := by
  obtain ⟨number⟩ := reg
  revert number
  cases architecture <;> simp only [Offers, IsFree] <;> decide +kernel

structure Abi.Validated (abi : Abi) : Prop where
  accepts : abi.validate = .ok () ↔ abi.Usable
  blames : ∀ fault, abi.validate = .error fault ↔ abi.Blames fault

/-- What comes of building an architecture's target over a pool: the stock convention with no
more than its pool replaced, exactly if the pool is made of registers on offer. -/
structure Target.Pooled (architecture : Architecture) (pool : List Reg) : Prop where
  accepts : (∃ target, build architecture (some pool) = .ok target) ↔
    pool ≠ [] ∧ pool.Pairwise (· ≠ ·) ∧ ∀ reg ∈ pool, architecture.Offers reg
  stock : ∃ default, build architecture none = .ok default ∧
    ∀ target, build architecture (some pool) = .ok target →
      target.architecture = default.architecture ∧
        target.abi = { default.abi with accumulators := pool }
  blames : ∀ fault, build architecture (some pool) = .error fault ↔
    ({ architecture.stockAbi with accumulators := pool } : Abi).Blames fault

theorem Target.build_some (architecture : Architecture) (pool : List Reg) :
    build architecture (some pool) =
      match (withPool architecture pool).abi.fault? with
      | some fault => .error fault
      | none => .ok (withPool architecture pool) := by
  cases found : (withPool architecture pool).abi.fault? with
  | some fault => simp [build, Abi.withAccumulators, found, bind, Except.bind]
  | none =>
      have accepted := accepts_of_fault architecture pool found
      exact build_of_accepts architecture (some pool) accepted

/-- Every convention is validated as it should be, and so is every pool for a target. -/
theorem pools_judged (abi : Abi) (architecture : Architecture) (pool : List Reg) :
    abi.Validated ∧ Target.Pooled architecture pool := by
  refine ⟨⟨abi.validate_ok_iff, abi.validate_error_iff⟩, ?_⟩
  constructor
  case accepts =>
    simp only [Architecture.offers_iff_free]
    constructor
    · rintro ⟨target, built⟩
      obtain ⟨_, accepted⟩ := Target.build_withPool architecture (some pool) target built
      exact ⟨accepted.present, accepted.distinct, accepted.free⟩
    · rintro ⟨present, distinct, free⟩
      exact ⟨_, Target.build_of_accepts architecture (some pool) ⟨present, distinct, free⟩⟩
  case stock =>
    refine ⟨Target.stock architecture, by cases architecture <;> rfl, ?_⟩
    intro target built
    obtain ⟨rfl, _⟩ := Target.build_withPool architecture (some pool) target built
    exact ⟨rfl, rfl⟩
  case blames =>
    intro fault
    rw [← Abi.fault_some_iff, Target.build_some]
    cases (Target.withPool architecture pool).abi.fault? <;> simp

end pools

end Microbench
