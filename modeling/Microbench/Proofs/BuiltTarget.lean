import Microbench.Target
/-!
Which targets can be built.

The check of a pool looks for the first fault with the registers seen so far in hand. It
finds none exactly when the pool has no register twice and every register exists and has no
role of its own; beside the pool, only the stack layout is checked. So every built target is
an architecture's own convention over a pool of free registers, and what generated code may
rely on follows from the roles of the two conventions.
-/
namespace Microbench

namespace Abi

theorem registerFault_none_iff (count : UInt8) (fixed seen pool : List Reg) :
    registerFault? count fixed seen pool = none ↔
      pool.Nodup ∧ ∀ reg ∈ pool, reg.number.val < count.toNat ∧ reg ∉ seen ∧ reg ∉ fixed := by
  -- a register that passes is put among those seen, which is how a repetition is noticed
  induction pool generalizing seen with
  | nil => simp [registerFault?]
  | cons first rest ih =>
      unfold registerFault?
      by_cases missing : count.toNat ≤ first.number.val
      · simp [missing, Nat.not_lt.mpr missing]
      · by_cases repeated : first ∈ seen
        · simp [missing, repeated]
        · by_cases taken : first ∈ fixed
          · simp [missing, repeated, taken]
          · simp only [missing, repeated, taken, ↓reduceIte, ih, List.nodup_cons, List.mem_cons,
              forall_eq_or_imp, not_or]
            constructor
            · rintro ⟨distinct, free⟩
              refine ⟨⟨fun again => (free first again).2.1.1 rfl, distinct⟩,
                ⟨Nat.lt_of_not_le missing, not_false, not_false⟩, ?_⟩
              intro reg member
              obtain ⟨numbered, ⟨_, unseen⟩, untaken⟩ := free reg member
              exact ⟨numbered, unseen, untaken⟩
            · rintro ⟨⟨fresh, distinct⟩, -, free⟩
              refine ⟨distinct, fun reg member => ?_⟩
              obtain ⟨numbered, unseen, untaken⟩ := free reg member
              exact ⟨numbered, ⟨fun same => fresh (same ▸ member), unseen⟩, untaken⟩

/-- What the check of a convention asks for. It looks at the pool and the stack layout, and at
nothing else: the roles may clash, and any register may be callee-saved. -/
structure Sound (abi : Abi) : Prop where
  present : abi.accumulators ≠ []
  distinct : abi.accumulators.Nodup
  numbered : ∀ reg ∈ abi.accumulators, reg.number.val < abi.registerCount.toNat
  free : ∀ reg ∈ abi.accumulators, reg ∉ abi.fixedRegisters
  slotted : abi.slotSize ≠ 0
  aligned : isPowerOfTwo abi.stackAlign.toNat = true

theorem Sound.align_pos {abi : Abi} (sound : abi.Sound) : 0 < abi.stackAlign.toNat := by
  apply Nat.pos_of_ne_zero
  intro nought
  have power := sound.aligned
  rw [nought] at power
  revert power
  decide

theorem Sound.slot_pos {abi : Abi} (sound : abi.Sound) : 0 < abi.slotSize.toNat := by
  apply Nat.pos_of_ne_zero
  intro nought
  exact sound.slotted (UInt32.toNat_inj.mp nought)

theorem layoutFault_none_iff (abi : Abi) : abi.layoutFault? = none ↔
    abi.slotSize ≠ 0 ∧ isPowerOfTwo abi.stackAlign.toNat = true := by
  simp [layoutFault?]

theorem fault_none_iff (abi : Abi) : abi.fault? = none ↔ abi.Sound := by
  unfold fault?
  by_cases empty : abi.accumulators = []
  · rw [if_pos empty]
    exact ⟨fun found => (nomatch found), fun sound => absurd empty sound.present⟩
  rw [if_neg empty]
  have pool := registerFault_none_iff abi.registerCount abi.fixedRegisters [] abi.accumulators
  have layout := abi.layoutFault_none_iff
  cases found : registerFault? abi.registerCount abi.fixedRegisters [] abi.accumulators with
  | some fault =>
      refine ⟨fun none => (nomatch none), fun sound => ?_⟩
      have none := pool.mpr ⟨sound.distinct, fun reg member =>
        ⟨sound.numbered reg member, List.not_mem_nil, sound.free reg member⟩⟩
      rw [found] at none
      cases none
  | none =>
      obtain ⟨distinct, fits⟩ := pool.mp found
      refine layout.trans ⟨fun ⟨slotted, aligned⟩ => ?_, fun sound => ⟨sound.slotted, sound.aligned⟩⟩
      exact ⟨empty, distinct, fun reg member => (fits reg member).1,
        fun reg member => (fits reg member).2.2, slotted, aligned⟩

end Abi

namespace Architecture

def IsFree (architecture : Architecture) (reg : Reg) : Prop :=
  reg.number.val < architecture.stockAbi.registerCount.toNat ∧
    reg ∉ architecture.stockAbi.fixedRegisters

/-- The registers with different roles that generated code uses side by side. Only the
argument and the result may share one. -/
structure RolesApart (abi : Abi) : Prop where
  argument_counter : abi.argument ≠ abi.counter
  argument_stack : abi.argument ≠ abi.stackPointer
  argument_link : abi.argument ≠ abi.returnAddress
  result_counter : abi.result ≠ abi.counter
  result_stack : abi.result ≠ abi.stackPointer
  result_link : abi.result ≠ abi.returnAddress
  counter_stack : abi.counter ≠ abi.stackPointer
  counter_link : abi.counter ≠ abi.returnAddress
  stack_link : abi.stackPointer ≠ abi.returnAddress

theorem roles_apart (architecture : Architecture) : RolesApart architecture.stockAbi := by
  cases architecture <;> constructor <;> decide

namespace IsFree

variable {architecture : Architecture} {reg : Reg} (free : architecture.IsFree reg)

include free

theorem ne_role (role : Reg) (fixed : role ∈ architecture.stockAbi.fixedRegisters) :
    reg ≠ role := by
  rintro rfl
  exact free.2 fixed

theorem ne_result : reg ≠ architecture.stockAbi.result :=
  free.ne_role _ (by simp [Abi.fixedRegisters])

theorem ne_counter : reg ≠ architecture.stockAbi.counter :=
  free.ne_role _ (by simp [Abi.fixedRegisters])

theorem ne_stackPointer : reg ≠ architecture.stockAbi.stackPointer :=
  free.ne_role _ (by simp [Abi.fixedRegisters])

theorem ne_returnAddress : reg ≠ architecture.stockAbi.returnAddress :=
  free.ne_role _ (by simp [Abi.fixedRegisters])

end IsFree

structure Accepts (architecture : Architecture) (pool : List Reg) : Prop where
  present : pool ≠ []
  distinct : pool.Nodup
  free : ∀ reg ∈ pool, architecture.IsFree reg

/-- No architecture has registers for a longer pool. -/
theorem Accepts.few {architecture : Architecture} {pool : List Reg}
    (accepted : architecture.Accepts pool) : pool.length ≤ 32 := by
  have numbered : pool ⊆ (List.range 32).map Reg.ofNat := by
    intro reg member
    have bound : reg.number.val < architecture.stockAbi.registerCount.toNat :=
      (accepted.free reg member).1
    have limit : architecture.stockAbi.registerCount.toNat ≤ 32 := by cases architecture <;> decide
    exact List.mem_map.mpr ⟨reg.number.val, List.mem_range.mpr (by omega), Reg.ofNat_number reg⟩
  exact accepted.distinct.length_le_of_subset numbered

end Architecture

namespace Target

abbrev withPool (architecture : Architecture) (pool : List Reg) : Target :=
  ⟨architecture, { architecture.stockAbi with accumulators := pool }⟩

theorem accepts_of_fault (architecture : Architecture) (pool : List Reg)
    (passed : (withPool architecture pool).abi.fault? = none) : architecture.Accepts pool := by
  have sound := (Abi.fault_none_iff _).mp passed
  exact ⟨sound.present, sound.distinct,
    fun reg member => ⟨sound.numbered reg member, sound.free reg member⟩⟩

/-- A built target is its architecture's convention over an accepted pool. -/
theorem build_withPool (architecture : Architecture) (pool : Option (List Reg)) (target : Target)
    (built : build architecture pool = .ok target) :
    target = withPool architecture (pool.getD architecture.stockAbi.accumulators) ∧
      architecture.Accepts (pool.getD architecture.stockAbi.accumulators) := by
  have checked (abi : Abi) (result : Target)
      (passed : (abi.validate >>= fun _ => Except.ok ⟨architecture, abi⟩) = .ok result) :
      abi.fault? = none ∧ result = ⟨architecture, abi⟩ := by
    unfold Abi.validate at passed
    split at passed
    · cases passed
    · next none => cases passed; exact ⟨none, rfl⟩
  cases pool with
  | none =>
      obtain ⟨sound, rfl⟩ := checked architecture.stockAbi target built
      exact ⟨rfl, accepts_of_fault _ _ sound⟩
  | some regs =>
      unfold build Abi.withAccumulators at built
      cases found : ({ architecture.stockAbi with accumulators := regs } : Abi).fault? with
      | some fault => simp [found, bind, Except.bind] at built
      | none =>
          simp only [found] at built
          obtain ⟨sound, rfl⟩ := checked _ target built
          exact ⟨rfl, accepts_of_fault _ _ sound⟩

theorem fault_of_accepts (architecture : Architecture) (pool : List Reg)
    (accepted : architecture.Accepts pool) : (withPool architecture pool).abi.fault? = none := by
  obtain ⟨present, distinct, free⟩ := accepted
  have slotted : architecture.stockAbi.slotSize ≠ 0 := by cases architecture <;> decide
  have aligned : isPowerOfTwo architecture.stockAbi.stackAlign.toNat = true := by
    cases architecture <;> decide
  exact (Abi.fault_none_iff _).mpr ⟨present, distinct, fun reg member => (free reg member).1,
    fun reg member => (free reg member).2, slotted, aligned⟩

/-- An accepted pool, or that of the convention itself, always has its target. -/
theorem build_of_accepts (architecture : Architecture) (pool : Option (List Reg))
    (accepted : architecture.Accepts (pool.getD architecture.stockAbi.accumulators)) :
    build architecture pool =
      .ok (withPool architecture (pool.getD architecture.stockAbi.accumulators)) := by
  have sound := fault_of_accepts architecture _ accepted
  cases pool with
  | none => simp_all [build, Abi.validate, bind, Except.bind, pure, Except.pure]
  | some regs =>
      simp_all [build, Abi.withAccumulators, Abi.validate, bind, Except.bind, pure, Except.pure]

end Target

end Microbench
