import Microbench.Frame
import Microbench.Proofs.ControlFlow
import Microbench.Proofs.Effects
/-!
What a stack frame keeps.

A frame over an architecture's own convention is small, its slots lie inside it and do not
overlap, and it holds registers of the pool only. So the stores of the prologue change
memory inside the frame alone, and as long as nobody else writes there, the loads of the
epilogue give every saved register back what it held at the entry.
-/
namespace Microbench.Frame
open Statement Target InstructionSet

section rounding

theorem roundUp_multiple (bytes align : Nat) : roundUp bytes align % align = 0 :=
  Nat.mul_mod_left _ _

theorem le_roundUp (bytes align : Nat) (positive : 0 < align) : bytes ≤ roundUp bytes align := by
  have whole := Nat.div_add_mod (bytes + align - 1) align
  have rest := Nat.mod_lt (bytes + align - 1) positive
  rw [roundUp, Nat.mul_comm]
  omega

theorem roundUp_lt (bytes align : Nat) (positive : 0 < align) :
    roundUp bytes align < bytes + align := by
  have whole := Nat.div_mul_le_self (bytes + align - 1) align
  rw [roundUp]
  omega

theorem roundUp_zero (align : Nat) (positive : 0 < align) : roundUp 0 align = 0 := by
  rw [roundUp, Nat.zero_add, Nat.div_eq_of_lt (Nat.sub_lt positive Nat.one_pos), Nat.zero_mul]

theorem roundUp_small (architecture : Architecture) (count : Nat)
    (few : count ≤ architecture.stockAbi.calleeSaved.length) :
    roundUp (count * architecture.stockAbi.slotSize.toNat) architecture.stockAbi.stackAlign.toNat <
      4096 := by
  -- with nine registers to save on one architecture and eleven on the other, no frame comes near
  -- the bound on what a stack adjustment can write
  cases architecture
  · have nine : count ≤ 9 := few
    have bytes := roundUp_lt (count * 4) 8 (by decide)
    show roundUp (count * 4) 8 < 4096
    omega
  · have eleven : count ≤ 11 := few
    have bytes := roundUp_lt (count * 8) 16 (by decide)
    show roundUp (count * 8) 16 < 4096
    omega

end rounding

section existence

def ideal (abi : Abi) (used : List Reg) : Frame :=
  let saved := used.filter abi.isCalleeSaved
  ⟨saved, roundUp (saved.length * abi.slotSize.toNat) abi.stackAlign.toNat, abi.slotSize.toNat⟩

def Sized (frame : Frame) : Prop :=
  frame.size < UInt32.size ∧ (frame.saved = [] ∨ frame.size ≠ 0x80000000)

theorem ofRegisters_ideal {abi : Abi} (positive : 0 < abi.stackAlign.toNat) (used : List Reg) :
    ofRegisters? abi used =
      if (ideal abi used).size < UInt32.size then some (ideal abi used) else none := by
  -- the slots need no bound of their own, as they are no more than the frame
  let bytes := (used.filter abi.isCalleeSaved).length * abi.slotSize.toNat
  have slots : bytes ≤ (ideal abi used).size := le_roundUp _ _ positive
  have divisible : (abi.stackAlign.toNat != 0) = true := by simpa using Nat.ne_of_gt positive
  by_cases bounded : (ideal abi used).size < UInt32.size
  · have checks : (decide (bytes < UInt32.size) && abi.stackAlign.toNat != 0 &&
        decide ((ideal abi used).size < UInt32.size)) = true := by
      simp [Nat.lt_of_le_of_lt slots bounded, divisible, bounded]
    rw [if_pos bounded]
    exact if_pos checks
  · have fails : ¬ (decide (bytes < UInt32.size) && abi.stackAlign.toNat != 0 &&
        decide ((ideal abi used).size < UInt32.size)) = true := by
      simp [bounded]
    rw [if_neg bounded]
    exact if_neg fails

/-- A size is moved by as it is, or by the word it is as a signed number. -/
theorem adjustment_eq (frame : Frame) (bounded : frame.size < UInt32.size) :
    frame.adjustment = if frame.size < 2147483648 then (frame.size : Int)
      else frame.size - 4294967296 := by
  have bounded : frame.size < 4294967296 := bounded
  have signed : frame.adjustment = Int.bmod frame.size 4294967296 := rfl
  rw [signed, Int.bmod_def]
  split <;> split <;> omega

theorem adjustment_small (frame : Frame) (small : frame.size < 2147483648) :
    frame.adjustment = frame.size := by
  rw [frame.adjustment_eq (Nat.lt_trans small (by decide)), if_pos small]

theorem adjustment_large (frame : Frame) (large : 2147483648 ≤ frame.size)
    (bounded : frame.size < UInt32.size) : frame.adjustment = frame.size - 4294967296 := by
  rw [frame.adjustment_eq bounded, if_neg (Nat.not_lt.mpr large)]

/-- Of the sizes that are words, one alone has no opposite. -/
theorem adjustment_least_iff (frame : Frame) (bounded : frame.size < UInt32.size) :
    frame.adjustment = -0x80000000 ↔ frame.size = 0x80000000 := by
  have word : frame.size < 4294967296 := bounded
  rw [frame.adjustment_eq bounded]
  split <;> omega

theorem prologue_eq (frame : Frame) (target : Target) (bounded : frame.size < UInt32.size) :
    frame.prologue? target =
      if frame.saved = [] then some []
      else if frame.size = 0x80000000 then none
      else some (target.adjustStack (-frame.adjustment) ::
        frame.slots.map fun (reg, offset) => target.storeRegister reg offset) := by
  simp only [prologue?, isEmpty, List.isEmpty_iff, adjustment_least_iff frame bounded]

end existence

structure Sound (architecture : Architecture) (frame : Frame) : Prop where
  slot : frame.slotSize = architecture.stockAbi.slotSize.toNat
  roomy : frame.saved.length * frame.slotSize ≤ frame.size
  small : frame.size < 4096
  aligned : frame.size % architecture.stockAbi.stackAlign.toNat = 0
  bare : frame.saved = [] → frame.size = 0
  distinct : frame.saved.Nodup
  free : ∀ reg ∈ frame.saved, architecture.IsFree reg

/-- Some registers of an accepted pool, in the order of the pool, have a frame. -/
theorem ofRegisters_sound (architecture : Architecture) (pool used : List Reg)
    (accepted : architecture.Accepts pool) (taken : used.Sublist pool) :
    ∃ frame, ofRegisters? (withPool architecture pool).abi used = some frame ∧
      frame.saved = used.filter architecture.stockAbi.isCalleeSaved ∧ frame.Sound architecture := by
  let saved := used.filter architecture.stockAbi.isCalleeSaved
  have kept : saved.Sublist pool := (List.filter_sublist).trans taken
  have distinct : saved.Nodup := accepted.distinct.sublist kept
  have free : ∀ reg ∈ saved, architecture.IsFree reg :=
    fun reg member => accepted.free reg (kept.subset member)
  have few : saved.length ≤ architecture.stockAbi.calleeSaved.length := by
    apply List.Nodup.length_le_of_subset distinct
    intro reg member
    simpa [Abi.isCalleeSaved] using (List.mem_filter.mp member).2
  have checked := (Abi.fault_none_iff _).mp (fault_of_accepts architecture pool accepted)
  have positive := Abi.Sound.align_pos checked
  have small := roundUp_small architecture saved.length few
  have inWords : (ideal (withPool architecture pool).abi used).size < UInt32.size :=
    Nat.lt_trans small (by decide)
  refine ⟨ideal (withPool architecture pool).abi used, ?_, rfl, ?_⟩
  · rw [ofRegisters_ideal positive, if_pos inWords]
  · refine ⟨rfl, le_roundUp _ _ positive, small, roundUp_multiple _ _, ?_, distinct, free⟩
    intro none
    have nothing : saved.length = 0 := List.length_eq_zero_iff.mpr none
    show roundUp (saved.length * architecture.stockAbi.slotSize.toNat)
      architecture.stockAbi.stackAlign.toNat = 0
    rw [nothing, Nat.zero_mul, roundUp_zero _ positive]

section slots

variable {architecture : Architecture} {frame : Frame}

theorem slot_registers (frame : Frame) : frame.slots.map Prod.fst = frame.saved := by
  rw [slots, List.map_map]
  exact List.zipIdx_map_fst 0 frame.saved

theorem Sound.slotted (sound : frame.Sound architecture) : 0 < frame.slotSize := by
  rw [sound.slot]
  cases architecture <;> decide

theorem slot_inside (sound : frame.Sound architecture) (slot : Reg × Nat)
    (member : slot ∈ frame.slots) :
    slot.1 ∈ frame.saved ∧ slot.2 < frame.size ∧
      slot.2 % architecture.stockAbi.slotSize.toNat = 0 := by
  simp only [slots, List.mem_map] at member
  obtain ⟨⟨reg, index⟩, numbered, rfl⟩ := member
  have found := List.mk_mem_zipIdx_iff_getElem?.mp numbered
  have bound := (List.getElem?_eq_some_iff.mp found).1
  refine ⟨List.mem_of_getElem? found, ?_, ?_⟩
  · exact Nat.lt_of_lt_of_le (Nat.mul_lt_mul_of_pos_right bound sound.slotted) sound.roomy
  · show index * frame.slotSize % _ = 0
    rw [sound.slot]
    exact Nat.mul_mod_left _ _

/-- Every slot ends before the next ones begin. -/
theorem slots_ascend (frame : Frame) :
    frame.slots.Pairwise fun first second => first.2 + frame.slotSize ≤ second.2 := by
  have counted : frame.saved.zipIdx.Pairwise fun first second => first.2 < second.2 := by
    apply List.pairwise_map.mp
    rw [List.zipIdx_map_snd]
    exact List.pairwise_lt_range'
  rw [slots, List.pairwise_map]
  apply counted.imp
  intro first second before
  show first.2 * frame.slotSize + frame.slotSize ≤ second.2 * frame.slotSize
  rw [← Nat.succ_mul]
  exact Nat.mul_le_mul_right frame.slotSize before

theorem slots_apart (frame : Frame) (positive : 0 < frame.slotSize) :
    frame.slots.Pairwise fun first second => first.2 ≠ second.2 :=
  frame.slots_ascend.imp fun before => by omega

end slots

section moving

variable (architecture : Architecture) (pool : List Reg)

/-- Stores above the stack pointer to places of their own change nothing else. -/
theorem stores_pass (slots : List (Reg × Nat)) (state : architecture.isa.State)
    (named : ∀ slot ∈ slots, architecture.Writable slot.1)
    (whole : ∀ slot ∈ slots, slot.2 % architecture.stockAbi.slotSize.toNat = 0)
    (aligned : (state.registers architecture.stockAbi.stackPointer).toNat %
      architecture.stockAbi.stackAlign.toNat = 0)
    (apart : slots.Pairwise fun first second =>
      slotAddress architecture state first.2 ≠ slotAddress architecture state second.2) :
    ∃ after, architecture.isa.pass
        ((slots.map fun slot => (withPool architecture pool).storeRegister slot.1 slot.2).map
          (cell architecture)) state = some after ∧
      after.registers = state.registers ∧
      (∀ slot ∈ slots,
        after.memory (slotAddress architecture state slot.2) = state.registers slot.1) ∧
      ∀ address, (∀ slot ∈ slots, address ≠ slotAddress architecture state slot.2) →
        after.memory address = state.memory address := by
  -- the first store is undone by none of the others, as their places are apart from its own
  induction slots generalizing state with
  | nil => exact ⟨state, rfl, rfl, by simp, fun _ _ => rfl⟩
  | cons first rest ih =>
      have stores := storeRegister_runs architecture pool state first.1 first.2
        (named first List.mem_cons_self) aligned (whole first List.mem_cons_self)
      let middle := state.store (slotAddress architecture state first.2)
        (state.registers first.1)
      obtain ⟨away, others⟩ := List.pairwise_cons.mp apart
      obtain ⟨after, passed, registers, filled, spared⟩ := ih middle
        (fun slot member => named slot (List.mem_cons_of_mem first member))
        (fun slot member => whole slot (List.mem_cons_of_mem first member)) aligned others
      refine ⟨after, ?_, registers, ?_, ?_⟩
      · rw [List.map_cons, Runs.pass_cons stores]
        exact passed
      · intro slot member
        rcases List.mem_cons.mp member with rfl | later
        · apply (spared _ fun other found => away other found).trans
          exact if_pos rfl
        · exact filled slot later
      · intro address outside
        apply (spared address fun slot found => outside slot (List.mem_cons_of_mem first found)).trans
        exact if_neg (outside first List.mem_cons_self)

theorem loads_pass (slots : List (Reg × Nat)) (state : architecture.isa.State)
    (named : ∀ slot ∈ slots, architecture.IsFree slot.1)
    (whole : ∀ slot ∈ slots, slot.2 % architecture.stockAbi.slotSize.toNat = 0)
    (aligned : (state.registers architecture.stockAbi.stackPointer).toNat %
      architecture.stockAbi.stackAlign.toNat = 0)
    (distinct : (slots.map Prod.fst).Nodup) :
    ∃ after, architecture.isa.pass
        ((slots.map fun slot => (withPool architecture pool).loadRegister slot.1 slot.2).map
          (cell architecture)) state = some after ∧
      after.memory = state.memory ∧
      (∀ slot ∈ slots,
        after.registers slot.1 = state.memory (slotAddress architecture state slot.2)) ∧
      ∀ reg, reg ∉ slots.map Prod.fst → after.registers reg = state.registers reg := by
  -- no load writes to the stack pointer, so all of them find their places where the first did
  induction slots generalizing state with
  | nil => exact ⟨state, rfl, rfl, by simp, fun _ _ => rfl⟩
  | cons first rest ih =>
      have free := named first List.mem_cons_self
      have loads := loadRegister_runs architecture pool state first.1 first.2
        (architecture.writable_of_free first.1 free) aligned (whole first List.mem_cons_self)
      let middle := state.set first.1 (state.memory (slotAddress architecture state first.2))
      have still : middle.registers architecture.stockAbi.stackPointer =
          state.registers architecture.stockAbi.stackPointer := if_neg free.ne_stackPointer.symm
      have addresses : slotAddress architecture middle = slotAddress architecture state := by
        funext offset
        rw [slotAddress, slotAddress, still]
      obtain ⟨absent, others⟩ := List.nodup_cons.mp distinct
      obtain ⟨after, passed, memory, restored, spared⟩ := ih middle
        (fun slot member => named slot (List.mem_cons_of_mem first member))
        (fun slot member => whole slot (List.mem_cons_of_mem first member))
        (by rw [still]; exact aligned) others
      refine ⟨after, ?_, memory, ?_, ?_⟩
      · rw [List.map_cons, Runs.pass_cons loads]
        exact passed
      · intro slot member
        rcases List.mem_cons.mp member with rfl | later
        · exact (spared slot.1 absent).trans (if_pos rfl)
        · rw [restored slot later, addresses]
          rfl
      · intro reg outside
        rw [List.map_cons, List.mem_cons, not_or] at outside
        exact (spared reg outside.2).trans (if_neg outside.1)

end moving

section addresses

variable {width : Nat} (base : BitVec width) (size offset : Nat) (room : size ≤ base.toNat)

include room in
theorem lowered_toNat : (base - BitVec.ofNat width size).toNat = base.toNat - size := by
  have bytes : (BitVec.ofNat width size).toNat = size :=
    Nat.mod_eq_of_lt (Nat.lt_of_le_of_lt room base.isLt)
  rw [BitVec.toNat_sub_of_le (BitVec.le_def.mpr (by rw [bytes]; exact room)), bytes]

include room in
/-- An offset inside a frame does not lead around the end of memory. -/
theorem place_toNat (inside : offset < size) :
    (base - BitVec.ofNat width size + BitVec.ofNat width offset).toNat =
      base.toNat - size + offset := by
  have limit := base.isLt
  have bytes : (BitVec.ofNat width offset).toNat = offset :=
    Nat.mod_eq_of_lt (by omega)
  rw [BitVec.toNat_add_of_lt, lowered_toNat base size room, bytes]
  rw [lowered_toNat base size room, bytes]
  omega

end addresses

section prologue

variable {architecture : Architecture} {frame : Frame} (pool : List Reg)

structure Taken (architecture : Architecture) (frame : Frame)
    (before inner : architecture.isa.State) : Prop where
  lowered : inner.registers architecture.stockAbi.stackPointer =
    before.registers architecture.stockAbi.stackPointer - BitVec.ofNat _ frame.size
  others : ∀ reg, reg ≠ architecture.stockAbi.stackPointer →
    inner.registers reg = before.registers reg
  filled : ∀ slot ∈ frame.slots,
    inner.memory (slotAddress architecture inner slot.2) = before.registers slot.1
  spared : ∀ address : BitVec architecture.isa.width,
    address.toNat + frame.size < (before.registers architecture.stockAbi.stackPointer).toNat ∨
      (before.registers architecture.stockAbi.stackPointer).toNat ≤ address.toNat →
    inner.memory address = before.memory address

structure Room (architecture : Architecture) (frame : Frame) (state : architecture.isa.State) :
    Prop where
  aligned : (state.registers architecture.stockAbi.stackPointer).toNat %
    architecture.stockAbi.stackAlign.toNat = 0
  enough : frame.size ≤ (state.registers architecture.stockAbi.stackPointer).toNat

theorem adjustment_size (sound : frame.Sound architecture) : frame.adjustment = frame.size :=
  frame.adjustment_small (Nat.lt_trans sound.small (by decide))

theorem taken_of_bare (bare : frame.isEmpty) (sound : frame.Sound architecture)
    (state : architecture.isa.State) : frame.Taken architecture state state := by
  have none : frame.saved = [] := by simpa [isEmpty] using bare
  have nothing : frame.size = 0 := sound.bare none
  refine ⟨?_, fun _ _ => rfl, ?_, fun _ _ => rfl⟩
  · rw [nothing]
    simp
  · intro slot member
    simp [slots, none] at member

/-- The stack pointer of a frame is aligned as the caller's was. -/
theorem aligned_inside (sound : frame.Sound architecture) (before inner : architecture.isa.State)
    (room : frame.Room architecture before)
    (lowered : inner.registers architecture.stockAbi.stackPointer =
      before.registers architecture.stockAbi.stackPointer - BitVec.ofNat _ frame.size) :
    (inner.registers architecture.stockAbi.stackPointer).toNat %
      architecture.stockAbi.stackAlign.toNat = 0 := by
  rw [lowered, lowered_toNat _ _ room.enough]
  exact Nat.sub_mod_eq_zero_of_mod_eq (room.aligned.trans sound.aligned.symm)

theorem address_toNat (before inner : architecture.isa.State)
    (room : frame.Room architecture before)
    (lowered : inner.registers architecture.stockAbi.stackPointer =
      before.registers architecture.stockAbi.stackPointer - BitVec.ofNat _ frame.size)
    (offset : Nat) (inside : offset < frame.size) :
    (slotAddress architecture inner offset).toNat =
      (before.registers architecture.stockAbi.stackPointer).toNat - frame.size + offset := by
  rw [slotAddress, lowered]
  exact place_toNat _ _ _ room.enough inside

theorem addresses_apart (sound : frame.Sound architecture)
    (before inner : architecture.isa.State) (room : frame.Room architecture before)
    (lowered : inner.registers architecture.stockAbi.stackPointer =
      before.registers architecture.stockAbi.stackPointer - BitVec.ofNat _ frame.size) :
    frame.slots.Pairwise fun first second =>
      slotAddress architecture inner first.2 ≠ slotAddress architecture inner second.2 := by
  have places := address_toNat before inner room lowered
  apply (slots_apart frame sound.slotted).imp_of_mem
  intro first second left right different same
  have first := places first.2 (slot_inside sound first left).2.1
  have second := places second.2 (slot_inside sound second right).2.1
  rw [same, second] at first
  omega

theorem taken_of_stores (sound : frame.Sound architecture) (before : architecture.isa.State)
    (room : frame.Room architecture before) :
    ∃ inner, architecture.isa.pass
        (((withPool architecture pool).adjustStack (-frame.adjustment) ::
          frame.slots.map fun slot => (withPool architecture pool).storeRegister slot.1 slot.2).map
          (cell architecture)) before = some inner ∧ frame.Taken architecture before inner := by
  have adjusts := adjustStack_runs architecture pool before (-frame.adjustment)
  let stackPointer := architecture.stockAbi.stackPointer
  let lower := before.set stackPointer
    (before.registers stackPointer + BitVec.ofInt _ (-frame.adjustment))
  have lowered : lower.registers stackPointer =
      before.registers stackPointer - BitVec.ofNat _ frame.size := by
    apply (if_pos rfl).trans
    rw [adjustment_size sound, BitVec.ofInt_neg, BitVec.ofInt_natCast, ← BitVec.sub_eq_add_neg]
  obtain ⟨inner, passed, registers, filled, spared⟩ := stores_pass architecture pool frame.slots lower
    (fun slot member =>
      architecture.writable_of_free _ (sound.free _ (slot_inside sound slot member).1))
    (fun slot member => (slot_inside sound slot member).2.2)
    (aligned_inside sound before lower room lowered)
    (addresses_apart sound before lower room lowered)
  refine ⟨inner, ?_, ?_, ?_, ?_, ?_⟩
  · rw [Runs.pass_cons adjusts]
    exact passed
  · rw [registers]
    exact lowered
  · intro reg other
    rw [registers]
    exact if_neg other
  · intro slot member
    have same : slotAddress architecture inner slot.2 = slotAddress architecture lower slot.2 := by
      rw [slotAddress, slotAddress, registers]
    rw [same, filled slot member]
    exact if_neg (sound.free _ (slot_inside sound slot member).1).ne_stackPointer
  · -- the slots fill the frame at most, so an address outside it is no slot's
    intro address outside
    apply spared
    rintro slot member rfl
    have inside := (slot_inside sound slot member).2.1
    have enough := room.enough
    rw [address_toNat before lower room lowered slot.2 inside] at outside
    omega

structure Opens (architecture : Architecture) (frame : Frame) (prologue : List Statement) :
    Prop where
  fits : ∀ statement ∈ prologue, statement.Fits architecture
  plain : ∀ statement ∈ prologue, statement.Plain
  takes : ∀ before : architecture.isa.State, frame.Room architecture before →
    ∃ inner, architecture.isa.pass (prologue.map (cell architecture)) before = some inner ∧
      frame.Taken architecture before inner

theorem prologue_movesData {target : Target} {prologue : List Statement}
    (taking : frame.prologue? target = some prologue) :
    ∀ statement ∈ prologue, target.MovesData statement := by
  unfold prologue? at taking
  split at taking
  · cases taking
    simp
  · split at taking
    · cases taking
    · cases taking
      refine List.forall_mem_cons.mpr ⟨.adjustStack _, ?_⟩
      intro statement member
      obtain ⟨slot, _, rfl⟩ := List.mem_map.mp member
      exact .storeRegister _ _

theorem prologue_opens (sound : frame.Sound architecture) :
    ∃ prologue, frame.prologue? (withPool architecture pool) = some prologue ∧
      frame.Opens architecture prologue := by
  have size := adjustment_size sound
  have small := sound.small
  by_cases bare : frame.isEmpty
  · refine ⟨[], if_pos bare, by simp, by simp, ?_⟩
    intro before room
    exact ⟨before, rfl, taken_of_bare bare sound before⟩
  · have taking : frame.prologue? (withPool architecture pool) = some _ :=
      (if_neg bare).trans (if_neg (by omega))
    refine ⟨_, taking, ?_, ?_, taken_of_stores pool sound⟩
    · intro statement member
      rcases List.mem_cons.mp member with rfl | stored
      · exact adjustStack_fits architecture pool _ (by omega)
      · obtain ⟨slot, found, rfl⟩ := List.mem_map.mp stored
        obtain ⟨saved, inside, whole⟩ := slot_inside sound slot found
        exact storeRegister_fits architecture pool _ _
          (architecture.writable_of_free _ (sound.free _ saved)) (by omega) whole
    · exact fun statement member => (prologue_movesData taking statement member).plain

end prologue

section epilogue

variable {architecture : Architecture} {frame : Frame} (pool : List Reg)

theorem epilogue_fits (sound : frame.Sound architecture) :
    ∀ statement ∈ frame.epilogue (withPool architecture pool), statement.Fits architecture := by
  have size := adjustment_size sound
  have small := sound.small
  intro statement member
  rcases List.mem_append.mp member with loaded | returned
  · obtain ⟨slot, found, rfl⟩ := List.mem_map.mp loaded
    obtain ⟨saved, inside, whole⟩ := slot_inside sound slot found
    exact loadRegister_fits architecture pool _ _
      (architecture.writable_of_free _ (sound.free _ saved)) (by omega) whole
  · refine returnAfter_fits architecture pool _ ?_ statement returned
    intro last given
    split at given
    · cases given
    · cases given
      exact adjustStack_fits architecture pool _ (by omega)

theorem loads_movesData (target : Target) : ∀ statement ∈ frame.slots.map fun (reg, offset) =>
    target.loadRegister reg offset, target.MovesData statement := by
  intro statement member
  obtain ⟨slot, _, rfl⟩ := List.mem_map.mp member
  exact .loadRegister _ _

theorem release_movesData (target : Target) : ∀ statement ∈
    (if frame.isEmpty then none else some (target.adjustStack frame.adjustment)),
    target.MovesData statement := by
  intro statement given
  split at given
  · cases given
  · cases given
    exact .adjustStack _

theorem epilogue_plain (target : Target) :
    ∀ statement ∈ frame.epilogue target, statement.Plain :=
  List.forall_mem_append.mpr
    ⟨fun statement member => (loads_movesData target statement member).plain,
      returnAfter_plain target _ fun last given => (release_movesData target last given).plain⟩

theorem epilogue_goesTo (target : Target) : GoesTo (frame.epilogue target) [] :=
  (goesTo_of_movesData _ (loads_movesData target)).append
    (returnAfter_goesTo target _ fun last given => (release_movesData target last given).steady)

structure Released (architecture : Architecture) (frame : Frame)
    (before inner after : architecture.isa.State) : Prop where
  raised : after.registers architecture.stockAbi.stackPointer =
    before.registers architecture.stockAbi.stackPointer
  restored : ∀ slot ∈ frame.slots,
    after.registers slot.1 = inner.memory (slotAddress architecture inner slot.2)
  others : ∀ reg, reg ≠ architecture.stockAbi.stackPointer → reg ∉ frame.saved →
    after.registers reg = inner.registers reg
  memory : after.memory = inner.memory

theorem epilogue_returns (sound : frame.Sound architecture) (program rest : architecture.isa.Code)
    (before inner : architecture.isa.State) (room : frame.Room architecture before)
    (lowered : inner.registers architecture.stockAbi.stackPointer =
      before.registers architecture.stockAbi.stackPointer - BitVec.ofNat _ frame.size) :
    ∃ after, architecture.isa.Reaches program
        (.within ((frame.epilogue (withPool architecture pool)).map (cell architecture) ++ rest) inner)
        ((frame.epilogue (withPool architecture pool)).map (cell architecture))
        (.returned (inner.registers architecture.stockAbi.returnAddress) after) ∧
      frame.Released architecture before inner after := by
  obtain ⟨middle, loaded, memory, restored, spared⟩ := loads_pass architecture pool frame.slots inner
    (fun slot member => sound.free _ (slot_inside sound slot member).1)
    (fun slot member => (slot_inside sound slot member).2.2)
    (aligned_inside sound before inner room lowered)
    (by rw [slot_registers]; exact sound.distinct)
  rw [slot_registers] at spared
  have unsaved (reg : Reg) (fixed : ∀ saved ∈ frame.saved, saved ≠ reg) :
      middle.registers reg = inner.registers reg :=
    spared reg fun member => fixed reg member rfl
  have linked := unsaved architecture.stockAbi.returnAddress
    fun saved member => (sound.free saved member).ne_returnAddress
  have stacked := unsaved architecture.stockAbi.stackPointer
    fun saved member => (sound.free saved member).ne_stackPointer
  have loads := reaches_of_pass program _
    (((withPool architecture pool).returnAfter (if frame.isEmpty then none else
      some ((withPool architecture pool).adjustStack frame.adjustment))).map (cell architecture) ++
        rest)
    inner middle loaded
  rw [← linked]
  unfold epilogue
  rw [List.map_append, List.append_assoc]
  -- a frame without registers was never taken, so there is nothing to give back
  by_cases bare : frame.isEmpty
  · rw [if_pos bare] at loads ⊢
    refine ⟨middle, loads.trans (return_reaches architecture pool program rest middle), ?_⟩
    have none : frame.saved = [] := by simpa [isEmpty] using bare
    refine ⟨?_, restored, fun reg _ absent => spared reg absent, memory⟩
    rw [stacked, lowered, sound.bare none]
    simp
  · rw [if_neg bare] at loads ⊢
    have adjusts := adjustStack_runs architecture pool middle frame.adjustment
    have apart : architecture.stockAbi.returnAddress ≠ architecture.stockAbi.stackPointer := by
      cases architecture <;> decide
    refine ⟨_, loads.trans (returnAfter_reaches architecture pool program rest middle _ _ adjusts
      (if_neg apart)), ?_, ?_, ?_, memory⟩
    · apply (if_pos rfl).trans
      rw [stacked, lowered, adjustment_size sound, BitVec.ofInt_natCast, BitVec.sub_add_cancel]
    · intro slot member
      rw [← restored slot member]
      exact if_neg (sound.free _ (slot_inside sound slot member).1).ne_stackPointer
    · intro reg other absent
      rw [← spared reg absent]
      exact if_neg other

end epilogue

end Microbench.Frame
