import Mathlib.Algebra.Group.Nat.Defs
import Mathlib.Order.Bounds.Basic
import Mathlib.Order.CompletePartialOrder
import Mathlib.Order.Interval.Set.Disjoint
import Microbench.Proofs.Frames
/-!
How a frame is laid out, over any convention.

The frame is the least multiple of the stack alignment that has room for its slots, whatever
the sizes of a slot and of the alignment are. Slots are apart, as each ends where the next one
begins. On either architecture the prologue moves the stack pointer down by the frame and
stores the slots in their order, and the epilogue loads the same slots in the same order and
moves the stack pointer up again, in the delay slot of the return where there is one.
-/
namespace Microbench

inductive StackUse where
  | moves (amount : Int)
  | stores (reg : Reg) (offset : Nat)
  | loads (reg : Reg) (offset : Nat)
deriving DecidableEq

section uses

def Mips.Instruction.stackUse? (stack : Reg) : Mips.Instruction → Option StackUse
  | .addImmediate rt rs immediate =>
    if rt = stack ∧ rs = stack then some (.moves immediate.value) else none
  | .storeWord rt offset base => if base = stack then some (.stores rt offset) else none
  | .loadWord rt offset base => if base = stack then some (.loads rt offset) else none
  | _ => none

def AArch64.Instruction.stackUse? : AArch64.Instruction → Option StackUse
  | .lowerStack bytes => some (.moves (-bytes))
  | .raiseStack bytes => some (.moves bytes)
  | .store rt offset => some (.stores rt offset)
  | .load rt offset => some (.loads rt offset)
  | _ => none

variable (target : Target)

def Target.stackUse? : Statement → Option StackUse
  | .mips instruction =>
    if target.architecture = .mips32 then instruction.stackUse? target.abi.stackPointer else none
  | .aarch64 instruction =>
    if target.architecture = .aarch64 then instruction.stackUse? else none
  | _ => none

theorem Target.adjustStack_use (delta : Int) :
    target.stackUse? (target.adjustStack delta) = some (.moves delta) := by
  obtain ⟨_ | _, abi⟩ := target
  · simp [adjustStack, stackUse?, Mips.Instruction.stackUse?, Literal.value_ofInt]
  · have moved (amount : Int) (same : amount = delta) :
        some (StackUse.moves amount) = some (.moves delta) := by rw [same]
    unfold adjustStack
    by_cases down : delta < 0
    · simp only [down, ↓reduceIte]
      exact moved (-(delta.natAbs : Int)) (by omega)
    · simp only [down, ↓reduceIte]
      exact moved (delta.natAbs : Int) (by omega)

theorem Target.storeRegister_use (reg : Reg) (offset : Nat) :
    target.stackUse? (target.storeRegister reg offset) = some (.stores reg offset) := by
  obtain ⟨_ | _, abi⟩ := target
  · exact if_pos rfl
  · rfl

theorem Target.loadRegister_use (reg : Reg) (offset : Nat) :
    target.stackUse? (target.loadRegister reg offset) = some (.loads reg offset) := by
  obtain ⟨_ | _, abi⟩ := target
  · exact if_pos rfl
  · rfl

def Target.Ends (last : Option StackUse) (final : List Statement) : Prop :=
  match target.architecture with
  | .mips32 => ∃ delayed, final = [.mips (.jumpRegister target.abi.returnAddress), delayed] ∧
    match last with
    | some use => target.stackUse? delayed = some use
    | none => delayed = .mips .nop
  | .aarch64 => ∃ before, final = before ++ [.aarch64 .ret] ∧
    before.map target.stackUse? = last.toList.map some

theorem Target.returnAfter_none : target.Ends none (target.returnAfter none) := by
  obtain ⟨_ | _, abi⟩ := target
  · exact ⟨_, rfl, rfl⟩
  · exact ⟨[], rfl, rfl⟩

theorem Target.returnAfter_some (use : StackUse) (statement : Statement)
    (uses : target.stackUse? statement = some use) :
    target.Ends (some use) (target.returnAfter (some statement)) := by
  obtain ⟨_ | _, abi⟩ := target
  · exact ⟨_, rfl, uses⟩
  · exact ⟨[statement], rfl, congrArg (· :: []) uses⟩

end uses

namespace Frame
open Target

section rounding

theorem roundUp_least (bytes align : Nat) (positive : 0 < align) :
    IsLeast {size | align ∣ size ∧ bytes ≤ size} (roundUp bytes align) := by
  refine ⟨⟨Nat.dvd_of_mod_eq_zero (roundUp_multiple bytes align),
    le_roundUp bytes align positive⟩, ?_⟩
  rintro size ⟨⟨count, rfl⟩, enough⟩
  -- one more than the multiple below the rounded size is too many
  have below := roundUp_lt bytes align positive
  have fewer : (bytes + align - 1) / align < count + 1 := by
    apply (Nat.div_lt_iff_lt_mul positive).mpr
    rw [Nat.succ_mul, Nat.mul_comm count align]
    omega
  rw [roundUp, Nat.mul_comm]
  exact Nat.mul_le_mul_left align (Nat.le_of_lt_succ fewer)

end rounding

section layout

def bytesAt (frame : Frame) (offset : Nat) : Set Nat := Set.Ico offset (offset + frame.slotSize)

theorem slots_disjoint (frame : Frame) : frame.slots.Pairwise fun first second =>
    Disjoint (frame.bytesAt first.2) (frame.bytesAt second.2) :=
  frame.slots_ascend.imp fun before =>
    Set.Ico_disjoint_Ico.mpr ((Nat.min_le_left _ _).trans (before.trans (Nat.le_max_right _ _)))

theorem slots_within (frame : Frame) (roomy : frame.saved.length * frame.slotSize ≤ frame.size)
    (slot : Reg × Nat) (member : slot ∈ frame.slots) :
    frame.bytesAt slot.2 ⊆ Set.Ico 0 frame.size := by
  obtain ⟨⟨reg, index⟩, numbered, rfl⟩ := List.mem_map.mp member
  have bound := (List.getElem?_eq_some_iff.mp (List.mk_mem_zipIdx_iff_getElem?.mp numbered)).1
  have last : (index + 1) * frame.slotSize ≤ frame.size :=
    Nat.le_trans (Nat.mul_le_mul_right frame.slotSize bound) roomy
  apply Set.Ico_subset_Ico (Nat.zero_le _)
  rwa [Nat.succ_mul] at last

/-- What is promised of the frame for some used registers, with the statements that take it and
give it back. -/
structure LaidOut (target : Target) (used : List Reg) (frame : Frame)
    (prologue epilogue : List Statement) : Prop where
  saved : frame.saved = used.filter fun reg => reg ∈ target.abi.calleeSaved
  slotSize : frame.slotSize = target.abi.slotSize.toNat
  tight : IsLeast {bytes | target.abi.stackAlign.toNat ∣ bytes ∧
    frame.saved.length * target.abi.slotSize.toNat ≤ bytes} frame.size
  bare : frame.size = 0 ↔ frame.saved = []
  slots : frame.slots.map Prod.fst = frame.saved
  apart : frame.slots.Pairwise fun first second =>
    Disjoint (frame.bytesAt first.2) (frame.bytesAt second.2)
  within : ∀ slot ∈ frame.slots, frame.bytesAt slot.2 ⊆ Set.Ico 0 frame.size
  takes : prologue.map target.stackUse? =
    if frame.saved = [] then []
    else some (.moves (-frame.size)) :: frame.slots.map fun slot => some (.stores slot.1 slot.2)
  gives : ∃ loads final, epilogue = loads ++ final ∧
    loads.map target.stackUse? = frame.slots.map (fun slot => some (.loads slot.1 slot.2)) ∧
    target.Ends (if frame.saved = [] then none else some (.moves frame.size)) final

/-- The frame is empty exactly if nothing is saved, as a slot is never empty. -/
theorem ideal_bare_iff {abi : Abi} (slotted : 0 < abi.slotSize.toNat)
    (positive : 0 < abi.stackAlign.toNat) (used : List Reg) :
    (ideal abi used).size = 0 ↔ (ideal abi used).saved = [] := by
  constructor
  · intro nothing
    have roomy : (ideal abi used).saved.length * abi.slotSize.toNat ≤ (ideal abi used).size :=
      le_roundUp _ _ positive
    rw [nothing, Nat.le_zero, Nat.mul_eq_zero] at roomy
    exact List.length_eq_zero_iff.mp (roomy.resolve_right (Nat.ne_of_gt slotted))
  · intro none
    show roundUp ((ideal abi used).saved.length * abi.slotSize.toNat) abi.stackAlign.toNat = 0
    rw [none, List.length_nil, Nat.zero_mul, roundUp_zero _ positive]

/-- Both move the stack pointer by the size as a signed word. -/
theorem prologue_adjusts (target : Target) (frame : Frame) (sized : frame.Sized) :
    ∃ prologue, frame.prologue? target = some prologue ∧ prologue.map target.stackUse? =
      if frame.saved = [] then []
      else some (.moves (-frame.adjustment)) ::
        frame.slots.map fun slot => some (.stores slot.1 slot.2) := by
  rw [prologue_eq frame target sized.1]
  by_cases bare : frame.saved = []
  · exact ⟨[], by rw [if_pos bare], by rw [if_pos bare]; rfl⟩
  · have takable : frame.size ≠ 0x80000000 := sized.2.resolve_left bare
    refine ⟨_, by rw [if_neg bare, if_neg takable], ?_⟩
    rw [if_neg bare, List.map_cons, target.adjustStack_use, List.map_map]
    exact congrArg _ (List.map_congr_left fun slot _ => target.storeRegister_use slot.1 slot.2)

theorem epilogue_adjusts (target : Target) (frame : Frame) :
    ∃ loads final, frame.epilogue target = loads ++ final ∧
      loads.map target.stackUse? = frame.slots.map (fun slot => some (.loads slot.1 slot.2)) ∧
      target.Ends (if frame.saved = [] then none else some (.moves frame.adjustment)) final := by
  refine ⟨_, _, rfl, ?_, ?_⟩
  · rw [List.map_map]
    exact List.map_congr_left fun slot _ => target.loadRegister_use slot.1 slot.2
  · simp only [isEmpty, List.isEmpty_iff]
    split
    · exact target.returnAfter_none
    · exact target.returnAfter_some _ _ (target.adjustStack_use frame.adjustment)

theorem prologue_uses (target : Target) (frame : Frame) (small : frame.size < 2 ^ 31) :
    ∃ prologue, frame.prologue? target = some prologue ∧ prologue.map target.stackUse? =
      if frame.saved = [] then []
      else some (.moves (-frame.size)) ::
        frame.slots.map fun slot => some (.stores slot.1 slot.2) := by
  have adjusts := prologue_adjusts target frame
    ⟨Nat.lt_trans small (by decide), .inr (Nat.ne_of_lt small)⟩
  rwa [frame.adjustment_small small] at adjusts

theorem epilogue_uses (target : Target) (frame : Frame) (small : frame.size < 2 ^ 31) :
    ∃ loads final, frame.epilogue target = loads ++ final ∧
      loads.map target.stackUse? = frame.slots.map (fun slot => some (.loads slot.1 slot.2)) ∧
      target.Ends (if frame.saved = [] then none else some (.moves frame.size)) final := by
  have adjusts := epilogue_adjusts target frame
  rwa [frame.adjustment_small small] at adjusts

/-- Every list of used registers has its frame, with a prologue and an epilogue that agree. -/
theorem frame_laid_out (target : Target) (used : List Reg) (slotted : 1 ≤ target.abi.slotSize)
    (aligned : ∃ exponent, target.abi.stackAlign.toNat = 2 ^ exponent)
    (bounded : roundUp ((used.filter fun reg => reg ∈ target.abi.calleeSaved).length *
      target.abi.slotSize.toNat) target.abi.stackAlign.toNat < 2 ^ 31) :
    ∃ frame prologue, ofRegisters? target.abi used = some frame ∧
      frame.prologue? target = some prologue ∧
      LaidOut target used frame prologue (frame.epilogue target) := by
  have room : 0 < target.abi.slotSize.toNat := UInt32.le_iff_toNat_le.mp slotted
  have positive : 0 < target.abi.stackAlign.toNat := by
    obtain ⟨exponent, power⟩ := aligned
    exact power ▸ Nat.two_pow_pos exponent
  let frame := ideal target.abi used
  have saved : frame.saved = used.filter fun reg => reg ∈ target.abi.calleeSaved := by
    apply List.filter_congr
    intro reg member
    exact List.contains_eq_mem reg target.abi.calleeSaved
  have small : frame.size < 2 ^ 31 := by
    rw [← saved] at bounded
    exact bounded
  have framed : ofRegisters? target.abi used = some frame := by
    rw [ofRegisters_ideal positive, if_pos (Nat.lt_trans small (by decide))]
  have tight := roundUp_least (frame.saved.length * frame.slotSize) _ positive
  obtain ⟨prologue, taken, takes⟩ := prologue_uses target frame small
  refine ⟨frame, prologue, framed, taken, ?_⟩
  exact {
    saved, takes, tight
    slotSize := rfl
    bare := ideal_bare_iff room positive used
    slots := frame.slot_registers
    apart := frame.slots_disjoint
    within := frame.slots_within tight.1.2
    gives := epilogue_uses target frame small }

/-- Three registers of o32 are used, of which two are saved. -/
theorem frame_laid_out_two : ∃ frame prologue,
    ofRegisters? (stock .mips32).abi [8, 17, 16] = some frame ∧
      frame.prologue? (stock .mips32) = some prologue ∧
      LaidOut (stock .mips32) [8, 17, 16] frame prologue (frame.epilogue (stock .mips32)) :=
  frame_laid_out (stock .mips32) [8, 17, 16] (by decide) ⟨3, rfl⟩ (by decide)

end layout

end Frame
end Microbench
