import Mathlib.Algebra.Group.Int.Defs
import Microbench.Proofs.FrameLayout
import Microbench.Proofs.PoolFaults
/-!
How large a frame can be.

A convention is checked to have slots that are not empty and an alignment that is a power of
two, and neither is bounded from above. Below 2^31 bytes the prologue moves the stack pointer
down by the frame and the epilogue moves it up again. Beyond that the size is read as a negative
word: a frame of just 2^31 bytes cannot be taken, a larger one moves the stack pointer the other
way at both ends of the function, and one of 2^32 bytes or more does not exist.
-/
namespace Microbench

def StackUse.amount? : StackUse → Option Int
  | .moves amount => some amount
  | _ => none

/-- What comes of the frame for some registers: there is none, or it has no prologue, or the
two ends of the function move the stack pointer by so many bytes. -/
inductive FrameMoves where
  | frameless
  | stuck
  | moved (taking giving : List Int)
deriving DecidableEq

namespace Target

def stackMoves (target : Target) (statements : List Statement) : List Int :=
  (statements.map target.stackUse?).filterMap fun use => use.bind StackUse.amount?

def frameMoves (target : Target) (used : List Reg) : FrameMoves :=
  match Frame.ofRegisters? target.abi used with
  | none => .frameless
  | some frame =>
    match frame.prologue? target with
    | none => .stuck
    | some prologue =>
      .moved (target.stackMoves prologue) (target.stackMoves (frame.epilogue target))

/-- The frame exists and can be taken, and what saves anything moves the stack pointer down by
its size and up again. -/
def Balances (target : Target) (used : List Reg) : Prop :=
  ∃ frame, Frame.ofRegisters? target.abi used = some frame ∧ target.frameMoves used =
    if frame.saved = [] then .moved [] [] else .moved [-frame.size] [frame.size]

theorem stackMoves_append (target : Target) (front back : List Statement) :
    target.stackMoves (front ++ back) = target.stackMoves front ++ target.stackMoves back := by
  rw [stackMoves, List.map_append, List.filterMap_append]
  rfl

/-- Nothing but the last use of the stack is left for the end of a function. -/
theorem Ends.stackMoves {target : Target} {last : Option StackUse} {final : List Statement}
    (ends : target.Ends last final) :
    target.stackMoves final = (last.bind StackUse.amount?).toList := by
  obtain ⟨_ | _, abi⟩ := target
  · obtain ⟨delayed, rfl, uses⟩ := ends
    cases last with
    | none =>
        subst uses
        rfl
    | some use =>
        have told : [.mips (.jumpRegister abi.returnAddress), delayed].map
            (stackUse? ⟨.mips32, abi⟩) = [none, some use] := congrArg ([none, ·]) uses
        rw [Target.stackMoves, told]
        cases use <;> rfl
  · obtain ⟨before, rfl, uses⟩ := ends
    rw [stackMoves_append, Target.stackMoves, uses]
    rcases last with _ | _ | _ | _ <;> rfl

end Target

namespace Frame
open Target

section moves

variable (target : Target) (frame : Frame)

theorem epilogue_moves : target.stackMoves (frame.epilogue target) =
    if frame.saved = [] then [] else [frame.adjustment] := by
  obtain ⟨loads, final, parts, loaded, ends⟩ := epilogue_adjusts target frame
  have still : target.stackMoves loads = [] := by
    rw [stackMoves, loaded]
    simp [StackUse.amount?]
  rw [parts, stackMoves_append, still, ends.stackMoves]
  split <;> rfl

theorem prologue_moves (sized : frame.Sized) : ∃ prologue, frame.prologue? target = some prologue ∧
    target.stackMoves prologue = if frame.saved = [] then [] else [-frame.adjustment] := by
  obtain ⟨prologue, taken, uses⟩ := prologue_adjusts target frame sized
  refine ⟨prologue, taken, ?_⟩
  rw [stackMoves, uses]
  split
  · rfl
  · simp [StackUse.amount?]

theorem frameMoves_sized (used : List Reg) (made : ofRegisters? target.abi used = some frame)
    (sized : frame.Sized) : target.frameMoves used =
      if frame.saved = [] then .moved [] [] else .moved [-frame.adjustment] [frame.adjustment] := by
  obtain ⟨prologue, taken, moves⟩ := prologue_moves target frame sized
  simp only [frameMoves, made, taken, moves, epilogue_moves]
  split <;> rfl

end moves

section range

variable (target : Target) (used : List Reg)

def expectedMoves (frame : Frame) : FrameMoves :=
  if frame.saved = [] then .moved [] []
  else if frame.size < 2 ^ 31 then .moved [-frame.size] [frame.size]
  else if frame.size = 2 ^ 31 then .stuck
  else if frame.size < 2 ^ 32 then .moved [2 ^ 32 - frame.size] [frame.size - 2 ^ 32]
  else .frameless

theorem frameMoves_ideal (sound : target.abi.Sound) :
    target.frameMoves used = expectedMoves (ideal target.abi used) := by
  have made := ofRegisters_ideal sound.align_pos used
  have bare := ideal_bare_iff sound.slot_pos sound.align_pos used
  generalize ideal target.abi used = frame at made bare ⊢
  -- the cases are those of what is expected
  unfold expectedMoves
  split
  · next none =>
    have small : frame.size < UInt32.size := by
      rw [bare.mpr none]
      decide
    rw [frameMoves_sized target frame used (made.trans (if_pos small)) ⟨small, .inl none⟩,
      if_pos none]
  · next some =>
    split
    · next small =>
      have bounded : frame.size < UInt32.size := Nat.lt_trans small (by decide)
      rw [frameMoves_sized target frame used (made.trans (if_pos bounded))
        ⟨bounded, .inr (Nat.ne_of_lt small)⟩, if_neg some, frame.adjustment_small small]
    · next large =>
      split
      · next least =>
        have bounded : frame.size < UInt32.size := by
          rw [least]
          decide
        have stuck : frame.prologue? target = none := by
          rw [prologue_eq frame target bounded, if_neg some]
          exact if_pos least
        simp only [frameMoves, made.trans (if_pos bounded), stuck]
      · next other =>
        split
        · next bounded =>
          have lifted : -((frame.size : Int) - 4294967296) = 2 ^ 32 - frame.size := by omega
          rw [frameMoves_sized target frame used (made.trans (if_pos bounded)) ⟨bounded, .inr other⟩,
            if_neg some, frame.adjustment_large (Nat.not_lt.mp large) bounded, lifted]
          rfl
        · next huge => simp only [frameMoves, made.trans (if_neg huge)]

theorem expectedMoves_balanced_iff (frame : Frame) : expectedMoves frame =
      (if frame.saved = [] then .moved [] [] else .moved [-frame.size] [frame.size]) ↔
    frame.saved = [] ∨ frame.size < 2 ^ 31 := by
  by_cases none : frame.saved = []
  · simp [expectedMoves, none]
  · by_cases small : frame.size < 2 ^ 31
    · simp only [expectedMoves, none, small, ↓reduceIte, or_true]
    · have apart : (2 : Int) ^ 32 - frame.size ≠ -frame.size := by omega
      simp only [expectedMoves, none, small, or_self, iff_false]
      grind

theorem balances_iff (sound : target.abi.Sound) : target.Balances used ↔
    (ideal target.abi used).saved = [] ∨ (ideal target.abi used).size < 2 ^ 31 := by
  have made := ofRegisters_ideal sound.align_pos used
  have bare := ideal_bare_iff sound.slot_pos sound.align_pos used
  unfold Balances
  rw [made, frameMoves_ideal target used sound, ← expectedMoves_balanced_iff]
  generalize ideal target.abi used = frame at bare ⊢
  constructor
  · rintro ⟨given, found, balanced⟩
    obtain ⟨bounded, rfl⟩ : frame.size < UInt32.size ∧ frame = given := by simpa using found
    exact balanced
  · intro balanced
    refine ⟨frame, if_pos ?_, balanced⟩
    rcases (expectedMoves_balanced_iff frame).mp balanced with none | small
    · rw [bare.mpr none]
      decide
    · exact Nat.lt_trans small (by decide)

theorem slots_below (sound : target.abi.Sound) :
    ∀ slot ∈ (ideal target.abi used).slots, slot.2 < (ideal target.abi used).size := by
  intro slot member
  have inside := slots_within (ideal target.abi used) (le_roundUp _ _ sound.align_pos) slot member
  exact (inside ⟨Nat.le_refl slot.2, Nat.lt_add_of_pos_right sound.slot_pos⟩).2

/-- Over every convention that passes the check and for every list of used registers, a front of
the pool among them: what comes of their frame, by its size. Where there is a frame, its slots
lie below that size. It is taken and given back by moves of its size exactly if nothing is saved
or it is below 2^31 bytes, which the check of the convention does not ask for. -/
theorem stack_moves_told (target : Target) (valid : target.abi.validate = .ok ())
    (used : List Reg) :
    target.frameMoves used = expectedMoves (ideal target.abi used) ∧
      (∀ frame, ofRegisters? target.abi used = some frame →
        frame = ideal target.abi used ∧ frame.size < 2 ^ 32 ∧
          ∀ slot ∈ frame.slots, slot.2 < frame.size) ∧
      (target.Balances used ↔
        (ideal target.abi used).saved = [] ∨ (ideal target.abi used).size < 2 ^ 31) := by
  have sound := target.abi.sound_iff_usable.mpr (target.abi.validate_ok_iff.mp valid)
  refine ⟨frameMoves_ideal target used sound, ?_, balances_iff target used sound⟩
  intro frame made
  rw [ofRegisters_ideal sound.align_pos used] at made
  obtain ⟨bounded, same⟩ := Option.ite_none_right_eq_some.mp made
  cases same
  exact ⟨rfl, bounded, slots_below target used sound⟩

/-- One of two registers is saved, in a slot of 2^30 bytes. -/
theorem stack_moves_told_large :
    let target : Target :=
      ⟨.aarch64, { Architecture.aapcs64 with accumulators := [10, 19], slotSize := 0x40000000 }⟩
    target.abi.validate = .ok () ∧ target.frameMoves [10, 19] = .moved [-0x40000000] [0x40000000] :=
  ⟨by decide, (stack_moves_told _ (by decide) [10, 19]).1⟩

/-- Both conventions pass the check. With slots of 2^31 bytes a frame for one register cannot be
taken and one for two does not exist. With slots of 3 * 2^30 bytes a function begins by moving
the stack pointer up. -/
theorem large_slots_unbalanced :
    let halved : Target :=
      ⟨.mips32, { Architecture.o32 with accumulators := [16, 17], slotSize := 0x80000000 }⟩
    let raised : Target :=
      ⟨.aarch64, { Architecture.aapcs64 with accumulators := [19], slotSize := 0xC0000000 }⟩
    halved.abi.validate = .ok () ∧ ¬ halved.Balances (halved.abi.accumulators.take 1) ∧
      halved.frameMoves [16] = .stuck ∧ halved.frameMoves [16, 17] = .frameless ∧
      raised.abi.validate = .ok () ∧ ¬ raised.Balances (raised.abi.accumulators.take 1) ∧
      raised.frameMoves [19] = .moved [0x40000000] [-0x40000000] := by
  intro halved raised
  have first : halved.abi.Sound := (Abi.fault_none_iff _).mp (by decide)
  have second : raised.abi.Sound := (Abi.fault_none_iff _).mp (by decide)
  refine ⟨by decide, ?_, (frameMoves_ideal halved [16] first).trans (by decide),
    (frameMoves_ideal halved [16, 17] first).trans (by decide), by decide, ?_,
    (frameMoves_ideal raised [19] second).trans (by decide)⟩
  · rw [balances_iff halved _ first]
    decide
  · rw [balances_iff raised _ second]
    decide

end range

end Frame

end Microbench
