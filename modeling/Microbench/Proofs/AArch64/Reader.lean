import Microbench.Proofs.AArch64.Processor
import Microbench.Proofs.WrittenLine
/-!
AArch64 instructions read from a line of source.

The reader splits a line and reads the operands by the mnemonic. It knows the one spelling
of every instruction that the generators use, and it refuses operands that have no room in
their fields. Only loads, stores and moves of the stack pointer name it. What fits is read
back from its text.
-/
namespace Microbench.AArch64
open Text

section operands

/-- One of the registers 0 to 30, by the letter of its view. -/
def register? (view : Char) (operand : String) : Option Reg :=
  match marked? view operand.toList with
  | some number => if number < 31 then some (Reg.ofNat number) else none
  | none => none

def narrow? (operand : String) : Option Reg := register? 'w' operand

def wide? (operand : String) : Option Reg := register? 'x' operand

def constant? (bound : Nat) (operand : String) : Option Nat :=
  match marked? '#' operand.toList with
  | some number => if number < bound then some number else none
  | none => none

def half? (operand : String) : Option UInt16 := (constant? 65536 operand).map UInt16.ofNat

def slot? (operand : String) : Option Nat :=
  match constant? 32768 (String.ofList operand.toList.dropLast) with
  | some offset =>
    if operand.toList.getLast? = some ']' ∧ offset % 8 = 0 then some offset else none
  | none => none

end operands

def read? (line : String) : Option Instruction :=
  let parts := Statement.split line
  match parts.mnemonic, parts.operands with
  | "b", [target] => some (.branch target)
  | "b.hs", [target] => some (.branchIf .carrySet target)
  | "b.gt", [target] => some (.branchIf .greater target)
  | "ret", [] => some .ret
  | "subs", [into, first, constant] => do
    return .subtractSettingFlags (← narrow? into) (← narrow? first) (← constant? 4096 constant)
  | "sub", ["sp", "sp", constant] => (constant? 4096 constant).map .lowerStack
  | "add", ["sp", "sp", constant] => (constant? 4096 constant).map .raiseStack
  | "sub", [into, first, constant] => do
    return .subtract (← narrow? into) (← narrow? first) (← constant? 4096 constant)
  | "cmp", [first, constant] => do
    return .compare (← narrow? first) (← constant? 4096 constant)
  | "mov", [into, source] =>
    match narrow? source with
    | some rn => (narrow? into).map (.move · rn)
    | none => do return .moveImmediate (← narrow? into) (← half? source)
  | "mul", [into, first, second] => do
    return .multiply (← narrow? into) (← narrow? first) (← narrow? second)
  | "movz", [into, constant, "lsl #16"] => do
    return .moveUpperZeroing (← narrow? into) (← half? constant)
  | "movk", [into, constant] => do return .moveLowerKeeping (← narrow? into) (← half? constant)
  | "str", [source, "[sp", slot] => do return .store (← wide? source) (← slot? slot)
  | "ldr", [into, "[sp", slot] => do return .load (← wide? into) (← slot? slot)
  | _, _ => none

section fitting

def General (reg : Reg) : Prop := reg.number.val < 31

def Instruction.Fits : Instruction → Prop
  | .branch label | .branchIf _ label => Solid label.toList
  | .ret => True
  | .subtractSettingFlags rd rn immediate | .subtract rd rn immediate =>
    General rd ∧ General rn ∧ immediate < 4096
  | .compare rn immediate => General rn ∧ immediate < 4096
  | .move rd rn => General rd ∧ General rn
  | .moveImmediate rd _ | .moveUpperZeroing rd _ | .moveLowerKeeping rd _ => General rd
  | .multiply rd rn rm => General rd ∧ General rn ∧ General rm
  | .lowerStack bytes | .raiseStack bytes => bytes < 4096
  | .store rt offset | .load rt offset => General rt ∧ offset < 32768 ∧ offset % 8 = 0

theorem general_ne (reg : Reg) (general : General reg) : reg ≠ stackPointer := by
  rintro rfl
  exact absurd general (Nat.lt_irrefl 31)

theorem narrow_list (reg : Reg) (general : General reg) :
    (narrowText reg).toList = 'w' :: Nat.toDigits 10 reg.number.val := by
  simp [narrowText, general_ne reg general, Reg.digits]

theorem wide_list (reg : Reg) (general : General reg) :
    (wideText reg).toList = 'x' :: Nat.toDigits 10 reg.number.val := by
  simp [wideText, general_ne reg general, Reg.digits]

theorem narrow_text (reg : Reg) (general : General reg) : narrow? (narrowText reg) = some reg := by
  rw [narrow?, register?, narrow_list reg general, marked_digits]
  exact (if_pos general).trans (congrArg some reg.ofNat_number)

theorem wide_text (reg : Reg) (general : General reg) : wide? (wideText reg) = some reg := by
  rw [wide?, register?, wide_list reg general, marked_digits]
  exact (if_pos general).trans (congrArg some reg.ofNat_number)

theorem whole_narrow (reg : Reg) : Whole (narrowText reg).toList := by
  by_cases general : reg = stackPointer
  · simpa [narrowText, general] using whole_of_solid "wsp".toList (by decide)
  · simpa [narrowText, general, Reg.digits] using whole_of_solid _ (solid_numbered ['w'] _ (by decide))

theorem whole_wide (reg : Reg) : Whole (wideText reg).toList := by
  by_cases general : reg = stackPointer
  · simpa [wideText, general] using whole_of_solid "sp".toList (by decide)
  · simpa [wideText, general, Reg.digits] using whole_of_solid _ (solid_numbered ['x'] _ (by decide))

theorem narrow_ne_sp (reg : Reg) (general : General reg) : narrowText reg ≠ "sp" := by
  intro same
  have lists := congrArg String.toList same
  rw [narrow_list reg general] at lists
  exact absurd (List.cons.inj lists).1 (by decide)

def constantText (number : Nat) : String := "#" ++ toString number

theorem constant_list (number : Nat) :
    (constantText number).toList = '#' :: Nat.toDigits 10 number := by
  simp [constantText]

theorem whole_constant (number : Nat) : Whole (constantText number).toList := by
  rw [constant_list]
  exact whole_of_solid _ (solid_numbered ['#'] number (by decide))

theorem constant_text (bound number : Nat) (fits : number < bound) :
    constant? bound (constantText number) = some number := by
  rw [constant?, constant_list, marked_digits]
  exact if_pos fits

theorem constant_unregistered (number : Nat) : narrow? (constantText number) = none := by
  rw [narrow?, register?, constant_list]
  simp [marked?]

theorem half_text (half : UInt16) : half? (constantText half.toNat) = some half := by
  rw [half?, constant_text 65536 _ half.toNat_lt]
  simp

def slotText (offset : Nat) : String := constantText offset ++ "]"

theorem slot_list (offset : Nat) :
    (slotText offset).toList = ('#' :: Nat.toDigits 10 offset) ++ [']'] := by
  rw [slotText, String.toList_append, constant_list]
  rfl

theorem whole_slot (offset : Nat) : Whole (slotText offset).toList := by
  rw [slot_list]
  exact whole_of_solid _ (solid_append _ _ (solid_numbered ['#'] offset (by decide)) (by decide))

theorem slot_text (offset : Nat) (near : offset < 32768) (aligned : offset % 8 = 0) :
    slot? (slotText offset) = some offset := by
  have inner := constant_text 32768 offset near
  rw [← String.ofList_toList (s := constantText offset), constant_list] at inner
  rw [slot?, slot_list, List.dropLast_concat, inner]
  simp only [List.getLast?_concat]
  simp [aligned]

end fitting

section reading
open Statement (Parts split mnemonic_spelt split_spelt)

namespace Instruction

def parts : Instruction → Parts
  | .branch label => ⟨"b", [label]⟩
  | .branchIf condition label => ⟨"b." ++ condition.text, [label]⟩
  | .ret => ⟨"ret", []⟩
  | .subtractSettingFlags rd rn immediate =>
    ⟨"subs", [narrowText rd, narrowText rn, constantText immediate]⟩
  | .subtract rd rn immediate =>
    ⟨"sub", [narrowText rd, narrowText rn, constantText immediate]⟩
  | .compare rn immediate => ⟨"cmp", [narrowText rn, constantText immediate]⟩
  | .move rd rn => ⟨"mov", [narrowText rd, narrowText rn]⟩
  | .moveImmediate rd immediate => ⟨"mov", [narrowText rd, constantText immediate.toNat]⟩
  | .multiply rd rn rm => ⟨"mul", [narrowText rd, narrowText rn, narrowText rm]⟩
  | .moveUpperZeroing rd immediate =>
    ⟨"movz", [narrowText rd, constantText immediate.toNat, "lsl #16"]⟩
  | .moveLowerKeeping rd immediate => ⟨"movk", [narrowText rd, constantText immediate.toNat]⟩
  | .lowerStack bytes => ⟨"sub", ["sp", "sp", constantText bytes]⟩
  | .raiseStack bytes => ⟨"add", ["sp", "sp", constantText bytes]⟩
  | .store rt offset => ⟨"str", [wideText rt, "[sp", slotText offset]⟩
  | .load rt offset => ⟨"ldr", [wideText rt, "[sp", slotText offset]⟩

def goesTo? : Instruction → Option String
  | .branch label | .branchIf _ label => some label
  | _ => none

theorem text_spelt (instruction : Instruction) :
    instruction.text.toList = instruction.parts.spelt [' '] := by
  cases instruction <;>
    simp [text, parts, Parts.spelt, slotText, constantText, List.intercalate]

theorem mnemonic_solid (instruction : Instruction) : Solid instruction.parts.mnemonic.toList := by
  cases instruction
  case branchIf condition label => cases condition <;> simp only [parts, Condition.text] <;> decide
  all_goals
    simp only [parts]
    decide

theorem mnemonic_text (instruction : Instruction) :
    (split instruction.text).mnemonic = instruction.parts.mnemonic :=
  mnemonic_spelt instruction.mnemonic_solid instruction.text_spelt

theorem operands_whole (instruction : Instruction)
    (named : ∀ label ∈ instruction.goesTo?, Solid label.toList) :
    ∀ operand ∈ instruction.parts.operands, Whole operand.toList := by
  have shift : Whole "lsl #16".toList := ⟨by decide, by decide, rfl, rfl⟩
  have pointer : Whole "sp".toList := whole_of_solid _ (by decide)
  have place : Whole "[sp".toList := whole_of_solid _ (by decide)
  cases instruction
  case branch label | branchIf _ label =>
    exact List.forall_mem_singleton.mpr (whole_of_solid _ (named label rfl))
  all_goals
    simp only [parts, List.forall_mem_cons, List.not_mem_nil, false_implies, implies_true,
      whole_narrow, whole_wide, whole_constant, whole_slot, shift, pointer, place, and_self]

/-- A line of source comes apart into what it was written from. -/
theorem split_text (instruction : Instruction)
    (named : ∀ label ∈ instruction.goesTo?, Solid label.toList) :
    split instruction.text = instruction.parts :=
  split_spelt instruction.mnemonic_solid instruction.text_spelt (by decide)
    (instruction.operands_whole named)

theorem Fits.labels {instruction : Instruction} (fits : instruction.Fits) :
    ∀ label ∈ instruction.goesTo?, Solid label.toList := by
  intro label named
  cases instruction
  case branch | branchIf => cases named; exact fits
  all_goals cases named

end Instruction

/-- The reader gives back every instruction that fits. -/
theorem read_text (instruction : Instruction) (fits : instruction.Fits) :
    read? instruction.text = some instruction := by
  rw [read?, instruction.split_text fits.labels]
  cases instruction with
  | branch label => rfl
  | branchIf condition label => cases condition <;> rfl
  | ret => rfl
  | subtractSettingFlags rd rn immediate =>
      obtain ⟨into, first, small⟩ := fits
      simp [Instruction.parts, narrow_text, constant_text, into, first, small]
  | subtract rd rn immediate =>
      obtain ⟨into, first, small⟩ := fits
      simp [Instruction.parts, narrow_ne_sp, narrow_text, constant_text, into, first, small]
  | compare rn immediate =>
      obtain ⟨first, small⟩ := fits
      simp [Instruction.parts, narrow_text, constant_text, first, small]
  | move rd rn =>
      obtain ⟨into, first⟩ := fits
      simp [Instruction.parts, narrow_text, into, first]
  | moveImmediate rd immediate =>
      have into : General rd := fits
      simp [Instruction.parts, constant_unregistered, narrow_text, half_text, into]
  | multiply rd rn rm =>
      obtain ⟨into, first, second⟩ := fits
      simp [Instruction.parts, narrow_text, into, first, second]
  | moveUpperZeroing rd immediate | moveLowerKeeping rd immediate =>
      have into : General rd := fits
      simp [Instruction.parts, narrow_text, half_text, into]
  | lowerStack bytes | raiseStack bytes => simp [Instruction.parts, constant_text _ _ fits]
  | store rt offset | load rt offset =>
      obtain ⟨other, near, aligned⟩ := fits
      simp [Instruction.parts, wide_text, slot_text, other, near, aligned]

def instructionSet : InstructionSet where
  width := 64
  Flags := Flags
  Instruction := Instruction
  read? := read?
  execute := Instruction.execute
  reads := Instruction.reads
  writes := Instruction.writes
  touchesMemory := Instruction.touchesMemory
  isMultiply := Instruction.isMultiply
  lowers? := Instruction.lowers?
  wide := by decide
  keeps := execute_keeps
  depends := execute_depends
  ignores := execute_ignores
  lowered := execute_lowered

end reading

end Microbench.AArch64
