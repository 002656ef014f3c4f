import Microbench.Proofs.Mips.Processor
import Microbench.Proofs.WrittenLine
/-!
MIPS32 instructions read from a line of source.

The reader splits a line and reads the operands by the mnemonic. It knows the one spelling
of every instruction that the generators use, and it refuses operands that have no room in
their fields. What fits is read back from its text.
-/
namespace Microbench.Mips
open Text

section operands

def register? (operand : String) : Option Reg :=
  match marked? '$' operand.toList with
  | some number => if number < 32 then some (Reg.ofNat number) else none
  | none => none

def literal? (operand : String) : Option Literal :=
  match marked? '-' operand.toList with
  | some magnitude => if magnitude ≤ 32768 then some (.minus magnitude) else none
  | none => match decimal? operand.toList with
    | some magnitude => if magnitude < 32768 then some (.plus magnitude) else none
    | none => none

def half? (operand : String) : Option UInt16 :=
  match decimal? operand.toList with
  | some number => if number < 65536 then some (UInt16.ofNat number) else none
  | none => none

def label? (operand : String) : Option String :=
  if operand.toList.head? = some '$' then none else some operand

def place? (operand : String) : Option (Nat × Reg) :=
  let offset := operand.toList.takeWhile (· ≠ '(')
  let base := (operand.toList.dropWhile (· ≠ '(')).drop 1
  match decimal? offset, register? (String.ofList base.dropLast) with
  | some offset, some base =>
    if operand.toList.getLast? = some ')' ∧ offset < 32768 then some (offset, base) else none
  | _, _ => none

end operands

def read? (line : String) : Option Instruction :=
  let parts := Statement.split line
  match parts.mnemonic, parts.operands with
  | "j", [target] =>
    match register? target with
    | some rs => some (.jumpRegister rs)
    | none => (label? target).map .jump
  | "nop", [] => some .nop
  | "bne", [first, second, target] => do
    return .branchNotEqual (← register? first) (← register? second) (← label? target)
  | "bgtzl", [first, target] => do
    return .branchPositiveLikely (← register? first) (← label? target)
  | "addiu", [into, first, constant] => do
    return .addImmediate (← register? into) (← register? first) (← literal? constant)
  | "mul", [into, first, second] => do
    return .multiply (← register? into) (← register? first) (← register? second)
  | "lui", [into, constant] => do
    return .loadUpper (← register? into) (← half? constant)
  | "ori", [into, first, constant] => do
    return .orImmediate (← register? into) (← register? first) (← half? constant)
  | "sw", [source, place] => do
    let (offset, base) ← place? place
    return .storeWord (← register? source) offset base
  | "lw", [into, place] => do
    let (offset, base) ← place? place
    return .loadWord (← register? into) offset base
  | _, _ => none

section fitting

def Nameable (reg : Reg) : Prop := reg.number.val < 32

def LabelFits (label : String) : Prop := Solid label.toList ∧ label.toList.head? ≠ some '$'

def LiteralFits : Literal → Prop
  | .plus magnitude => magnitude < 32768
  | .minus magnitude => magnitude ≤ 32768

def Instruction.Fits : Instruction → Prop
  | .jump label => LabelFits label
  | .jumpRegister rs => Nameable rs
  | .nop => True
  | .branchNotEqual rs rt label => Nameable rs ∧ Nameable rt ∧ LabelFits label
  | .branchPositiveLikely rs label => Nameable rs ∧ LabelFits label
  | .addImmediate rt rs immediate => Nameable rt ∧ Nameable rs ∧ LiteralFits immediate
  | .multiply rd rs rt => Nameable rd ∧ Nameable rs ∧ Nameable rt
  | .loadUpper rt _ => Nameable rt
  | .orImmediate rt rs _ => Nameable rt ∧ Nameable rs
  | .storeWord rt offset base | .loadWord rt offset base =>
    Nameable rt ∧ Nameable base ∧ offset < 32768

theorem toList_registerText (reg : Reg) :
    (registerText reg).toList = '$' :: Nat.toDigits 10 reg.number.val := by
  simp [registerText, Reg.digits]

theorem solid_registerText (reg : Reg) : Solid (registerText reg).toList := by
  rw [toList_registerText]
  exact solid_numbered ['$'] _ (by decide)

theorem register_text (reg : Reg) (fits : Nameable reg) : register? (registerText reg) = some reg := by
  rw [register?, toList_registerText, marked_digits]
  exact (if_pos fits).trans (congrArg some reg.ofNat_number)

theorem toList_literalText (literal : Literal) : literal.text.toList = match literal with
    | .plus magnitude => Nat.toDigits 10 magnitude
    | .minus magnitude => '-' :: Nat.toDigits 10 magnitude := by
  cases literal <;> simp [Literal.text]

theorem solid_literalText (literal : Literal) : Solid literal.text.toList := by
  rw [toList_literalText]
  cases literal with
  | plus magnitude => exact solid_digits magnitude
  | minus magnitude => exact solid_numbered ['-'] magnitude (by decide)

theorem literal_text (literal : Literal) (fits : LiteralFits literal) :
    literal? literal.text = some literal := by
  rw [literal?, toList_literalText]
  cases literal with
  | minus magnitude =>
      rw [marked_digits]
      exact if_pos fits
  | plus magnitude =>
      have unsigned : marked? '-' (Nat.toDigits 10 magnitude) = none := by
        obtain ⟨c, rest, digits⟩ := List.exists_cons_of_ne_nil (Nat.toDigits_ne_nil (n := magnitude) (b := 10))
        have digit := digit_of_mem magnitude c (by simp [digits])
        rw [digits, marked?, if_neg]
        rintro rfl
        exact absurd digit (by decide)
      simp only [unsigned, decimal_digits]
      exact if_pos fits

theorem half_text (half : UInt16) : half? (toString half.toNat) = some half := by
  have bound : half.toNat < 65536 := half.toNat_lt
  simp [half?, decimal_digits, bound]

theorem label_text (label : String) (fits : LabelFits label) : label? label = some label :=
  if_neg fits.2

theorem label_unregistered (label : String) (fits : LabelFits label) : register? label = none := by
  obtain ⟨c, rest, same⟩ := List.exists_cons_of_ne_nil fits.1.1
  have other : c ≠ '$' := by simpa [same] using fits.2
  simp [register?, same, marked?, other]

def placeText (offset : Nat) (base : Reg) : String :=
  toString offset ++ "(" ++ registerText base ++ ")"

theorem toList_placeText (offset : Nat) (base : Reg) : (placeText offset base).toList =
    Nat.toDigits 10 offset ++ '(' :: ((registerText base).toList ++ [')']) := by
  simp [placeText]

theorem solid_placeText (offset : Nat) (base : Reg) : Solid (placeText offset base).toList := by
  rw [toList_placeText]
  apply solid_append _ _ (solid_digits offset)
  intro c member
  rw [List.mem_cons, List.mem_append, List.mem_singleton] at member
  rcases member with rfl | register | rfl
  · decide
  · exact (solid_registerText base).2 c register
  · decide

theorem place_text (offset : Nat) (base : Reg) (fits : Nameable base) (near : offset < 32768) :
    place? (placeText offset base) = some (offset, base) := by
  have digits : ∀ c ∈ Nat.toDigits 10 offset, decide (c ≠ '(') = true := by
    intro c member
    have digit := digit_of_mem offset c member
    simp only [ne_eq, decide_eq_true_eq]
    rintro rfl
    exact absurd digit (by decide)
  rw [place?, toList_placeText, List.takeWhile_append_of_pos digits,
    List.dropWhile_append_of_pos digits]
  have ended : (Nat.toDigits 10 offset ++ '(' :: ((registerText base).toList ++ [')'])).getLast? =
      some ')' := by
    rw [← List.cons_append, ← List.append_assoc, List.getLast?_concat]
  have inner : ((('(' :: ((registerText base).toList ++ [')'])).dropWhile (· ≠ '(')).drop 1).dropLast =
      (registerText base).toList := by simp
  have outer : ('(' :: ((registerText base).toList ++ [')'])).takeWhile (· ≠ '(') = [] := by simp
  simp only [inner, outer, List.append_nil, decimal_digits, String.ofList_toList,
    register_text base fits, ended, near, and_self, ↓reduceIte]

end fitting

section reading
open Statement (Parts split mnemonic_spelt split_spelt)

namespace Instruction

def parts : Instruction → Parts
  | .jump label => ⟨"j", [label]⟩
  | .jumpRegister rs => ⟨"j", [registerText rs]⟩
  | .nop => ⟨"nop", []⟩
  | .branchNotEqual rs rt label => ⟨"bne", [registerText rs, registerText rt, label]⟩
  | .branchPositiveLikely rs label => ⟨"bgtzl", [registerText rs, label]⟩
  | .addImmediate rt rs immediate =>
    ⟨"addiu", [registerText rt, registerText rs, immediate.text]⟩
  | .multiply rd rs rt => ⟨"mul", [registerText rd, registerText rs, registerText rt]⟩
  | .loadUpper rt immediate => ⟨"lui", [registerText rt, toString immediate.toNat]⟩
  | .orImmediate rt rs immediate =>
    ⟨"ori", [registerText rt, registerText rs, toString immediate.toNat]⟩
  | .storeWord rt offset base => ⟨"sw", [registerText rt, placeText offset base]⟩
  | .loadWord rt offset base => ⟨"lw", [registerText rt, placeText offset base]⟩

def goesTo? : Instruction → Option String
  | .jump label | .branchNotEqual _ _ label | .branchPositiveLikely _ label => some label
  | _ => none

theorem text_spelt (instruction : Instruction) :
    instruction.text.toList = instruction.parts.spelt [] := by
  cases instruction <;> simp [text, parts, Parts.spelt, placeText, List.intercalate]

theorem mnemonic_solid (instruction : Instruction) : Solid instruction.parts.mnemonic.toList := by
  cases instruction <;> simp only [parts] <;> decide

theorem mnemonic_text (instruction : Instruction) :
    (split instruction.text).mnemonic = instruction.parts.mnemonic :=
  mnemonic_spelt instruction.mnemonic_solid instruction.text_spelt

theorem operands_solid (instruction : Instruction)
    (named : ∀ label ∈ instruction.goesTo?, Solid label.toList) :
    ∀ operand ∈ instruction.parts.operands, Solid operand.toList := by
  cases instruction
  case jump label => exact List.forall_mem_singleton.mpr (named label rfl)
  case branchNotEqual rs rt label => simp [parts, solid_registerText, named label rfl]
  case branchPositiveLikely rs label => simp [parts, solid_registerText, named label rfl]
  all_goals simp [parts, solid_registerText, solid_literalText, solid_digits, solid_placeText]

/-- A line of source comes apart into what it was written from. -/
theorem split_text (instruction : Instruction)
    (named : ∀ label ∈ instruction.goesTo?, Solid label.toList) :
    split instruction.text = instruction.parts :=
  split_spelt instruction.mnemonic_solid instruction.text_spelt (List.forall_mem_nil _)
    fun operand member => whole_of_solid _ (instruction.operands_solid named operand member)

theorem Fits.labels {instruction : Instruction} (fits : instruction.Fits) :
    ∀ label ∈ instruction.goesTo?, LabelFits label := by
  intro label named
  cases instruction
  case jump => cases named; exact fits
  case branchNotEqual => cases named; exact fits.2.2
  case branchPositiveLikely => cases named; exact fits.2
  all_goals cases named

end Instruction

/-- The reader gives back every instruction that fits. -/
theorem read_text (instruction : Instruction) (fits : instruction.Fits) :
    read? instruction.text = some instruction := by
  rw [read?, instruction.split_text fun label named => (fits.labels label named).1]
  cases instruction with
  | jump label => simp [Instruction.parts, label_unregistered label fits, label_text label fits]
  | jumpRegister rs => simp [Instruction.parts, register_text rs fits]
  | nop => rfl
  | branchNotEqual rs rt label =>
      obtain ⟨first, second, target⟩ := fits
      simp [Instruction.parts, register_text, label_text, first, second, target]
  | branchPositiveLikely rs label =>
      obtain ⟨first, target⟩ := fits
      simp [Instruction.parts, register_text, label_text, first, target]
  | addImmediate rt rs immediate =>
      obtain ⟨into, first, constant⟩ := fits
      simp [Instruction.parts, register_text, literal_text, into, first, constant]
  | multiply rd rs rt =>
      obtain ⟨into, first, second⟩ := fits
      simp [Instruction.parts, register_text, into, first, second]
  | loadUpper rt immediate =>
      simp only [Instruction.parts, register_text rt fits, half_text]
      rfl
  | orImmediate rt rs immediate =>
      obtain ⟨into, first⟩ := fits
      simp only [Instruction.parts, register_text rt into, register_text rs first, half_text]
      rfl
  | storeWord rt offset base | loadWord rt offset base =>
      obtain ⟨other, named, near⟩ := fits
      simp [Instruction.parts, register_text, place_text, other, named, near]

def instructionSet : InstructionSet where
  width := 32
  Flags := Unit
  Instruction := Instruction
  read? := read?
  execute := Instruction.execute
  reads := Instruction.reads
  writes := Instruction.writes
  touchesMemory := Instruction.touchesMemory
  isMultiply := Instruction.isMultiply
  lowers? := Instruction.lowers?
  wide := Nat.le_refl 32
  keeps := execute_keeps
  depends := execute_depends
  ignores := execute_ignores
  lowered := execute_lowered

end reading

end Microbench.Mips
