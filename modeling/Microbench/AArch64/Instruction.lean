import Microbench.Immediate
import Microbench.Register
/-! The AArch64 instructions that the generators use. Arithmetic is on the narrow (32-bit)
views of the registers, and register 31 is the stack pointer in either view. -/
namespace Microbench.AArch64

/-- The two conditions on which a branch is taken: no borrow, and signed greater. -/
inductive Condition where
  | carrySet
  | greater
deriving DecidableEq

inductive Instruction where
  | branch (label : String)
  | branchIf (condition : Condition) (label : String)
  | ret
  | subtractSettingFlags (rd rn : Reg) (immediate : Nat)
  | subtract (rd rn : Reg) (immediate : Nat)
  | compare (rn : Reg) (immediate : Nat)
  | move (rd rn : Reg)
  | moveImmediate (rd : Reg) (immediate : UInt16)
  | multiply (rd rn rm : Reg)
  | moveUpperZeroing (rd : Reg) (immediate : UInt16)
  | moveLowerKeeping (rd : Reg) (immediate : UInt16)
  | lowerStack (bytes : Nat)
  | raiseStack (bytes : Nat)
  | store (rt : Reg) (offset : Nat)
  | load (rt : Reg) (offset : Nat)
deriving DecidableEq

def stackPointer : Reg := 31

def wideText (reg : Reg) : String :=
  if reg = stackPointer then "sp" else "x" ++ reg.digits

def narrowText (reg : Reg) : String :=
  if reg = stackPointer then "wsp" else "w" ++ reg.digits

def Condition.text : Condition → String
  | .carrySet => "hs"
  | .greater => "gt"

namespace Instruction

def text : Instruction → String
  | .branch label => "b " ++ label
  | .branchIf condition label => "b." ++ condition.text ++ " " ++ label
  | .ret => "ret"
  | .subtractSettingFlags rd rn immediate =>
    "subs " ++ narrowText rd ++ ", " ++ narrowText rn ++ ", #" ++ toString immediate
  | .subtract rd rn immediate =>
    "sub " ++ narrowText rd ++ ", " ++ narrowText rn ++ ", #" ++ toString immediate
  | .compare rn immediate => "cmp " ++ narrowText rn ++ ", #" ++ toString immediate
  | .move rd rn => "mov " ++ narrowText rd ++ ", " ++ narrowText rn
  | .moveImmediate rd immediate => "mov " ++ narrowText rd ++ ", #" ++ toString immediate.toNat
  | .multiply rd rn rm =>
    "mul " ++ narrowText rd ++ ", " ++ narrowText rn ++ ", " ++ narrowText rm
  | .moveUpperZeroing rd immediate =>
    "movz " ++ narrowText rd ++ ", #" ++ toString immediate.toNat ++ ", lsl #16"
  | .moveLowerKeeping rd immediate =>
    "movk " ++ narrowText rd ++ ", #" ++ toString immediate.toNat
  | .lowerStack bytes => "sub sp, sp, #" ++ toString bytes
  | .raiseStack bytes => "add sp, sp, #" ++ toString bytes
  | .store rt offset => "str " ++ wideText rt ++ ", [sp, #" ++ toString offset ++ "]"
  | .load rt offset => "ldr " ++ wideText rt ++ ", [sp, #" ++ toString offset ++ "]"

end Instruction

def controlMnemonics : List String :=
  ["b", "bl", "br", "ret", "cbz", "cbnz", "b.hs", "b.gt", "b.ne", "b.eq"]

end Microbench.AArch64
