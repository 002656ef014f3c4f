import Microbench.Immediate
import Microbench.Register
/-!
The MIPS32 instructions that the generators use.

The statement after a jump or branch sits in its delay slot: it runs before control
moves, and after a likely branch it runs only when the branch is taken.
-/
namespace Microbench.Mips

inductive Instruction where
  | jump (label : String)
  | jumpRegister (rs : Reg)
  | nop
  | branchNotEqual (rs rt : Reg) (label : String)
  | branchPositiveLikely (rs : Reg) (label : String)
  | addImmediate (rt rs : Reg) (immediate : Literal)
  | multiply (rd rs rt : Reg)
  | loadUpper (rt : Reg) (immediate : UInt16)
  | orImmediate (rt rs : Reg) (immediate : UInt16)
  | storeWord (rt : Reg) (offset : Nat) (base : Reg)
  | loadWord (rt : Reg) (offset : Nat) (base : Reg)
deriving DecidableEq

/-- The register that always reads as nought. -/
def zero : Reg := 0

def assemblerTemporary : Reg := 1

def registerText (reg : Reg) : String := "$" ++ reg.digits

namespace Instruction

def text : Instruction → String
  | .jump label => "j " ++ label
  | .jumpRegister rs => "j " ++ registerText rs
  | .nop => "nop"
  | .branchNotEqual rs rt label =>
    "bne " ++ registerText rs ++ "," ++ registerText rt ++ "," ++ label
  | .branchPositiveLikely rs label => "bgtzl " ++ registerText rs ++ "," ++ label
  | .addImmediate rt rs immediate =>
    "addiu " ++ registerText rt ++ "," ++ registerText rs ++ "," ++ immediate.text
  | .multiply rd rs rt =>
    "mul " ++ registerText rd ++ "," ++ registerText rs ++ "," ++ registerText rt
  | .loadUpper rt immediate => "lui " ++ registerText rt ++ "," ++ toString immediate.toNat
  | .orImmediate rt rs immediate =>
    "ori " ++ registerText rt ++ "," ++ registerText rs ++ "," ++ toString immediate.toNat
  | .storeWord rt offset base =>
    "sw " ++ registerText rt ++ "," ++ toString offset ++ "(" ++ registerText base ++ ")"
  | .loadWord rt offset base =>
    "lw " ++ registerText rt ++ "," ++ toString offset ++ "(" ++ registerText base ++ ")"

end Instruction

def controlMnemonics : List String :=
  ["j", "jr", "jal", "b", "beq", "bne", "bgtz", "bgtzl", "bnezl", "blez"]

end Microbench.Mips
