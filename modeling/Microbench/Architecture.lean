import Microbench.Abi
/-! The instruction sets that code is generated for, and their stock calling conventions. -/
namespace Microbench

inductive Architecture where
  | mips32
  | aarch64
deriving DecidableEq

namespace Architecture

def name : Architecture → String
  | .mips32 => "mips32"
  | .aarch64 => "aarch64"

def ofName? (name : String) : Option Architecture :=
  if name = "mips32" || name = "mips" then some .mips32
  else if name = "aarch64" || name = "arm64" then some .aarch64
  else none

structure Unknown where
  name : String
deriving DecidableEq

def Unknown.message (unknown : Unknown) : String :=
  "unknown target '" ++ unknown.name ++ "' (expected mips32 or aarch64)"

def parse (name : String) : Except Unknown Architecture :=
  let lowered := name.map Char.toLower
  match ofName? lowered with
  | some architecture => .ok architecture
  | none => .error ⟨lowered⟩

def registers (first last : Nat) : List Reg :=
  (List.range' first (last + 1 - first)).map Reg.ofNat

/-- Ten temporaries come before the eight saved registers in the pool of o32. The loop
counter is the assembler temporary, which the pool never holds. -/
def o32 : Abi where
  argument := 4
  result := 2
  counter := 1
  stackPointer := 29
  returnAddress := 31
  reserved := [0, 3, 5, 6, 7, 26, 27, 28, 30]
  calleeSaved := registers 16 23 ++ [30]
  accumulators := registers 8 15 ++ registers 24 25 ++ registers 16 23
  slotSize := 4
  stackAlign := 8
  registerCount := 32

def aapcs64 : Abi where
  argument := 0
  result := 0
  counter := 9
  stackPointer := 31
  returnAddress := 30
  reserved := registers 1 8 ++ registers 16 18 ++ [29]
  calleeSaved := registers 19 29
  accumulators := registers 10 15 ++ registers 19 28
  slotSize := 8
  stackAlign := 16
  registerCount := 31

def stockAbi : Architecture → Abi
  | .mips32 => o32
  | .aarch64 => aapcs64

end Architecture

end Microbench
