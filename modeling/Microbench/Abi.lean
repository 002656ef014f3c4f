import Microbench.Register
/-! Calling conventions and the check that a pool of accumulator registers fits one: a pool
without a fault holds existing registers, no two alike, none with a role of its own. -/
namespace Microbench

/-- The roles, pool and stack layout of a calling convention. The pool is ordered:
narrow functions take its front, so registers that need no saving come first. -/
structure Abi where
  argument : Reg
  result : Reg
  counter : Reg
  stackPointer : Reg
  returnAddress : Reg
  reserved : List Reg
  calleeSaved : List Reg
  accumulators : List Reg
  slotSize : UInt32
  stackAlign : UInt32
  registerCount : UInt8
deriving DecidableEq

inductive PoolFault where
  | empty
  | missing (reg : Reg) (count : UInt8)
  | repeated (reg : Reg)
  | fixed (reg : Reg)
  | stackLayout (slot align : UInt32)
deriving DecidableEq

def PoolFault.reason : PoolFault → String
  | .empty => "accumulator pool is empty"
  | .missing reg count =>
    s!"register {reg.digits} does not exist (registers are 0..{count.toNat})"
  | .repeated reg => s!"register {reg.digits} is listed more than once"
  | .fixed reg => s!"register {reg.digits} is reserved by the calling convention"
  | .stackLayout slot align =>
    s!"bad stack layout (slot {slot.toNat} bytes, alignment {align.toNat})"

def isPowerOfTwo (n : Nat) : Bool := 1 <<< n.log2 == n

namespace Abi

def maxWidth (abi : Abi) : Nat := abi.accumulators.length

def isCalleeSaved (abi : Abi) (reg : Reg) : Bool := abi.calleeSaved.contains reg

def fixedRegisters (abi : Abi) : List Reg :=
  [abi.argument, abi.result, abi.counter, abi.stackPointer, abi.returnAddress] ++ abi.reserved

/-- The first fault among registers of a pool, after the ones already seen. At one
register a missing one outranks a repeated one, and that one a fixed one. -/
def registerFault? (count : UInt8) (fixed : List Reg) : List Reg → List Reg → Option PoolFault
  | _, [] => none
  | seen, reg :: rest =>
    if count.toNat ≤ reg.number.val then some (.missing reg count)
    else if reg ∈ seen then some (.repeated reg)
    else if reg ∈ fixed then some (.fixed reg)
    else registerFault? count fixed (reg :: seen) rest

def layoutFault? (abi : Abi) : Option PoolFault :=
  if abi.slotSize = 0 || !isPowerOfTwo abi.stackAlign.toNat then
    some (.stackLayout abi.slotSize abi.stackAlign)
  else none

def fault? (abi : Abi) : Option PoolFault :=
  if abi.accumulators = [] then some .empty
  else match registerFault? abi.registerCount abi.fixedRegisters [] abi.accumulators with
    | some fault => some fault
    | none => abi.layoutFault?

def validate (abi : Abi) : Except PoolFault Unit :=
  match abi.fault? with
  | some fault => .error fault
  | none => .ok ()

def withAccumulators (abi : Abi) (pool : List Reg) : Except PoolFault Abi :=
  let replaced := { abi with accumulators := pool }
  match replaced.fault? with
  | some fault => .error fault
  | none => .ok replaced

end Abi

end Microbench
