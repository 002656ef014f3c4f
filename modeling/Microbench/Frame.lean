import Microbench.Target
/-! The stack frame that keeps the registers a function must preserve. Byte counts are 32-bit
words, and a frame whose arithmetic leaves them does not exist. -/
namespace Microbench

/-- Slot `i` of a frame is at offset `i * slotSize` above the stack pointer. -/
structure Frame where
  saved : List Reg
  size : Nat
  slotSize : Nat
deriving DecidableEq

namespace Frame

def roundUp (bytes align : Nat) : Nat := (bytes + align - 1) / align * align

def ofRegisters? (abi : Abi) (used : List Reg) : Option Frame :=
  let saved := used.filter abi.isCalleeSaved
  let slotSize := abi.slotSize.toNat
  let align := abi.stackAlign.toNat
  let bytes := saved.length * slotSize
  let size := roundUp bytes align
  if bytes < UInt32.size && align != 0 && size < UInt32.size then some ⟨saved, size, slotSize⟩
  else none

def isEmpty (frame : Frame) : Bool := frame.saved.isEmpty

def slots (frame : Frame) : List (Reg × Nat) :=
  frame.saved.zipIdx.map fun (reg, index) => (reg, index * frame.slotSize)

/-- The size as a stack adjustment reads it, a signed 32-bit word. -/
def adjustment (frame : Frame) : Int := Int.bmod frame.size UInt32.size

/-- The opposite of the least signed word is no signed word, so a frame of that size cannot be
taken. -/
def prologue? (frame : Frame) (target : Target) : Option (List Statement) :=
  if frame.isEmpty then some []
  else if frame.adjustment = -0x80000000 then none
  else some (target.adjustStack (-frame.adjustment) ::
    frame.slots.map fun (reg, offset) => target.storeRegister reg offset)

def epilogue (frame : Frame) (target : Target) : List Statement :=
  (frame.slots.map fun (reg, offset) => target.loadRegister reg offset) ++
    target.returnAfter (if frame.isEmpty then none else some (target.adjustStack frame.adjustment))

end Frame

end Microbench
