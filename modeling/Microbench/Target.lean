import Microbench.Architecture
import Microbench.Statement
/-!
A target: an instruction set together with the calling convention that code for it obeys.

Each operation gives finished statements, and whatever an instruction set demands beside
them, such as a filled delay slot, is part of what it gives.
-/
namespace Microbench

structure Target where
  architecture : Architecture
  abi : Abi
deriving DecidableEq

namespace Target

def stock (architecture : Architecture) : Target := ⟨architecture, architecture.stockAbi⟩

def build (architecture : Architecture) (pool : Option (List Reg)) : Except PoolFault Target := do
  let abi ← match pool with
    | some pool => architecture.stockAbi.withAccumulators pool
    | none => .ok architecture.stockAbi
  abi.validate
  return ⟨architecture, abi⟩

def name (target : Target) : String := target.architecture.name

def registerText (target : Target) (reg : Reg) : String :=
  match target.architecture with
  | .mips32 => Mips.registerText reg
  | .aarch64 => AArch64.wideText reg

def intRegisterText (target : Target) (reg : Reg) : String :=
  match target.architecture with
  | .mips32 => Mips.registerText reg
  | .aarch64 => AArch64.narrowText reg

/-- The largest decrement that the loop branch can write as an immediate: 16 bits with a
sign on MIPS32, 12 without on AArch64. -/
def maxDecrement (target : Target) : Nat :=
  match target.architecture with
  | .mips32 => 32768
  | .aarch64 => 4095

def controlMnemonics (target : Target) : List String :=
  match target.architecture with
  | .mips32 => Mips.controlMnemonics
  | .aarch64 => AArch64.controlMnemonics

def isControlTransfer (target : Target) (line : String) : Bool :=
  Statement.startsWithOneOf target.controlMnemonics line

section layout

def fileHeader (_ : Target) : List Statement := [.directive .textSection]

/-- A function that writes the loop counter writes the assembler temporary where the
convention counts in it, and the assembler has to be told. -/
def claimsTemporary (target : Target) (writesCounter : Bool) : Bool :=
  writesCounter && target.abi.counter = Mips.assemblerTemporary

def opening (target : Target) (name : String) (writesCounter : Bool) : List Statement :=
  match target.architecture with
  | .mips32 =>
    [.directive (.align 2), .directive (.global name), .directive (.set "nomips16"),
      .directive (.entry name), .directive (.functionType name .atSign),
      .directive (.set "noreorder"), .directive (.set "nomacro")] ++
    (if target.claimsTemporary writesCounter then [.directive (.set "noat")] else []) ++
    [.label name]
  | .aarch64 =>
    [.directive (.align 2), .directive (.global name), .directive (.functionType name .percent),
      .label name]

def closing (target : Target) (name : String) (writesCounter : Bool) : List Statement :=
  match target.architecture with
  | .mips32 =>
    [.directive (.set "reorder"), .directive (.set "macro")] ++
    (if target.claimsTemporary writesCounter then [.directive (.set "at")] else []) ++
    [.directive (.endEntry name), .directive (.size name)]
  | .aarch64 => [.directive (.size name)]

end layout

section instructions

def jump (target : Target) (label : String) : List Statement :=
  match target.architecture with
  | .mips32 => [.mips (.jump label), .mips .nop]
  | .aarch64 => [.aarch64 (.branch label)]

/-- Branches if the counter was not nought, and lowers it whether or not it branches. On
AArch64 the branch is taken when the subtraction borrows nothing. -/
def countedBranch (target : Target) (counter : Reg) (label : String) (decrement : Nat) :
    List Statement :=
  match target.architecture with
  | .mips32 =>
    [.mips (.branchNotEqual counter Mips.zero label),
      .mips (.addImmediate counter counter (.minus decrement))]
  | .aarch64 =>
    [.aarch64 (.subtractSettingFlags counter counter decrement),
      .aarch64 (.branchIf .carrySet label)]

/-- The branch of a loop that mostly repeats: taken while the counter was positive, with
the counter lowered on every round that repeats. -/
def loopBranch (target : Target) (counter : Reg) (label : String) (decrement : Nat) :
    List Statement :=
  match target.architecture with
  | .mips32 =>
    [.mips (.branchPositiveLikely counter label),
      .mips (.addImmediate counter counter (.minus decrement))]
  | .aarch64 =>
    [.aarch64 (.compare counter 0), .aarch64 (.subtract counter counter decrement),
      .aarch64 (.branchIf .greater label)]

def move (target : Target) (rd rs : Reg) : Statement :=
  match target.architecture with
  | .mips32 => .mips (.addImmediate rd rs (.plus 0))
  | .aarch64 => .aarch64 (.move rd rs)

def loadSmall (target : Target) (rd : Reg) (immediate : UInt16) : Statement :=
  match target.architecture with
  | .mips32 => .mips (.addImmediate rd Mips.zero (.plus immediate.toNat))
  | .aarch64 => .aarch64 (.moveImmediate rd immediate)

def multiply (target : Target) (rd ra rb : Reg) : Statement :=
  match target.architecture with
  | .mips32 => .mips (.multiply rd ra rb)
  | .aarch64 => .aarch64 (.multiply rd ra rb)

def loadUpper (target : Target) (rd : Reg) (half : UInt16) : Statement :=
  match target.architecture with
  | .mips32 => .mips (.loadUpper rd half)
  | .aarch64 => .aarch64 (.moveUpperZeroing rd half)

def orLower (target : Target) (rd : Reg) (half : UInt16) : Statement :=
  match target.architecture with
  | .mips32 => .mips (.orImmediate rd rd half)
  | .aarch64 => .aarch64 (.moveLowerKeeping rd half)

def adjustStack (target : Target) (delta : Int) : Statement :=
  match target.architecture with
  | .mips32 =>
    .mips (.addImmediate target.abi.stackPointer target.abi.stackPointer (.ofInt delta))
  | .aarch64 =>
    .aarch64 (if delta < 0 then .lowerStack delta.natAbs else .raiseStack delta.natAbs)

def storeRegister (target : Target) (reg : Reg) (offset : Nat) : Statement :=
  match target.architecture with
  | .mips32 => .mips (.storeWord reg offset target.abi.stackPointer)
  | .aarch64 => .aarch64 (.store reg offset)

def loadRegister (target : Target) (reg : Reg) (offset : Nat) : Statement :=
  match target.architecture with
  | .mips32 => .mips (.loadWord reg offset target.abi.stackPointer)
  | .aarch64 => .aarch64 (.load reg offset)

/-- Returns to the caller. The last useful statement of a function goes into the delay
slot of the return where there is one, and before the return where there is none. -/
def returnAfter (target : Target) (last : Option Statement) : List Statement :=
  match target.architecture with
  | .mips32 =>
    [.mips (.jumpRegister target.abi.returnAddress), last.getD (.mips .nop)]
  | .aarch64 => last.toList ++ [.aarch64 .ret]

end instructions

end Target

end Microbench
