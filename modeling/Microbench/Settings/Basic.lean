import Microbench.CycleFamily
import Microbench.MultiplyFamily
/-! The settings of a run, and what they mean for the generators. -/
namespace Microbench

/-- The architecture, and a pool to use in place of its own unless the list is empty. -/
structure TargetSettings where
  architecture : Architecture := .mips32
  accumulators : List Reg := []
deriving DecidableEq

structure CycleSettings where
  exponent : UInt32 := 14
  symbolStart : String := CycleFamily.defaultSymbolStart
  fileStart : String := "cycle_"
  extension : String := "s"
  header : Bool := false
  headerFile : String := "cycles.h"
deriving DecidableEq

structure MultiplySettings where
  maxWidth : UInt64 := UInt64.ofNat MultiplyFamily.defaultMaxWidth
  unroll : UInt32 := UInt32.ofNat MultiplyFamily.defaultUnroll
  symbolStart : String := MultiplyFamily.defaultSymbolStart
  asmFile : String := "funcs.s"
  headerFile : String := "funcs.h"
deriving DecidableEq

structure OutputSettings where
  directory : String := "."
deriving DecidableEq

structure Settings where
  target : TargetSettings := {}
  cycle : CycleSettings := {}
  multiply : MultiplySettings := {}
  output : OutputSettings := {}
deriving DecidableEq

def TargetSettings.pool? (settings : TargetSettings) : Option (List Reg) :=
  if settings.accumulators.isEmpty then none else some settings.accumulators

def CycleSettings.fileName (settings : CycleSettings) (size : Nat) : String :=
  settings.fileStart ++ toString size ++ "." ++ settings.extension

def Settings.buildTarget (settings : Settings) : Except PoolFault Target :=
  Target.build settings.target.architecture settings.target.pool?

end Microbench
