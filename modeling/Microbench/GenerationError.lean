import Microbench.Architecture
import Microbench.Chain
/-! Everything that can keep a routine from being generated, by cause. -/
namespace Microbench

inductive GenerationError where
  | size (fault : SizeFault)
  | exponentOutOfRange (exponent : Nat)
  | widthOutOfRange (width max : Nat) (architecture : Architecture)
  | unrollOutOfRange (unroll max : Nat) (architecture : Architecture)
  | pool (fault : PoolFault)
  | brokenCycle (size : Nat) (flaw : Chain.Flaw)
  | noLabels
  /-- The frame's byte counts leave 32 bits, or there is no alignment to round to. -/
  | noFrame
deriving DecidableEq

namespace GenerationError

def ofRefusal : Chain.Refusal → GenerationError
  | .size fault => .size fault
  | .broken labels flaw => .brokenCycle labels flaw

def message : GenerationError → String
  | .size fault => fault.message
  | .exponentOutOfRange exponent =>
    s!"exponent must be in {minExponent}..={maxExponent}, got {exponent}"
  | .widthOutOfRange width max architecture =>
    s!"chain width must be in 1..={max} on {architecture.name}, got {width}"
  | .unrollOutOfRange unroll max architecture =>
    s!"unroll factor must be in 1..={max} on {architecture.name}, got {unroll}"
  | .pool fault => "invalid accumulator register pool: " ++ fault.reason
  | .brokenCycle labels flaw => s!"cycle over {labels} labels is broken: {flaw.reason}"
  | .noLabels => "a cycle needs a label"
  | .noFrame => "the stack frame does not fit its byte counts"

end GenerationError

def sizesForExponent (exponent : Nat) : Except GenerationError (List Nat) :=
  match sizesUpTo? exponent with
  | some sizes => .ok sizes
  | none => .error (.exponentOutOfRange exponent)

end Microbench
