import Microbench.FunctionTable
import Microbench.GenerationError
import Microbench.Label
import Microbench.Message
import Microbench.Routine
/-!
Routines that walk a jump chain.

A routine has one block for every label, in the order of the labels, and falls into the
first. Each jumps to its successor but the last, which branches there while the argument is
not nought. So the chain is walked once for every unit of the argument, on top of the walk
that first leads to the last block.
-/
namespace Microbench

structure CycleFamily where
  target : Target
  symbolStart : String

namespace CycleFamily

def defaultSymbolStart : String := "goto_test"

def symbol (family : CycleFamily) (size : Nat) : String := symbolName family.symbolStart size

def block (target : Target) (size : Nat) (edge : Chain.Edge) : List Statement :=
  .label (cycleLabel edge.current) ::
    if edge.current + 1 = size then
      target.countedBranch target.abi.argument (cycleLabel edge.next) 1
    else target.jump (cycleLabel edge.next)

def returnSize (target : Target) (size : Nat) : List Statement :=
  let halves := Halves.ofWord (UInt32.ofNat size)
  target.loadUpper target.abi.result halves.high ::
    target.returnAfter (some (target.orLower target.abi.result halves.low))

def statements (family : CycleFamily) (chain : Chain) : List Statement :=
  let name := family.symbol chain.size
  family.target.opening name false ++
    chain.edges.flatMap (block family.target chain.size) ++
    returnSize family.target chain.size ++
    family.target.closing name false

def emit (family : CycleFamily) (chain : Chain) : Except GenerationError Routine :=
  match chain.flaw? with
  | some flaw => .error (.brokenCycle chain.size flaw)
  | none =>
    if chain.size = 0 then .error .noLabels
    else .ok ⟨family.symbol chain.size, family.statements chain, []⟩

def announcement (family : CycleFamily) (routine : Routine) : Message :=
  ⟨.debug, "ubgen::cycle",
    s!"Generated {routine.name} for {family.target.name} ({routine.statements.length} statements)"⟩

def generate (family : CycleFamily) (size : Nat) (stream : Random.Stream) :
    Except GenerationError Routine × Random.Stream :=
  match Chain.random size stream with
  | (.error refusal, rest) => (.error (.ofRefusal refusal), rest)
  | (.ok chain, rest) => (family.emit chain, rest)

def listing (family : CycleFamily) (routine : Routine) : Listing :=
  (Listing.empty family.target).push routine

def table (family : CycleFamily) (sizes : List Nat) : FunctionTable where
  guard := "__cyclesh__"
  countMacro := "NUM_TESTS"
  typedefName := "test_t"
  tableName := "funcs"
  entries := sizes.map fun size => some (family.symbol size)

end CycleFamily

end Microbench
