import Microbench.Frame
import Microbench.FunctionTable
import Microbench.GenerationError
import Microbench.Label
import Microbench.Message
import Microbench.Routine
/-!
Functions that keep several multiply chains going at once.

The loop body of width K multiplies each of K accumulators by the loop counter, in turn, as
often as the unroll factor says; no chain reads another's register. The counter starts at
the argument and falls by the unroll factor on every round.
-/
namespace Microbench

structure Shape where
  width : Nat
  unroll : Nat
deriving DecidableEq

namespace Shape

/-- Why a target has no function of a shape. The unroll factor is what the loop branch
subtracts, the width what the pool must hold; the former is looked at first. -/
def error? (shape : Shape) (target : Target) : Option GenerationError :=
  let maxUnroll := target.maxDecrement
  let maxWidth := target.abi.maxWidth
  if shape.unroll < 1 || maxUnroll < shape.unroll then
    some (.unrollOutOfRange shape.unroll maxUnroll target.architecture)
  else if shape.width < 1 || maxWidth < shape.width then
    some (.widthOutOfRange shape.width maxWidth target.architecture)
  else none

def check (width unroll : Nat) (target : Target) : Except GenerationError Shape :=
  match error? ⟨width, unroll⟩ target with
  | some error => .error error
  | none => .ok ⟨width, unroll⟩

def bodyLength (shape : Shape) : Nat := shape.width * shape.unroll

end Shape

structure MultiplyFamily where
  target : Target
  maxWidth : Nat
  unroll : Nat
  symbolStart : String

namespace MultiplyFamily

def defaultMaxWidth : Nat := 16

def defaultUnroll : Nat := 4

def defaultSymbolStart : String := "func"

def create (target : Target) (maxWidth unroll : Nat) (symbolStart : String) :
    Except GenerationError MultiplyFamily :=
  match Shape.error? ⟨maxWidth, unroll⟩ target with
  | some error => .error error
  | none => .ok ⟨target, maxWidth, unroll, symbolStart⟩

def symbol (family : MultiplyFamily) (width : Nat) : String :=
  symbolName family.symbolStart width

def accumulators (family : MultiplyFamily) (width : Nat) : Except GenerationError (List Reg) :=
  match Shape.error? ⟨width, family.unroll⟩ family.target with
  | some error => .error error
  | none => .ok (family.target.abi.accumulators.take width)

def setUp (target : Target) (accumulators : List Reg) : List Statement :=
  let abi := target.abi
  [target.move abi.counter abi.argument] ++
    (if abi.result = abi.argument then [] else [target.move abi.result abi.argument]) ++
    accumulators.zipIdx.map fun (reg, index) => target.loadSmall reg (UInt16.ofNat (index + 1))

def turn (target : Target) (accumulators : List Reg) : List Statement :=
  accumulators.map fun reg => target.multiply reg reg target.abi.counter

def body (target : Target) (accumulators : List Reg) (unroll : Nat) : List Statement :=
  (List.replicate unroll (turn target accumulators)).flatten

def routine (family : MultiplyFamily) (width : Nat) : Except GenerationError Routine := do
  let target := family.target
  let accumulators ← family.accumulators width
  let some frame := Frame.ofRegisters? target.abi accumulators | throw .noFrame
  let some prologue := frame.prologue? target | throw .noFrame
  let name := family.symbol width
  let head := loopLabel width
  return ⟨name,
    target.opening name true ++ prologue ++ setUp target accumulators ++
      [.label head] ++ body target accumulators family.unroll ++
      target.loopBranch target.abi.counter head family.unroll ++
      frame.epilogue target ++ target.closing name true,
    frame.saved⟩

def announcement (family : MultiplyFamily) (width : Nat) (routine : Routine) : Message :=
  let multiplies := (Shape.mk width family.unroll).bodyLength
  let frame := Frame.ofRegisters? family.target.abi (family.target.abi.accumulators.take width)
  let bytes := (frame.map Frame.size).getD 0
  let saved := routine.preserved.length
  ⟨.debug, "ubgen::ilp",
    s!"Generated {routine.name} for {family.target.name} " ++
      s!"({multiplies} multiplies, {saved} saved registers, {bytes} byte frame)"⟩

/-- The functions of these widths up to the first that does not exist, and why it does not. -/
def routines (family : MultiplyFamily) : List Nat → List (Nat × Routine) × Option GenerationError
  | [] => ([], none)
  | width :: rest =>
    match family.routine width with
    | .error error => ([], some error)
    | .ok routine =>
      let (others, error) := family.routines rest
      ((width, routine) :: others, error)

def widths (family : MultiplyFamily) : List Nat := List.range' 1 family.maxWidth

structure Production where
  messages : List Message
  listing : Except GenerationError Listing

def produce (family : MultiplyFamily) : Production :=
  let (routines, error) := family.routines family.widths
  { messages := routines.map fun (width, routine) => family.announcement width routine
    listing := match error with
      | some error => .error error
      | none => .ok { header := family.target.fileHeader, routines := routines.map Prod.snd } }

/-- The table whose entry K is the function of width K; entry 0 is empty. -/
def table (family : MultiplyFamily) : FunctionTable where
  guard := "__funcsh__"
  countMacro := "NUM_FUNCS"
  typedefName := "fn_t"
  tableName := "funcs"
  entries := none :: family.widths.map fun width => some (family.symbol width)

end MultiplyFamily

end Microbench
