import Microbench.Random.Shuffle
/-!
Jump chains: a successor for every label of `0..n`, meant to be one cycle of length `n`.

A chain that only says "bijection" could fall apart into several cycles. So `Chain.flaw?`
also walks from label 0, and asks that the walk comes back after all labels and no sooner.
-/
namespace Microbench

section sizes

def minSize : Nat := 4

def minExponent : Nat := 2

def maxExponent : Nat := 20

inductive SizeFault where
  | notPowerOfTwo (size : Nat)
  | tooSmall (size : Nat)
  | tooLarge (size : Nat)
deriving DecidableEq

def SizeFault.message : SizeFault → String
  | .notPowerOfTwo size => s!"size must be a power of two, got {size}"
  | .tooSmall size => s!"size must be at least {minSize}, got {size}"
  | .tooLarge size => s!"size must be at most {1 <<< maxExponent}, got {size}"

def sizeFault? (size : Nat) : Option SizeFault :=
  if 1 <<< size.log2 ≠ size then some (.notPowerOfTwo size)
  else if size < minSize then some (.tooSmall size)
  else if 1 <<< maxExponent < size then some (.tooLarge size)
  else none

def sizesUpTo? (exponent : Nat) : Option (List Nat) :=
  if minExponent ≤ exponent && exponent ≤ maxExponent then
    some ((List.range' minExponent (exponent + 1 - minExponent)).map (1 <<< ·))
  else none

end sizes

/-- `successors[label]` is the label that `label` jumps to. -/
structure Chain where
  successors : Array Nat
deriving DecidableEq

namespace Chain

inductive Flaw where
  | notUnique (label size : Nat)
  | jumpsOutside (label : Nat)
  | enteredTwice (label : Nat)
  | closesEarly (label steps : Nat)
  | endsElsewhere (label : Nat)
deriving DecidableEq

def Flaw.reason : Flaw → String
  | .notUnique label size => s!"label {label} is not a unique member of 0..{size}"
  | .jumpsOutside label => s!"label {label} jumps outside the chain"
  | .enteredTwice label => s!"label {label} is entered twice"
  | .closesEarly label steps =>
    s!"walk from 0 closed a sub-cycle at label {label} after {steps} steps"
  | .endsElsewhere label => s!"walk from 0 ended at label {label} instead of 0"

def size (chain : Chain) : Nat := chain.successors.size

def successor? (chain : Chain) (label : Nat) : Option Nat := chain.successors[label]?

structure Edge where
  current : Nat
  next : Nat
deriving DecidableEq

def edges (chain : Chain) : List Edge :=
  chain.successors.toList.zipIdx.map fun (next, current) => ⟨current, next⟩

/-- The first label, from `label` on, whose jump leaves the chain or enters a label that an
earlier one enters. -/
def entryFlaw? : Nat → Array Bool → List Nat → Option Flaw
  | _, _, [] => none
  | label, entered, next :: rest =>
    match entered[next]? with
    | none => some (.jumpsOutside label)
    | some true => some (.enteredTwice next)
    | some false => entryFlaw? (label + 1) (entered.setIfInBounds next true) rest

/-- Walks the steps that are left, marking labels, and reports a label met again too soon
or an end that is not label 0. -/
def walkFlaw? (successors : Array Nat) : Nat → Nat → Array Bool → Nat → Option Flaw
  | 0, _, _, label => if label = 0 then none else some (.endsElsewhere label)
  | left + 1, step, visited, label =>
    if visited[label]?.getD false then some (.closesEarly label step)
    else walkFlaw? successors left (step + 1) (visited.setIfInBounds label true)
      (successors[label]?.getD 0)

def flaw? (chain : Chain) : Option Flaw :=
  match entryFlaw? 0 (Array.replicate chain.size false) chain.successors.toList with
  | some flaw => some flaw
  | none => walkFlaw? chain.successors chain.size 0 (Array.replicate chain.size false) 0

inductive Refusal where
  | size (fault : SizeFault)
  | broken (size : Nat) (flaw : Flaw)
deriving DecidableEq

def links (order : List Nat) : List (Nat × Nat) := order.zip (order.tail ++ order.take 1)

/-- Fills the slots of labels with their successors. A label without a slot, or with a
filled one, stops the filling. -/
def fill : Array (Option Nat) → List (Nat × Nat) → Except Nat (Array (Option Nat))
  | slots, [] => .ok slots
  | slots, (current, next) :: rest =>
    match slots[current]? with
    | some none => fill (slots.setIfInBounds current (some next)) rest
    | _ => .error current

def ofOrder (order : List Nat) : Except Refusal Chain :=
  let size := order.length
  match sizeFault? size with
  | some fault => .error (.size fault)
  | none =>
    match fill (Array.replicate size none) (links order) with
    | .error label => .error (.broken size (.notUnique label size))
    | .ok slots =>
      let chain : Chain := ⟨slots.map (·.getD 0)⟩
      match chain.flaw? with
      | some flaw => .error (.broken size flaw)
      | none => .ok chain

def ofSwaps (size : Nat) (partners : List Nat) : Except Refusal Chain :=
  ofOrder (Random.shuffled size partners)

def random (size : Nat) (stream : Random.Stream) : Except Refusal Chain × Random.Stream :=
  match sizeFault? size with
  | some fault => (.error (.size fault), stream)
  | none =>
    let (partners, rest) := Random.drawSwaps size stream
    (ofSwaps size partners, rest)

end Chain

end Microbench
