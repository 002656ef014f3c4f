/-! Constants inside instructions: a decimal literal with its sign, and a 32-bit value cut into
the two halves that a pair of instructions loads. -/
namespace Microbench

/-- A decimal literal as it is written. Minus nought is a spelling of its own. -/
inductive Literal where
  | plus (magnitude : Nat)
  | minus (magnitude : Nat)
deriving DecidableEq

namespace Literal

def ofInt : Int → Literal
  | .ofNat n => .plus n
  | .negSucc n => .minus (n + 1)

def value : Literal → Int
  | .plus n => n
  | .minus n => -n

def text : Literal → String
  | .plus n => toString n
  | .minus n => "-" ++ toString n

theorem value_ofInt (i : Int) : (ofInt i).value = i := by
  cases i with
  | ofNat n => rfl
  | negSucc n => simp only [ofInt, value]; omega

end Literal

structure Halves where
  high : UInt16
  low : UInt16
deriving DecidableEq

namespace Halves

def ofWord (word : UInt32) : Halves := ⟨(word >>> 16).toUInt16, word.toUInt16⟩

def word (halves : Halves) : UInt32 := (halves.high.toUInt32 <<< 16) ||| halves.low.toUInt32

end Halves

end Microbench
