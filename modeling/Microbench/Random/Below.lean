import Microbench.Random.ChaCha8
/-! Even numbers below a bound. A word times the bound has the number in its high half, and
words whose low half exceeds the zone are drawn again. -/
namespace Microbench.Random

def zone (bound : Nat) : Nat := bound <<< (31 - bound.log2) - 1

/-- Draws until a word is kept, or until this many have been thrown away. -/
def belowWithin (bound : Nat) : Nat → Stream → Nat × Stream
  | 0, stream =>
    let (word, rest) := stream.next
    (word.toNat * bound / UInt32.size, rest)
  | tries + 1, stream =>
    let (word, rest) := stream.next
    let product := word.toNat * bound
    if product % UInt32.size ≤ zone bound then (product / UInt32.size, rest)
    else belowWithin bound tries rest

def below (bound : Nat) (stream : Stream) : Nat × Stream := belowWithin bound 500 stream

end Microbench.Random
