/-! ChaCha with eight rounds, read as a stream of 32-bit words. A 64-bit seed is stretched to a
key by eight steps of a linear congruential generator. -/
namespace Microbench.Random

abbrev Words := Vector UInt32 16

def rotateLeft (word : UInt32) (count : UInt32) : UInt32 :=
  (word <<< count) ||| (word >>> (32 - count))

@[inline] def quarterRound (words : Words) (a b c d : Fin 16) : Words :=
  let words := words.set a (words[a] + words[b])
  let words := words.set d (rotateLeft (words[d] ^^^ words[a]) 16)
  let words := words.set c (words[c] + words[d])
  let words := words.set b (rotateLeft (words[b] ^^^ words[c]) 12)
  let words := words.set a (words[a] + words[b])
  let words := words.set d (rotateLeft (words[d] ^^^ words[a]) 8)
  let words := words.set c (words[c] + words[d])
  words.set b (rotateLeft (words[b] ^^^ words[c]) 7)

def doubleRound (words : Words) : Words :=
  let words := quarterRound words 0 4 8 12
  let words := quarterRound words 1 5 9 13
  let words := quarterRound words 2 6 10 14
  let words := quarterRound words 3 7 11 15
  let words := quarterRound words 0 5 10 15
  let words := quarterRound words 1 6 11 12
  let words := quarterRound words 2 7 8 13
  quarterRound words 3 4 9 14

/-- The words before the rounds: four constants, the key, the counter with its low word
first, and a stream number of nought. -/
def initialWords (key : Vector UInt32 8) (counter : UInt64) : Words :=
  #v[0x61707865, 0x3320646e, 0x79622d32, 0x6b206574,
    key[0], key[1], key[2], key[3], key[4], key[5], key[6], key[7],
    counter.toUInt32, (counter >>> 32).toUInt32, 0, 0]

def block (key : Vector UInt32 8) (counter : UInt64) : List UInt32 :=
  let start := initialWords key counter
  let mixed := doubleRound (doubleRound (doubleRound (doubleRound start)))
  (mixed.zipWith (· + ·) start).toList

structure Stream where
  key : Vector UInt32 8
  counter : UInt64 := 0
  ready : List UInt32 := []
deriving DecidableEq

namespace Stream

/-- The next word. A block has sixteen, so an empty one cannot be met. -/
def next (stream : Stream) : UInt32 × Stream :=
  match stream.ready with
  | word :: rest => (word, { stream with ready := rest })
  | [] => match block stream.key stream.counter with
    | word :: rest => (word, ⟨stream.key, stream.counter + 1, rest⟩)
    | [] => (0, { stream with counter := stream.counter + 1 })

def seedStep (state : UInt64) : UInt64 := state * 6364136223846793005 + 11634580027462260723

def seedWord (state : UInt64) : UInt32 :=
  let shifted := (((state >>> 18) ^^^ state) >>> 27).toUInt32
  let count := (state >>> 59).toUInt32
  (shifted >>> count) ||| (shifted <<< ((32 - count) % 32))

def seedWords : Nat → UInt64 → List UInt32
  | 0, _ => []
  | count + 1, state => seedWord (seedStep state) :: seedWords count (seedStep state)

theorem length_seedWords (count : Nat) (state : UInt64) :
    (seedWords count state).length = count := by
  induction count generalizing state with
  | zero => rfl
  | succ count ih => simp [seedWords, ih]

def ofSeed (seed : UInt64) : Stream :=
  { key := ⟨(seedWords 8 seed).toArray, by simp [length_seedWords]⟩ }

end Stream

end Microbench.Random
