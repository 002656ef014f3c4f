import Microbench.Random.Below
/-! Shuffling by swaps from the back. Partners are drawn first and swapped by later, so what
holds of every list of partners holds of every stream. -/
namespace Microbench.Random

/-- The partners for positions `last`, `last - 1`, …, 1, each at most its position, after
those drawn before. -/
def drawSwapsAfter (drawn : Array Nat) : Nat → Stream → Array Nat × Stream
  | 0, stream => (drawn, stream)
  | last + 1, stream =>
    let (partner, rest) := below (last + 2) stream
    drawSwapsAfter (drawn.push partner) last rest

def drawSwaps (count : Nat) (stream : Stream) : List Nat × Stream :=
  let (drawn, rest) := drawSwapsAfter #[] (count - 1) stream
  (drawn.toList, rest)

def applySwaps {α : Type} : Nat → List Nat → Array α → Array α
  | last + 1, partner :: rest, items =>
    applySwaps last rest (items.swapIfInBounds (last + 1) partner)
  | _, _, items => items

def shuffled (count : Nat) (partners : List Nat) : List Nat :=
  (applySwaps (count - 1) partners (Array.range count)).toList

theorem applySwaps_perm {α : Type} (last : Nat) (partners : List Nat) (items : Array α) :
    (applySwaps last partners items).Perm items := by
  induction partners generalizing last items with
  | nil => cases last <;> exact Array.Perm.refl items
  | cons partner rest ih =>
    cases last with
    | zero => exact Array.Perm.refl items
    | succ last =>
      apply (ih last _).trans
      unfold Array.swapIfInBounds
      split
      · split
        · exact Array.swap_perm ..
        · exact Array.Perm.refl items
      · exact Array.Perm.refl items

theorem shuffled_perm (count : Nat) (partners : List Nat) :
    (shuffled count partners).Perm (List.range count) := by
  have moved := applySwaps_perm (count - 1) partners (Array.range count)
  unfold shuffled
  simpa using Array.perm_iff_toList_perm.mp moved

end Microbench.Random
