import Mathlib.Algebra.Group.Nat.Defs
import Microbench.Proofs.Cycles
/-!
Random chains are single cycles.

A shuffle leaves a permutation whatever partners it is given, and linking a permutation gives
a chain that follows it. So no draw can make a chain fall apart, and the check behind the
linking never has anything to report.
-/
namespace Microbench.Chain

section sizes

/-- The accepted sizes are the powers of two from 4 to 1048576. -/
theorem accepted_iff_power (size : Nat) : sizeFault? size = none ↔
    ∃ exponent, 2 ≤ exponent ∧ exponent ≤ 20 ∧ size = 2 ^ exponent := by
  rw [sizeFault_none_iff, minSize, maxExponent, Nat.one_shiftLeft, Nat.one_shiftLeft]
  constructor
  · rintro ⟨power, least, most⟩
    rw [← power] at least most
    refine ⟨size.log2, ?_, ?_, power.symm⟩
    · exact (Nat.pow_le_pow_iff_right (by decide : 1 < 2)).mp least
    · exact (Nat.pow_le_pow_iff_right (by decide : 1 < 2)).mp most
  · rintro ⟨exponent, least, most, rfl⟩
    rw [Nat.log2_two_pow]
    refine ⟨rfl, ?_, ?_⟩
    · exact Nat.pow_le_pow_right (show 0 < 2 by decide) least
    · exact Nat.pow_le_pow_right (show 0 < 2 by decide) most

end sizes

section shuffles

theorem ofSwaps_follows (size : Nat) (partners : List Nat) (accepted : sizeFault? size = none) :
    ∃ chain, ofSwaps size partners = .ok chain ∧ chain.size = size ∧
      chain.Follows (Random.shuffled size partners) := by
  have all := Random.shuffled_perm size partners
  have length : (Random.shuffled size partners).length = size := by
    rw [all.length_eq, List.length_range]
  rw [← length] at accepted
  obtain ⟨chain, made, full, follows⟩ :=
    ofOrder_follows (Random.shuffled size partners) (length.symm ▸ all) accepted
  exact ⟨chain, made, full.trans length, follows⟩

theorem random_drawn (size : Nat) (stream : Random.Stream) (accepted : sizeFault? size = none) :
    (random size stream).1 = ofSwaps size (Random.drawSwaps size stream).1 := by
  simp only [random, accepted]

theorem random_refused (size : Nat) (stream : Random.Stream) (fault : SizeFault)
    (refused : sizeFault? size = some fault) :
    random size stream = (.error (.size fault), stream) := by
  simp only [random, refused]

theorem random_ordered (size : Nat) (stream : Random.Stream) (chain : Chain)
    (made : (random size stream).1 = .ok chain) : ∃ order, ofOrder order = .ok chain := by
  cases found : sizeFault? size with
  | some fault =>
      rw [random_refused size stream fault found] at made
      cases made
  | none =>
      rw [random_drawn size stream found] at made
      exact ⟨_, made⟩

/-- Of an accepted size every draw gives a chain that is one cycle. A refused size gives its
fault and draws nothing. -/
theorem random_single_cycle (size : Nat) :
    (sizeFault? size = none ↔ ∃ exponent, 2 ≤ exponent ∧ exponent ≤ 20 ∧ size = 2 ^ exponent) ∧
    (sizeFault? size = none →
      (∀ partners, ∃ chain, ofSwaps size partners = .ok chain ∧ chain.size = size ∧
        chain.SingleCycle) ∧
      ∀ stream, ∃ chain, (random size stream).1 = .ok chain ∧ chain.size = size ∧
        chain.SingleCycle) ∧
    ∀ fault, sizeFault? size = some fault →
      ∀ stream, random size stream = (.error (.size fault), stream) := by
  refine ⟨accepted_iff_power size, fun accepted => ?_, fun fault refused stream =>
    random_refused size stream fault refused⟩
  have each (partners : List Nat) : ∃ chain, ofSwaps size partners = .ok chain ∧
      chain.size = size ∧ chain.SingleCycle := by
    obtain ⟨chain, made, full, follows⟩ := ofSwaps_follows size partners accepted
    exact ⟨chain, made, full, single_of_follows chain _ follows⟩
  refine ⟨each, fun stream => ?_⟩
  rw [random_drawn size stream accepted]
  exact each _

end shuffles

end Microbench.Chain
