import Mathlib.Data.List.Count
import Microbench.Proofs.BranchReach
import Microbench.Proofs.CycleRoutine
/-!
How far the branches of a cycle routine reach.

Every block but the last is a jump, so the block of a label begins as many jumps behind the
entry as the label says. The last block branches back to its successor on a condition, and
the field for such a branch is the smaller one. Sizes are accepted without a look at the
target, so the successor of the last label can stand too far in front.
-/
namespace Microbench

/-- How many labels back the branch that closes the cycle can lead. -/
def Architecture.closingReach : Architecture → Nat
  | .mips32 => 2 ^ 14
  | .aarch64 => 2 ^ 18

namespace CycleFamily
open Statement Target

section blocks

variable (target : Target) (chain : Chain)

theorem leaving_inner (label : Nat) (inner : label + 1 < chain.size) :
    leaving target chain label = target.jump (cycleLabel (chain.next label)) :=
  if_neg (Nat.ne_of_lt inner)

theorem leaving_last (label : Nat) (last : label + 1 = chain.size) :
    leaving target chain label =
      target.countedBranch target.abi.argument (cycleLabel (chain.next label)) 1 := if_pos last

theorem blocks_words (first count : Nat) (inner : first + count < chain.size) :
    wordCount (blocks target chain first count) = count * target.architecture.jumpWords := by
  induction count generalizing first with
  | zero => exact (Nat.zero_mul _).symm
  | succ count ih =>
      have named : wordCount [.label (cycleLabel first)] = 0 := rfl
      rw [blocks_succ, ← List.singleton_append, wordCount_append, wordCount_append, named,
        leaving_inner target chain first (by omega), jump_words, ih (first + 1) (by omega),
        Nat.succ_mul]
      omega

/-- A jump stands where the block of its label begins. -/
theorem blocks_branches (first count : Nat) (inner : first + count < chain.size) :
    ∀ branch ∈ branchesFrom (first * target.architecture.jumpWords)
        (blocks target chain first count),
      ∃ label, label < chain.size ∧ branch =
        ⟨cycleLabel (chain.next label), 2 ^ 25, label * target.architecture.jumpWords⟩ := by
  induction count generalizing first with
  | zero => exact fun branch member => absurd member List.not_mem_nil
  | succ count ih =>
      intro branch member
      have named (word : Nat) : branchesFrom word [.label (cycleLabel first)] = [] := rfl
      rw [blocks_succ, ← List.singleton_append, branchesFrom_append, branchesFrom_append, named,
        List.nil_append, leaving_inner target chain first (by omega), jump_words] at member
      rcases List.mem_append.mp member with here | later
      · exact ⟨first, by omega, jump_branches target _ _ branch here⟩
      · apply ih (first + 1) (by omega) branch
        rw [Nat.succ_mul]
        exact later

end blocks

section reach

variable (architecture : Architecture) (pool : List Reg) (chain : Chain) (start : String)
  (opening closing : List Directive)

theorem pieces_labelWord (label : Nat) (inside : label < chain.size) :
    labelWord? (cycleLabel label)
        (pieces architecture pool chain (symbolName start chain.size) opening closing) =
      some (label * architecture.jumpWords) := by
  let target := withPool architecture pool
  let front := opening.map .directive ++ [.label (symbolName start chain.size)] ++
    blocks target chain 0 label
  have split : chain.size = label + (chain.size - (label + 1) + 1) := by omega
  have parted : pieces architecture pool chain (symbolName start chain.size) opening closing =
      front ++ .label (cycleLabel label) :: (leaving target chain label ++
        blocks target chain (label + 1) (chain.size - (label + 1)) ++
        returnSize target chain.size ++ closing.map .directive) := by
    have later := blocks_add target chain 0 label (chain.size - (label + 1) + 1)
    rw [← split, Nat.zero_add, blocks_succ] at later
    simp only [pieces, later, front, target, List.append_assoc, List.cons_append]
  have fresh : cycleLabel label ∉ front.filterMap defined? := by
    have labels : front.filterMap defined? =
        symbolName start chain.size :: (List.range' 0 label).map cycleLabel := by
      simp only [front, List.filterMap_append, directives_unlabelled, blocks_labels]
      rfl
    rw [labels]
    exact block_fresh chain start label inside
  have words : wordCount front = label * architecture.jumpWords := by
    have entry : wordCount [.label (symbolName start chain.size)] = 0 := rfl
    rw [wordCount_append, wordCount_append, directives_words, entry,
      blocks_words target chain 0 label (by omega), Nat.zero_add]
  rw [parted, labelWord_behind _ _ _ fresh, words]

theorem pieces_branches (size : Nat) (sized : chain.size = size + 1) (name : String) :
    ∃ jumps, branchesFrom 0 (pieces architecture pool chain name opening closing) = jumps ++
        [⟨cycleLabel (chain.next size), architecture.conditionalReach,
          size * architecture.jumpWords + 1⟩] ∧
      ∀ jump ∈ jumps, ∃ label, label < chain.size ∧ jump =
        ⟨cycleLabel (chain.next label), 2 ^ 25, label * architecture.jumpWords⟩ := by
  let target := withPool architecture pool
  have parted : pieces architecture pool chain name opening closing =
      (opening.map .directive ++ [.label name]) ++ (blocks target chain 0 size ++
        ([.label (cycleLabel size)] ++ (target.countedBranch target.abi.argument
            (cycleLabel (chain.next size)) 1 ++
          (returnSize target chain.size ++ closing.map .directive)))) := by
    have last := blocks_add target chain 0 size 1
    have none : blocks target chain (size + 1) 0 = [] := rfl
    rw [← sized, Nat.zero_add, blocks_succ, leaving_last target chain size sized.symm, none,
      List.append_nil] at last
    simp only [pieces, last, target, List.append_assoc, List.cons_append, List.nil_append]
  have front : ∀ statement ∈ opening.map Statement.directive ++ [.label name],
      statement.Straight := by
    rw [List.forall_mem_append, List.forall_mem_singleton]
    exact ⟨directives_straight opening, label_straight name⟩
  have back : ∀ statement ∈ returnSize target chain.size ++ closing.map .directive,
      statement.Straight := by
    rw [List.forall_mem_append]
    exact ⟨(returnSize_goesTo target chain.size).straight, directives_straight closing⟩
  have entry : wordCount (opening.map Statement.directive ++ [.label name]) = 0 := by
    rw [wordCount_append, directives_words]
    rfl
  have named : wordCount [.label (cycleLabel size)] = 0 := rfl
  have inner : 0 + size < chain.size := by omega
  refine ⟨branchesFrom 0 (blocks target chain 0 size), ?_, ?_⟩
  · rw [parted, branchesFrom_append, branchesFrom_straight _ front, entry, branchesFrom_append,
      blocks_words target chain 0 size inner, branchesFrom_append, named, branchesFrom_append,
      branchesFrom_straight _ back, countedBranch_branches]
    simp [branchesFrom, branch?, target, withPool]
  · have jumping := blocks_branches target chain 0 size inner
    rw [Nat.zero_mul] at jumping
    exact jumping

theorem jump_encodable (statements : List Statement) (label next size : Nat)
    (from_inside : label < size) (to_inside : next < size) (few : size ≤ 2 ^ 20)
    (found : labelWord? (cycleLabel next) statements = some (next * architecture.jumpWords)) :
    Branch.Encodable statements
      ⟨cycleLabel next, 2 ^ 25, label * architecture.jumpWords⟩ := by
  -- jumps lead over fewer words than the blocks have, whatever the order of the labels
  refine ⟨_, by rw [Branch.distance?, found]; rfl, ?_⟩
  cases architecture <;> simp only [Architecture.jumpWords] <;> omega

theorem emitted_branches (accepted : sizeFault? chain.size = none) (cycle : chain.SingleCycle)
    (sound : chain.flaw? = none) : ∃ routine jumps closing,
      (⟨withPool architecture pool, start⟩ : CycleFamily).emit chain = .ok routine ∧
      routine.branches = jumps ++ [closing] ∧
      (∀ jump ∈ jumps, jump.reach = 2 ^ 25 ∧ jump.Encodable routine.statements) ∧
      closing.label = cycleLabel (chain.next (chain.size - 1)) ∧
      closing.reach = architecture.conditionalReach ∧
      closing.distance? routine.statements = some (match architecture with
        | .mips32 => 2 * (chain.next (chain.size - 1) : Int) - 2 * chain.size + 1
        | .aarch64 => (chain.next (chain.size - 1) : Int) - chain.size) := by
  obtain ⟨_, _, few⟩ := (Chain.sizeFault_none_iff _).mp accepted
  have present := Chain.present_of_accepted accepted
  have sized : chain.size = chain.size - 1 + 1 := by omega
  have stays (label : Nat) (inside : label < chain.size) : chain.next label < chain.size :=
    cycle.stays label 1 inside
  have last := stays (chain.size - 1) (by omega)
  obtain ⟨opening, closing, emitted⟩ := emit_pieces architecture pool chain start present sound
  have found := pieces_labelWord architecture pool chain start opening closing
  obtain ⟨jumps, branches, jumping⟩ := pieces_branches architecture pool chain opening closing
    (chain.size - 1) sized (symbolName start chain.size)
  refine ⟨_, jumps, _, emitted, branches, ?_, rfl, rfl, ?_⟩
  · intro jump member
    obtain ⟨label, inside, rfl⟩ := jumping jump member
    exact ⟨rfl, jump_encodable architecture _ label _ chain.size inside (stays label inside) few
      (found _ (stays label inside))⟩
  · rw [Branch.distance?, found _ last, Option.map_some]
    apply congrArg some
    cases architecture <;> simp only [Architecture.jumpWords] <;> omega

variable (pool : Option (List Reg)) (target : Target) (order : List Nat)
  (built : Target.build architecture pool = .ok target)
  (linked : Chain.ofOrder order = .ok chain)

include built linked in
/-- All jumps of a cycle routine can be encoded. The branch that closes the cycle can be if and
only if the successor of the last label is no further back than its field leads. -/
theorem closing_branch_encodable : ∃ routine jumps closing,
    (⟨target, start⟩ : CycleFamily).emit chain = .ok routine ∧
    routine.branches = jumps ++ [closing] ∧
    (∀ jump ∈ jumps, jump.reach = 2 ^ 25 ∧ jump.Encodable routine.statements) ∧
    closing.label = cycleLabel (chain.next (chain.size - 1)) ∧
    closing.reach = architecture.conditionalReach ∧
    closing.distance? routine.statements = some (match architecture with
      | .mips32 => 2 * (chain.next (chain.size - 1) : Int) - 2 * chain.size + 1
      | .aarch64 => (chain.next (chain.size - 1) : Int) - chain.size) ∧
    (closing.Encodable routine.statements ↔
      chain.size ≤ chain.next (chain.size - 1) + architecture.closingReach) := by
  obtain ⟨rfl, _⟩ := build_withPool architecture pool target built
  obtain ⟨accepted, sound⟩ := Chain.ofOrder_checked order chain linked
  have cycle := Chain.single_of_order order chain linked
  obtain ⟨routine, jumps, closing, emitted, branches, jumping, leads, reach, far⟩ :=
    emitted_branches architecture _ chain start accepted cycle sound
  refine ⟨routine, jumps, closing, emitted, branches, jumping, leads, reach, far, ?_⟩
  have present := Chain.present_of_accepted accepted
  have last : chain.next (chain.size - 1) < chain.size := cycle.stays _ 1 (by omega)
  rw [Branch.encodable_iff far, reach]
  cases architecture <;> simp only [Architecture.conditionalReach, Architecture.closingReach] <;>
    omega

theorem closing_branch_encodable_four : ∃ routine jumps closing,
    (⟨stock .mips32, "goto_test"⟩ : CycleFamily).emit ⟨#[3, 2, 0, 1]⟩ = .ok routine ∧
    routine.branches = jumps ++ [closing] ∧ closing.label = cycleLabel 1 ∧
    closing.distance? routine.statements = some (-5) ∧ closing.Encodable routine.statements := by
  obtain ⟨routine, jumps, closing, emitted, branches, _, leads, _, far, encodable⟩ :=
    closing_branch_encodable .mips32 ⟨#[3, 2, 0, 1]⟩ "goto_test" none (stock .mips32) [2, 0, 3, 1]
      rfl (by decide +kernel)
  exact ⟨routine, jumps, closing, emitted, branches, leads, far, encodable.mpr (by decide)⟩

/-- In the chain of 32768 labels in their order, the last label leads back to the first, which
is twice as far as the closing branch has room for. -/
theorem long_cycle_not_encodable : ∃ chain, Chain.ofOrder (List.range 32768) = .ok chain ∧
    ∃ routine jumps closing,
      (⟨stock .mips32, "goto_test"⟩ : CycleFamily).emit chain = .ok routine ∧
      routine.branches = jumps ++ [closing] ∧ closing.label = cycleLabel 0 ∧
      closing.distance? routine.statements = some (-65535) ∧
      ¬ closing.Encodable routine.statements := by
  have length : (List.range 32768).length = 32768 := List.length_range
  obtain ⟨chain, linked, size, follows⟩ := Chain.ofOrder_follows (List.range 32768)
    (by rw [length]) (by rw [length]; decide)
  have ahead := follows.leads 32767 (by rw [length]; decide)
  rw [length] at size ahead
  have closes : chain.next (chain.size - 1) = 0 := by
    rw [List.getElem?_range (by decide), List.getElem?_range (by decide)] at ahead
    rw [size]
    exact (Option.some.inj ahead).symm
  obtain ⟨accepted, sound⟩ := Chain.ofOrder_checked _ chain linked
  obtain ⟨routine, jumps, closing, emitted, branches, _, leads, reach, far⟩ :=
    emitted_branches .mips32 _ chain "goto_test" accepted
      (Chain.single_of_follows chain _ follows) sound
  rw [closes] at leads far
  rw [size] at far
  refine ⟨chain, linked, routine, jumps, closing, emitted, branches, leads, far, ?_⟩
  rw [Branch.encodable_iff far, reach]
  decide

end reach

end CycleFamily

end Microbench
