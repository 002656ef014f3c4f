import Mathlib.Algebra.Group.Nat.Defs
import Microbench.Proofs.ControlFlow
import Microbench.Routine
/-!
How far the branches of a routine reach.

A branch to a label that holds the distance to it counts in words, and the field for it has
a fixed number of bits. Every instruction takes one word; labels and directives take none.
The distance of a MIPS32 branch counts from its delay slot, that of an AArch64 branch from the
branch itself. A jump of MIPS32 holds no distance but a part of the address, so it is no branch
here. What a distance is and whether its field holds it is said of any statements; the
operations of a target that branch are told from those that do not.
-/
namespace Microbench

structure Branch where
  label : String
  /-- The words back that the field can hold, one more than the words ahead. -/
  reach : Nat
  /-- The word that the distance counts from. -/
  origin : Nat
deriving DecidableEq

namespace Architecture

/-- The reach of branches on a condition: 16 bits with the sign on MIPS32, 19 on AArch64. -/
def conditionalReach : Architecture → Nat
  | .mips32 => 2 ^ 15
  | .aarch64 => 2 ^ 18

/-- The words from the beginning of a loop branch to where its distance counts from: the delay
slot of the first instruction, or the third instruction. -/
def loopOrigin : Architecture → Nat
  | .mips32 => 1
  | .aarch64 => 2

def jumpWords : Architecture → Nat
  | .mips32 => 2
  | .aarch64 => 1

end Architecture

namespace Statement

def words : Statement → Nat
  | .mips _ | .aarch64 _ => 1
  | _ => 0

def branch? (word : Nat) : Statement → Option Branch
  | .mips (.branchNotEqual _ _ name) | .mips (.branchPositiveLikely _ name) =>
    some ⟨name, Architecture.mips32.conditionalReach, word + 1⟩
  | .aarch64 (.branchIf _ name) => some ⟨name, Architecture.aarch64.conditionalReach, word⟩
  | .aarch64 (.branch name) => some ⟨name, 2 ^ 25, word⟩
  | _ => none

def wordCount : List Statement → Nat
  | [] => 0
  | statement :: rest => statement.words + wordCount rest

def labelWord? (name : String) : List Statement → Option Nat
  | [] => none
  | statement :: rest =>
    if statement.defined? = some name then some 0
    else (labelWord? name rest).map (statement.words + ·)

def branchesFrom : Nat → List Statement → List Branch
  | _, [] => []
  | word, statement :: rest =>
    (statement.branch? word).toList ++ branchesFrom (word + statement.words) rest

end Statement

namespace Branch

def distance? (statements : List Statement) (branch : Branch) : Option Int :=
  (Statement.labelWord? branch.label statements).map fun (word : Nat) => (word : Int) - branch.origin

/-- The label is defined, and the field holds the distance to it. -/
def Encodable (statements : List Statement) (branch : Branch) : Prop :=
  ∃ distance, branch.distance? statements = some distance ∧
    -(branch.reach : Int) ≤ distance ∧ distance < branch.reach

theorem encodable_iff {statements : List Statement} {branch : Branch} {distance : Int}
    (far : branch.distance? statements = some distance) :
    branch.Encodable statements ↔ -(branch.reach : Int) ≤ distance ∧ distance < branch.reach := by
  constructor
  · rintro ⟨other, same, holds⟩
    rw [far] at same
    cases same
    exact holds
  · exact fun holds => ⟨distance, far, holds⟩

end Branch

def Routine.branches (routine : Routine) : List Branch :=
  Statement.branchesFrom 0 routine.statements

namespace Statement

section counting

theorem wordCount_append (front back : List Statement) :
    wordCount (front ++ back) = wordCount front + wordCount back := by
  induction front with
  | nil => exact (Nat.zero_add _).symm
  | cons first rest ih => rw [List.cons_append, wordCount, wordCount, ih, Nat.add_assoc]

theorem wordCount_uniform (statements : List Statement) (count : Nat)
    (uniform : ∀ statement ∈ statements, statement.words = count) :
    wordCount statements = statements.length * count := by
  induction statements with
  | nil => exact (Nat.zero_mul count).symm
  | cons first rest ih =>
      rw [List.forall_mem_cons] at uniform
      rw [wordCount, uniform.1, ih uniform.2, List.length_cons, Nat.succ_mul, Nat.add_comm]

theorem directives_words (lines : List Directive) :
    wordCount (lines.map Statement.directive) = 0 := by
  induction lines with
  | nil => rfl
  | cons line rest ih => exact (Nat.zero_add _).trans ih

theorem branchesFrom_append (word : Nat) (front back : List Statement) :
    branchesFrom word (front ++ back) =
      branchesFrom word front ++ branchesFrom (word + wordCount front) back := by
  induction front generalizing word with
  | nil => rfl
  | cons first rest ih =>
      rw [List.cons_append, branchesFrom, branchesFrom, ih, wordCount, Nat.add_assoc,
        List.append_assoc]

/-- The first definition of a label counts, so none may stand in front of the one that is meant. -/
theorem labelWord_behind (name : String) (before rest : List Statement)
    (absent : name ∉ before.filterMap defined?) :
    labelWord? name (before ++ .label name :: rest) = some (wordCount before) := by
  induction before with
  | nil => exact if_pos rfl
  | cons first others ih =>
      rw [List.filterMap_cons] at absent
      rw [List.cons_append, labelWord?, wordCount]
      cases defines : first.defined? with
      | none =>
          rw [defines] at absent
          rw [if_neg (by simp), ih absent]
          rfl
      | some other =>
          rw [defines, List.mem_cons, not_or] at absent
          rw [if_neg (by simpa using Ne.symm absent.1), ih absent.2]
          rfl

end counting

section straight

def Straight (statement : Statement) : Prop := ∀ word, statement.branch? word = none

theorem branchesFrom_straight (statements : List Statement)
    (straight : ∀ statement ∈ statements, statement.Straight) (word : Nat) :
    branchesFrom word statements = [] := by
  induction statements generalizing word with
  | nil => rfl
  | cons first rest ih =>
      rw [branchesFrom, straight first List.mem_cons_self,
        ih fun statement member => straight statement (List.mem_cons_of_mem first member)]
      rfl

/-- A branch goes to the label whose distance it holds. -/
theorem straight_of_nowhere (statement : Statement) (nowhere : statement.goesTo? = none) :
    statement.Straight := by
  intro word
  cases statement with
  | mips instruction => cases instruction <;> first | rfl | cases nowhere
  | aarch64 instruction => cases instruction <;> first | rfl | cases nowhere
  | _ => rfl

theorem GoesTo.straight {statements : List Statement} (goesTo : GoesTo statements []) :
    ∀ statement ∈ statements, statement.Straight := fun statement member =>
  statement.straight_of_nowhere (List.filterMap_eq_nil_iff.mp goesTo.goes statement member)

theorem label_straight (name : String) : (Statement.label name).Straight := fun _ => rfl

theorem directives_straight (lines : List Directive) :
    ∀ statement ∈ lines.map Statement.directive, statement.Straight := by
  intro statement member
  obtain ⟨line, _, rfl⟩ := List.mem_map.mp member
  exact fun _ => rfl

/-- A branch back to a label over straight statements, with no other branch around. -/
theorem lone_branch {statements front loop branching back : List Statement} {name : String}
    {reach origin : Nat}
    (parted : statements = front ++ .label name :: (loop ++ (branching ++ back)))
    (begins : ∀ statement ∈ front, statement.Straight)
    (inside : ∀ statement ∈ loop, statement.Straight)
    (ends : ∀ statement ∈ back, statement.Straight) (fresh : name ∉ front.filterMap defined?)
    (branches : ∀ word, branchesFrom word branching = [⟨name, reach, word + origin⟩]) :
    ∃ branch, branchesFrom 0 statements = [branch] ∧ branch.label = name ∧ branch.reach = reach ∧
      branch.distance? statements = some (-((wordCount loop + origin : Nat) : Int)) := by
  have head := labelWord_behind name front (loop ++ (branching ++ back)) fresh
  refine ⟨⟨name, reach, wordCount front + wordCount loop + origin⟩, ?_, rfl, rfl, ?_⟩
  · rw [parted, branchesFrom_append, branchesFrom, label_straight, branchesFrom_append,
      branchesFrom_append, branchesFrom_straight front begins, branchesFrom_straight loop inside,
      branchesFrom_straight back ends, branches]
    simp [words]
  · rw [parted, Branch.distance?, head, Option.map_some]
    apply congrArg some
    push_cast
    omega

end straight

end Statement

namespace Target
open Statement

section branching

variable (target : Target) (label : String)

theorem multiply_words (rd ra rb : Reg) : (target.multiply rd ra rb).words = 1 := by
  obtain ⟨_ | _, abi⟩ := target <;> rfl

theorem jump_words : wordCount (target.jump label) = target.architecture.jumpWords := by
  obtain ⟨_ | _, abi⟩ := target <;> rfl

theorem jump_branches (word : Nat) :
    ∀ branch ∈ branchesFrom word (target.jump label), branch = ⟨label, 2 ^ 25, word⟩ := by
  intro branch member
  obtain ⟨_ | _, abi⟩ := target
  · cases member
  · exact List.mem_singleton.mp member

theorem countedBranch_branches (counter : Reg) (decrement word : Nat) :
    branchesFrom word (target.countedBranch counter label decrement) =
      [⟨label, target.architecture.conditionalReach, word + 1⟩] := by
  obtain ⟨_ | _, abi⟩ := target <;> rfl

theorem loopBranch_branches (counter : Reg) (decrement word : Nat) :
    branchesFrom word (target.loopBranch counter label decrement) =
      [⟨label, target.architecture.conditionalReach, word + target.architecture.loopOrigin⟩] := by
  obtain ⟨_ | _, abi⟩ := target <;> rfl

end branching

end Target

end Microbench
