import Microbench.Proofs.BranchReach
import Microbench.Proofs.MultiplyRoutine
/-!
How far the loop branch of a multiply function reaches.

The loop branch is the only branch of a multiply function, and the loop body stands between
it and its label. So the distance that it holds grows with the product of the width and the
unroll factor, while each of them is accepted on its own. On AArch64 no accepted pair takes
the branch out of reach. On MIPS32 the accepted pairs whose loop body has 2 ^ 15 multiplies or
more do.
-/
namespace Microbench.MultiplyFamily
open Statement Target

theorem body_words (target : Target) (accumulators : List Reg) (unroll : Nat) :
    wordCount (body target accumulators unroll) = unroll * accumulators.length := by
  have single : ∀ statement ∈ body target accumulators unroll, statement.words = 1 := by
    intro statement member
    rw [body_rota] at member
    obtain ⟨reg, _, rfl⟩ := List.mem_map.mp member
    exact multiply_words target _ _ _
  rw [wordCount_uniform _ 1 single, Nat.mul_one, body_rota, List.length_map, rota_length]

/-- A function whose name is told from its loop head has one branch, and that leads back over the
loop body. -/
theorem pieces_branch (architecture : Architecture) (pool : List Reg) (unroll width : Nat)
    (name : String) {frame : Frame} {prologue : List Statement} (opening closing : List Directive)
    (taking : frame.prologue? (withPool architecture pool) = some prologue)
    (opens : frame.Opens architecture prologue) (apart : name ≠ loopLabel width) :
    ∃ branch, branchesFrom 0 (pieces architecture pool unroll width name frame prologue opening
        closing) = [branch] ∧
      branch.label = loopLabel width ∧ branch.reach = architecture.conditionalReach ∧
      branch.distance? (pieces architecture pool unroll width name frame prologue opening closing) =
        some (-((unroll * (pool.take width).length + architecture.loopOrigin : Nat) : Int)) := by
  rw [← body_words (withPool architecture pool)]
  apply lone_branch (pieces_parted architecture pool unroll width frame prologue opening closing name)
  case begins =>
    have taken := goesTo_of_movesData prologue (Frame.prologue_movesData taking)
    simp only [List.forall_mem_append, List.forall_mem_singleton]
    exact ⟨⟨⟨directives_straight opening, label_straight name⟩, taken.straight⟩,
      (setUp_goesTo _ _).straight⟩
  case inside => exact (body_goesTo _ _ unroll).straight
  case ends =>
    rw [List.forall_mem_append]
    exact ⟨(Frame.epilogue_goesTo _).straight, directives_straight closing⟩
  case fresh =>
    simp only [List.filterMap_append, directives_unlabelled, plain_unlabelled _ opens.plain,
      (setUp_goesTo _ _).unlabelled]
    simpa [defined?] using Ne.symm apart
  case branches => exact loopBranch_branches (withPool architecture pool) _ _ unroll

theorem function_branch (architecture : Architecture) (pool : List Reg)
    (maxWidth unroll width : Nat) (start : String) (accepted : architecture.Accepts pool)
    (shaped : Shape.error? ⟨width, unroll⟩ (withPool architecture pool) = none)
    (apart : start ≠ ".Lilp") : ∃ routine branch,
      (⟨withPool architecture pool, maxWidth, unroll, start⟩ : MultiplyFamily).routine width =
        .ok routine ∧
      routine.branches = [branch] ∧ branch.label = loopLabel width ∧
      branch.reach = architecture.conditionalReach ∧
      branch.distance? routine.statements =
        some (-((width * unroll + architecture.loopOrigin : Nat) : Int)) := by
  obtain ⟨frame, prologue, opening, closing, made, _, _, _, taking, opens⟩ :=
    routine_pieces architecture pool maxWidth unroll width start accepted shaped
  obtain ⟨branch, alone, leads, reach, far⟩ := pieces_branch architecture pool unroll width
    (symbolName start width) opening closing taking opens
    (symbol_not_own_loopLabel start width apart)
  have wide : (pool.take width).length = width := by
    rw [List.length_take]
    exact Nat.min_eq_left (shape_bounds shaped).2.2
  rw [wide, Nat.mul_comm] at far
  exact ⟨_, branch, made, alone, leads, reach, far⟩

variable (architecture : Architecture) (pool : Option (List Reg)) (target : Target)
  (maxWidth width unroll : Nat) (start : String) (shape : Shape)
  (built : Target.build architecture pool = .ok target)
  (accepted : Shape.check width unroll target = .ok shape) (apart : start ≠ ".Lilp")

include built accepted apart in
/-- The loop branch of a function can be encoded on AArch64 for all accepted parameters, and on
MIPS32 if and only if the loop body has fewer than 2 ^ 15 multiplies. -/
theorem loop_branch_encodable : ∃ routine branch,
    (⟨target, maxWidth, unroll, start⟩ : MultiplyFamily).routine width = .ok routine ∧
    routine.branches = [branch] ∧ branch.label = loopLabel width ∧
    branch.reach = architecture.conditionalReach ∧
    branch.distance? routine.statements = some (match architecture with
      | .mips32 => -(width * unroll + 1)
      | .aarch64 => -(width * unroll + 2)) ∧
    (branch.Encodable routine.statements ↔ (architecture = .mips32 → width * unroll < 2 ^ 15)) := by
  obtain ⟨rfl, fits⟩ := build_withPool architecture pool target built
  have shaped := shape_of_check accepted
  obtain ⟨⟨_, encoded⟩, _, wide⟩ := shape_bounds shaped
  obtain ⟨routine, branch, made, alone, leads, reach, far⟩ :=
    function_branch architecture _ maxWidth unroll width start fits shaped apart
  refine ⟨routine, branch, made, alone, leads, reach, ?_, ?_⟩
  · rw [far]
    cases architecture <;> simp [Architecture.loopOrigin]
  · rw [Branch.encodable_iff far, reach]
    cases architecture with
    | mips32 =>
        simp only [Architecture.conditionalReach, Architecture.loopOrigin, forall_const]
        omega
    | aarch64 =>
        have few := fits.few
        have body : width * unroll ≤ 32 * 4095 := Nat.mul_le_mul (Nat.le_trans wide few) encoded
        simp only [Architecture.conditionalReach, Architecture.loopOrigin, reduceCtorEq,
          false_implies, iff_true]
        omega

theorem loop_branch_encodable_widest : ∃ routine branch,
    (⟨stock .aarch64, 16, 4095, "func"⟩ : MultiplyFamily).routine 16 = .ok routine ∧
    routine.branches = [branch] ∧ branch.distance? routine.statements = some (-65522) ∧
    branch.Encodable routine.statements := by
  obtain ⟨routine, branch, made, alone, _, _, far, encodable⟩ :=
    loop_branch_encodable .aarch64 none (stock .aarch64) 16 16 4095 "func" _ rfl rfl (by decide)
  exact ⟨routine, branch, made, alone, far, encodable.mpr (by simp)⟩

/-- Width 2 and unroll factor 16384 are each in their range, and the loop branch has no room
for the way back over 32768 multiplies. -/
theorem long_loop_not_encodable :
    Target.build .mips32 none = .ok (stock .mips32) ∧
    Shape.check 2 16384 (stock .mips32) = .ok ⟨2, 16384⟩ ∧
    ∃ routine branch,
      (⟨stock .mips32, 2, 16384, "func"⟩ : MultiplyFamily).routine 2 = .ok routine ∧
      routine.branches = [branch] ∧ branch.label = loopLabel 2 ∧
      branch.distance? routine.statements = some (-32769) ∧
      ¬ branch.Encodable routine.statements := by
  have fits := (build_withPool .mips32 none (stock .mips32) rfl).2
  obtain ⟨routine, branch, made, alone, leads, reach, far⟩ :=
    function_branch .mips32 _ 2 16384 2 "func" fits rfl (by decide)
  refine ⟨rfl, rfl, routine, branch, made, alone, leads, far, ?_⟩
  rw [Branch.encodable_iff far, reach]
  decide

end Microbench.MultiplyFamily
