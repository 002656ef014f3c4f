import Microbench.Proofs.Effects
/-!
The branch that counts, with any decrement.

It is promised to be taken while the counter was not nought, and to lower the counter either
way. MIPS32 keeps the promise for every decrement that it can write. AArch64 lowers first and
branches unless that borrowed, which asks whether the counter was at least the decrement: the
same question for a decrement of one, and another one for every larger decrement.
-/
namespace Microbench.Target
open Statement InstructionSet

structure Lowered {architecture : Architecture} (state after : architecture.isa.State)
    (counter : Reg) (decrement : Nat) : Prop where
  counted : after.int counter = state.int counter - BitVec.ofNat 32 decrement
  others : ∀ reg, reg ≠ counter → after.registers reg = state.registers reg
  memory : after.memory = state.memory

/-- What it is for a branch that counts to go to its label on some counts and to go on behind
it on all others. -/
structure CountsOn (target : Target) (counter : Reg) (label : String) (decrement : Nat)
    (goes : BitVec 32 → Prop) : Prop where
  read : LabelFits label →
    ((target.countedBranch counter label decrement).map text).mapM
        target.architecture.isa.cell? =
      some ((target.countedBranch counter label decrement).map (cell target.architecture))
  taken : ∀ (program rest destination : target.architecture.isa.Code)
    (state : target.architecture.isa.State),
    target.architecture.isa.seek label program = some destination → goes (state.int counter) →
    ∃ after, Lowered state after counter decrement ∧ target.architecture.isa.Reaches program
      (.within ((target.countedBranch counter label decrement).map (cell target.architecture) ++ rest)
        state)
      ((target.countedBranch counter label decrement).map (cell target.architecture))
      (.within destination after)
  passed : ∀ (program rest : target.architecture.isa.Code)
    (state : target.architecture.isa.State), ¬ goes (state.int counter) →
    ∃ after, Lowered state after counter decrement ∧ target.architecture.isa.Reaches program
      (.within ((target.countedBranch counter label decrement).map (cell target.architecture) ++ rest)
        state)
      ((target.countedBranch counter label decrement).map (cell target.architecture))
      (.within rest after)

theorem lowered_setInt {architecture : Architecture} (state : architecture.isa.State)
    (flags : architecture.isa.Flags) (counter : Reg) (decrement : Nat) :
    Lowered state
      { state.setInt counter (state.int counter - BitVec.ofNat 32 decrement) with flags := flags }
      counter decrement where
  counted := (Processor.setInt_int architecture.isa.wide state counter counter _).trans (if_pos rfl)
  others := fun _ other => if_neg other
  memory := rfl

theorem maxDecrement_small (target : Target) : target.maxDecrement < 2 ^ 32 := by
  obtain ⟨_ | _, abi⟩ := target <;> simp [maxDecrement]

section goes

variable (target : Target) (counter : Reg) (label : String) (decrement : Nat)
  (named : target.architecture.Writable counter)

include named

theorem countedBranch_countsOn (small : decrement ≤ target.maxDecrement) :
    target.CountsOn counter label decrement (target.architecture.Goes decrement) where
  read fits := cells_texts _ _ (countedBranch_fits target counter label decrement named fits small)
  taken program rest destination state found going := by
    have short := Nat.lt_of_le_of_lt small target.maxDecrement_small
    obtain ⟨flags, reached⟩ := countedBranch_repeats target program rest destination state label
      found counter named decrement short going
    exact ⟨_, lowered_setInt state flags counter decrement, reached⟩
  passed program rest state staying := by
    have short := Nat.lt_of_le_of_lt small target.maxDecrement_small
    obtain ⟨flags, reached⟩ := countedBranch_ends target program rest state label counter named
      decrement short staying
    exact ⟨_, lowered_setInt state flags counter decrement, reached⟩

omit named

theorem CountsOn.agrees {goes others : BitVec 32 → Prop}
    (counts : target.CountsOn counter label decrement goes)
    (again : target.CountsOn counter label decrement others)
    (state : target.architecture.isa.State) (going : goes (state.int counter)) :
    others (state.int counter) := by
  -- what a branch counts on is seen by running it before nothing and with its label elsewhere
  apply Classical.byContradiction
  intro staying
  have found : target.architecture.isa.seek label [.label label] = some [.label label] := if_pos rfl
  obtain ⟨after, -, reached⟩ := counts.taken [.label label] [] [.label label] state found going
  obtain ⟨other, -, missed⟩ := again.passed [.label label] [] state staying
  cases reached.unique missed

include named

/-- A count of one is not nought, and less than any other decrement. -/
theorem goes_nonzero_iff (positive : 1 ≤ decrement) (small : decrement ≤ target.maxDecrement) :
    target.CountsOn counter label decrement (· ≠ 0) ↔
      target.architecture = .mips32 ∨ decrement = 1 := by
  have told := countedBranch_countsOn target counter label decrement named small
  constructor
  · intro promised
    obtain ⟨_ | _, abi⟩ := target
    · exact .inl rfl
    · let one : AArch64.State := ⟨fun _ => 1, fun _ => 0, ⟨false, false, false, false⟩⟩
      have going : one.int counter ≠ 0 := show (1 : BitVec 32) ≠ 0 by decide
      have covered : decrement ≤ 1 := promised.agrees _ _ _ _ told one going
      exact .inr (Nat.le_antisymm covered positive)
  · rintro (same | rfl)
    · rw [same] at told
      exact told
    · have nonzero : target.architecture.Goes 1 = (· ≠ 0) :=
        funext fun count => propext (target.architecture.goes_one count)
      rwa [nonzero] at told

end goes

/-- For every counter that keeps what is written to it, every label and every decrement that
the branch can write: it goes to its label on the counts of its architecture, and the counter
is lowered either way. That it goes on all counts but nought holds on MIPS32, and on AArch64
for a decrement of one alone. The architectures differ on the counts between. -/
theorem branch_counts (target : Target) (counter : Reg) (label : String) (decrement : Nat)
    (named : target.architecture.Writable counter) (positive : 1 ≤ decrement)
    (small : decrement ≤ target.maxDecrement) :
    target.CountsOn counter label decrement (target.architecture.Goes decrement) ∧
      (target.CountsOn counter label decrement (· ≠ 0) ↔
        target.architecture = .mips32 ∨ decrement = 1) ∧
      ∀ count, (Architecture.mips32.Goes decrement count ↔
        Architecture.aarch64.Goes decrement count) ↔ count = 0 ∨ decrement ≤ count.toNat := by
  refine ⟨countedBranch_countsOn target counter label decrement named small,
    goes_nonzero_iff target counter label decrement named positive small, ?_⟩
  intro count
  have nought : count = 0 ↔ count.toNat = 0 := BitVec.toNat_eq
  simp only [Architecture.Goes, ne_eq, nought]
  omega

theorem branch_counts_two :
    (Architecture.mips32.Writable 8 ∧ 1 ≤ 2 ∧ 2 ≤ (stock .mips32).maxDecrement) ∧
      (stock .mips32).CountsOn 8 ".L0" 2 (· ≠ 0) := by
  have inside : Architecture.mips32.Writable 8 ∧ 1 ≤ 2 ∧ 2 ≤ (stock .mips32).maxDecrement := by
    decide
  have ⟨named, positive, small⟩ := inside
  exact ⟨inside, (branch_counts (stock .mips32) 8 ".L0" 2 named positive small).2.1.mpr (.inl rfl)⟩

theorem nonzero_count_stays : ¬ (stock .aarch64).CountsOn 0 ".L0" 2 (· ≠ 0) := by
  intro promised
  have told := (goes_nonzero_iff (stock .aarch64) 0 ".L0" 2 (by decide) (by decide)
    (by decide)).mp promised
  exact absurd told (by decide)

end Microbench.Target
