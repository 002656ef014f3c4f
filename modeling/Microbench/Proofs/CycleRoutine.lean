import Microbench.CycleFamily
import Microbench.Proofs.ControlFlow
import Microbench.Proofs.Cycles
import Microbench.Proofs.Effects
import Microbench.Proofs.Labels
/-!
The text of a cycle routine and the code that it assembles to.

Blocks stand in the order of their labels, so what is behind a label is its own block, the
blocks of all larger labels and the return. Every block is found by its label. No line of a
routine touches memory, and none writes to a register other than argument and result.
-/
namespace Microbench.CycleFamily
open Statement Target InstructionSet

section blocks

variable (target : Target) (chain : Chain)

theorem edges_range : chain.edges =
    (List.range chain.size).map fun label => ⟨label, chain.next label⟩ := by
  apply List.ext_getElem
  · simp [Chain.edges, Chain.size]
  · intro label bound _
    rw [Chain.edges, List.length_map, List.length_zipIdx, Array.length_toList] at bound
    simp [Chain.edges, Chain.next, Chain.successor?, bound]

def leaving (label : Nat) : List Statement :=
  if label + 1 = chain.size then
    target.countedBranch target.abi.argument (cycleLabel (chain.next label)) 1
  else target.jump (cycleLabel (chain.next label))

def blocks (first count : Nat) : List Statement :=
  (List.range' first count).flatMap fun label =>
    .label (cycleLabel label) :: leaving target chain label

theorem blocks_edges :
    chain.edges.flatMap (block target chain.size) = blocks target chain 0 chain.size := by
  rw [edges_range, List.flatMap_map, List.range_eq_range']
  rfl

theorem blocks_succ (first count : Nat) : blocks target chain first (count + 1) =
    .label (cycleLabel first) ::
      (leaving target chain first ++ blocks target chain (first + 1) count) := by
  rw [blocks, List.range'_succ, List.flatMap_cons]
  rfl

theorem blocks_add (first early late : Nat) : blocks target chain first (early + late) =
    blocks target chain first early ++ blocks target chain (first + early) late := by
  have split : List.range' first (early + late) =
      List.range' first early ++ List.range' (first + early) late := by
    rw [List.range'_append_1]
  rw [blocks, split, List.flatMap_append]
  rfl

/-- A property of all statements of a block is one of all statements of the blocks. -/
theorem blocks_all (holds : Statement → Prop) (named : ∀ label, holds (.label (cycleLabel label)))
    (left : ∀ label, ∀ statement ∈ leaving target chain label, holds statement) (first count : Nat) :
    ∀ statement ∈ blocks target chain first count, holds statement := by
  intro statement member
  obtain ⟨label, _, found⟩ := List.mem_flatMap.mp member
  rcases List.mem_cons.mp found with rfl | behind
  · exact named label
  · exact left label statement behind

theorem leaving_goesTo (label : Nat) :
    GoesTo (leaving target chain label) [cycleLabel (chain.next label)] := by
  unfold leaving
  split
  · exact countedBranch_goesTo target _ _ 1
  · exact jump_goesTo target _

theorem blocks_labels (first count : Nat) : (blocks target chain first count).filterMap defined? =
    (List.range' first count).map cycleLabel := by
  induction count generalizing first with
  | zero => rfl
  | succ count ih =>
      have behind := (leaving_goesTo target chain first).unlabelled
      rw [blocks_succ, List.range'_succ, List.map_cons, ← ih (first + 1)]
      apply congrArg (cycleLabel first :: ·)
      rw [List.filterMap_append, behind, List.nil_append]

theorem leaving_fits (counted : target.architecture.Writable target.abi.argument) (label : Nat) :
    ∀ statement ∈ leaving target chain label, statement.Fits target.architecture := by
  have one : 1 ≤ target.maxDecrement := by
    obtain ⟨_ | _, abi⟩ := target
    · exact show 1 ≤ 32768 by decide
    · exact show 1 ≤ 4095 by decide
  unfold leaving
  split
  · exact countedBranch_fits target _ _ 1 counted (cycleLabel_fits _) one
  · exact jump_fits target _ (cycleLabel_fits _)

theorem leaving_confined (label : Nat) (regs : List Reg) (allowed : target.abi.argument ∈ regs) :
    ∀ statement ∈ leaving target chain label,
      target.architecture.isa.Confined regs (statement.cell target.architecture) := by
  unfold leaving
  split
  · exact countedBranch_confined target regs _ allowed _ _
  · exact jump_confined target regs _

end blocks

section returning

variable (target : Target) (size : Nat)

theorem upper_movesData : ∀ statement ∈ [target.loadUpper target.abi.result
    (Halves.ofWord (UInt32.ofNat size)).high], target.MovesData statement :=
  List.forall_mem_singleton.mpr (.loadUpper _ _)

theorem lower_steady : ∀ statement ∈ some (target.orLower target.abi.result
    (Halves.ofWord (UInt32.ofNat size)).low), statement.Steady := by
  rintro last ⟨⟩
  exact (MovesData.orLower _ _).steady

theorem returnSize_goesTo : GoesTo (returnSize target size) [] :=
  (goesTo_of_movesData _ (upper_movesData target size)).append
    (returnAfter_goesTo target _ (lower_steady target size))

theorem returnSize_confined (regs : List Reg) (allowed : target.abi.result ∈ regs) :
    ∀ statement ∈ returnSize target size,
      target.architecture.isa.Confined regs (statement.cell target.architecture) := by
  intro statement member
  rcases List.mem_cons.mp member with rfl | behind
  · exact loadUpper_confined target regs _ allowed _
  · exact returnAfter_confined target regs _ (orLower_confined target regs _ allowed _) statement
      behind

theorem returnSize_fits (architecture : Architecture) (pool : List Reg) :
    ∀ statement ∈ returnSize (withPool architecture pool) size, statement.Fits architecture := by
  have into := architecture.writable_result
  intro statement member
  rcases List.mem_cons.mp member with rfl | behind
  · exact loadUpper_fits (withPool architecture pool) _ _ into
  · refine returnAfter_fits architecture pool _ ?_ statement behind
    rintro last ⟨⟩
    exact orLower_fits (withPool architecture pool) _ _ into

end returning

section layout

variable (architecture : Architecture) (pool : List Reg) (chain : Chain) (start : String)

def exitCode (back : architecture.isa.Code) : architecture.isa.Code :=
  (returnSize (withPool architecture pool) chain.size).map (cell architecture) ++ back

def codeFrom (back : architecture.isa.Code) (label : Nat) : architecture.isa.Code :=
  (blocks (withPool architecture pool) chain label (chain.size - label)).map (cell architecture) ++
    exitCode architecture pool chain back

structure Laid (routine : Routine) (front back : architecture.isa.Code) : Prop where
  named : routine.name = symbolName start chain.size
  assembled : architecture.isa.assemble routine.lines = some
    (front ++ .label routine.name :: codeFrom architecture pool chain back 0)
  unlabelled : front.filterMap Cell.label? = []
  confined : ∀ passed ∈ front ++ .label routine.name :: codeFrom architecture pool chain back 0,
    architecture.isa.Confined [architecture.stockAbi.argument, architecture.stockAbi.result] passed

def pieces (name : String) (opening closing : List Directive) : List Statement :=
  (opening.map .directive ++ [.label name]) ++
    blocks (withPool architecture pool) chain 0 chain.size ++
    returnSize (withPool architecture pool) chain.size ++ closing.map .directive

section piecewise

variable (opening closing : List Directive)

theorem pieces_all (holds : Statement → Prop) (name : String)
    (labels : ∀ label, holds (.label (cycleLabel label))) (entry : holds (.label name))
    (directives : ∀ line, holds (.directive line))
    (left : ∀ label, ∀ statement ∈ leaving (withPool architecture pool) chain label, holds statement)
    (returns : ∀ statement ∈ returnSize (withPool architecture pool) chain.size, holds statement) :
    ∀ statement ∈ pieces architecture pool chain name opening closing, holds statement := by
  have lines (directed : List Directive) :
      ∀ statement ∈ directed.map Statement.directive, holds statement := by
    intro statement member
    obtain ⟨line, _, rfl⟩ := List.mem_map.mp member
    exact directives line
  simp only [pieces, List.forall_mem_append, List.mem_singleton, forall_eq]
  exact ⟨⟨⟨⟨lines opening, entry⟩, blocks_all _ chain holds labels left 0 chain.size⟩, returns⟩,
    lines closing⟩

theorem pieces_fit (unbroken : ∀ c ∈ start.toList, Text.isBlank c = false) :
    ∀ statement ∈ pieces architecture pool chain (symbolName start chain.size) opening closing,
      statement.Fits architecture := by
  apply pieces_all
  · exact fun label => label_of_fits architecture _ (cycleLabel_fits label)
  · exact symbol_fits architecture start chain.size unbroken
  · intro line
    cases architecture <;> trivial
  · exact leaving_fits (withPool architecture pool) chain architecture.writable_argument
  · exact returnSize_fits chain.size architecture pool

theorem pieces_confined (name : String) :
    ∀ statement ∈ pieces architecture pool chain name opening closing,
      architecture.isa.Confined [architecture.stockAbi.argument, architecture.stockAbi.result]
        (statement.cell architecture) := by
  apply pieces_all
  · exact fun label => label_confined architecture _ _
  · exact label_confined architecture _ name
  · exact directive_confined architecture _
  · intro label
    exact leaving_confined (withPool architecture pool) chain label _ List.mem_cons_self
  · exact returnSize_confined (withPool architecture pool) chain.size _ (by simp)

theorem pieces_labels (name : String) :
    (pieces architecture pool chain name opening closing).filterMap defined? =
      name :: (List.range chain.size).map cycleLabel := by
  have returns := (returnSize_goesTo (withPool architecture pool) chain.size).unlabelled
  simp only [pieces, List.filterMap_append, directives_unlabelled, returns, blocks_labels,
    List.range_eq_range']
  simp [defined?]

theorem pieces_cells (name : String) :
    (pieces architecture pool chain name opening closing).map (cell architecture) =
      (opening.map Statement.directive).map (cell architecture) ++ .label name ::
        codeFrom architecture pool chain ((closing.map Statement.directive).map (cell architecture))
          0 := by
  simp only [pieces, codeFrom, exitCode, List.map_append, List.append_assoc, List.map_cons,
    List.cons_append, List.nil_append, Nat.sub_zero]
  rfl

end piecewise

theorem emit_sound (family : CycleFamily) (present : 0 < chain.size) (sound : chain.flaw? = none) :
    family.emit chain = .ok ⟨family.symbol chain.size, family.statements chain, []⟩ := by
  rw [emit, sound, if_neg (Nat.pos_iff_ne_zero.mp present)]

theorem emit_pieces (present : 0 < chain.size) (sound : chain.flaw? = none) :
    ∃ opening closing, (⟨withPool architecture pool, start⟩ : CycleFamily).emit chain =
      .ok ⟨symbolName start chain.size,
        pieces architecture pool chain (symbolName start chain.size) opening closing, []⟩ := by
  -- any start of names will do here. The assembler asks more of it.
  let name := symbolName start chain.size
  obtain ⟨opening, opened⟩ := opening_directives (withPool architecture pool) name false
  obtain ⟨closing, closed⟩ := closing_directives (withPool architecture pool) name false
  refine ⟨opening, closing, ?_⟩
  have written : (⟨withPool architecture pool, start⟩ : CycleFamily).statements chain =
      pieces architecture pool chain name opening closing := by
    simp only [CycleFamily.statements, symbol, blocks_edges]
    rw [opened, closed]
    rfl
  rw [emit_sound chain _ present sound, written]
  rfl

theorem block_fresh (label : Nat) (inside : label < chain.size) :
    cycleLabel label ∉ symbolName start chain.size :: (List.range' 0 label).map cycleLabel := by
  -- the blocks in front of a block have smaller labels, and the entry is named for a larger number
  rw [List.mem_cons, not_or]
  refine ⟨(symbol_not_cycleLabel start chain.size label inside).symm, ?_⟩
  intro clash
  obtain ⟨other, earlier, same⟩ := List.mem_map.mp clash
  have below := List.mem_range'_1.mp earlier
  rw [cycleLabel_injective _ _ same] at below
  omega

/-- Every sound chain has a routine, and its lines assemble. -/
theorem routine_laid (present : 0 < chain.size) (sound : chain.flaw? = none)
    (unbroken : ∀ c ∈ start.toList, Text.isBlank c = false) :
    ∃ routine front back,
      (⟨withPool architecture pool, start⟩ : CycleFamily).emit chain = .ok routine ∧
      Laid architecture pool chain start routine front back := by
  let name := symbolName start chain.size
  obtain ⟨opening, closing, emitted⟩ := emit_pieces architecture pool chain start present sound
  let statements := pieces architecture pool chain name opening closing
  refine ⟨⟨name, statements, []⟩, (opening.map Statement.directive).map (cell architecture),
    (closing.map Statement.directive).map (cell architecture), emitted, rfl, ?_, ?_, ?_⟩
  · have fits := pieces_fit architecture pool chain start opening closing unbroken
    have distinct : (statements.filterMap defined?).Nodup := by
      rw [pieces_labels]
      exact entry_distinct start chain.size
    rw [← pieces_cells]
    exact assemble_texts architecture statements fits distinct
  · rw [labels_cells]
    exact directives_unlabelled opening
  · rw [← pieces_cells]
    intro passed member
    obtain ⟨statement, found, rfl⟩ := List.mem_map.mp member
    exact pieces_confined architecture pool chain opening closing name statement found

end layout

section found

variable {architecture : Architecture} {pool : List Reg} {chain : Chain} {start : String}
  (back : architecture.isa.Code)

theorem codeFrom_block (label : Nat) (inside : label < chain.size) :
    codeFrom architecture pool chain back label = .label (cycleLabel label) ::
      ((leaving (withPool architecture pool) chain label).map (cell architecture) ++
        codeFrom architecture pool chain back (label + 1)) := by
  have count : chain.size - label = chain.size - (label + 1) + 1 := by omega
  rw [codeFrom, count, blocks_succ, List.map_cons, List.map_append, List.cons_append,
    List.append_assoc, codeFrom]
  cases architecture <;> rfl

theorem codeFrom_last : codeFrom architecture pool chain back chain.size =
    exitCode architecture pool chain back := by
  rw [codeFrom, Nat.sub_self]
  rfl

theorem codeFrom_split (label : Nat) (inside : label ≤ chain.size) :
    codeFrom architecture pool chain back 0 =
      (blocks (withPool architecture pool) chain 0 label).map (cell architecture) ++
        codeFrom architecture pool chain back label := by
  have count : chain.size - 0 = label + (chain.size - label) := by omega
  rw [codeFrom, count, blocks_add, List.map_append, List.append_assoc, codeFrom, Nat.zero_add]

variable {back} {routine : Routine} {front : architecture.isa.Code}
  (laid : Laid architecture pool chain start routine front back)

include laid

theorem entry_found : architecture.isa.seek routine.name
    (front ++ .label routine.name :: codeFrom architecture pool chain back 0) =
      some (.label routine.name :: codeFrom architecture pool chain back 0) :=
  seek_append routine.name front _ (by simp [laid.unlabelled])

theorem block_found (label : Nat) (inside : label < chain.size) :
    architecture.isa.seek (cycleLabel label)
      (front ++ .label routine.name :: codeFrom architecture pool chain back 0) =
        some (codeFrom architecture pool chain back label) := by
  let before := front ++ .label routine.name ::
    (blocks (withPool architecture pool) chain 0 label).map (cell architecture)
  have labels : before.filterMap Cell.label? =
      routine.name :: (List.range' 0 label).map cycleLabel := by
    rw [List.filterMap_append, laid.unlabelled, List.nil_append, labels_cons, labels_cells,
      blocks_labels]
  have fresh : cycleLabel label ∉ before.filterMap Cell.label? := by
    rw [labels, laid.named]
    exact block_fresh chain start label inside
  rw [codeFrom_split back label (Nat.le_of_lt inside), codeFrom_block back label inside,
    ← List.cons_append, ← List.append_assoc]
  exact seek_append (cycleLabel label) before _ fresh

end found

end Microbench.CycleFamily
