import Mathlib.Data.List.TakeWhile
import Microbench.Proofs.ChainReader
import Microbench.Proofs.CycleRun
import Microbench.Proofs.RoutineLines
/-!
All control transfers of a cycle routine, read block by block.

A reader goes through the lines and notes every control transfer with the block that it stands
in. In the routine over a chain every block has one, which leads to the successor of its label,
and the return alone has no label to lead to. So the text of a routine displays its chain, and
different chains have different texts.
-/
namespace Microbench

section reading
open Text

def cycleNumber? (label : String) : Option Nat :=
  (decimal? (label.toList.drop 2)).filter fun number => label = cycleLabel number

theorem cycleNumber_iff (label : String) (number : Nat) :
    cycleNumber? label = some number ↔ label = cycleLabel number := by
  rw [cycleNumber?, Option.filter_eq_some_iff, decide_eq_true_eq, and_iff_right_iff_imp]
  rintro rfl
  have digits : (cycleLabel number).toList.drop 2 = Nat.toDigits 10 number := by
    rw [cycleLabel, toList_numbered]
    rfl
  rw [digits, decimal_digits]

def Statement.Parts.leadsTo? (parts : Statement.Parts) : Option Nat :=
  parts.operands.getLast?.bind cycleNumber?

structure Transfer where
  block : Option Nat
  parts : Statement.Parts
deriving DecidableEq

def Transfer.edge? (transfer : Transfer) : Option Chain.Edge := do
  return ⟨← transfer.block, ← transfer.parts.leadsTo?⟩

def blockAt (block : Option Nat) (line : String) : Option Nat :=
  if endsInColon line.toList then cycleNumber? (String.ofList (dropColons line.toList)) else block

namespace Target

def transfers (target : Target) : Option Nat → List String → List Transfer
  | _, [] => []
  | block, line :: rest =>
    let here := blockAt block line
    if target.isControlTransfer line then
      ⟨here, Statement.split line⟩ :: target.transfers here rest
    else target.transfers here rest

/-- The jumps that the text of a routine shows. -/
def edgesOf? (target : Target) (text : String) : Option (List Chain.Edge) :=
  (Routine.linesOf? text).map fun lines => (target.transfers none lines).filterMap Transfer.edge?

end Target

end reading

namespace Target
open Statement Text

def returnParts (target : Target) : Parts :=
  match target.architecture with
  | .mips32 => ⟨"j", [Mips.registerText target.abi.returnAddress]⟩
  | .aarch64 => ⟨"ret", []⟩

section lines

variable (target : Target) (block : Option Nat) (rest : List String)

theorem transfers_parts (lines : List String) :
    (target.transfers block lines).map Transfer.parts = target.carried lines := by
  induction lines generalizing block with
  | nil => rfl
  | cons line lines ih =>
      rw [transfers, carried, List.filter_cons]
      split
      · rw [List.map_cons, List.map_cons, ih]
        rfl
      · exact ih _

/-- Lines that define no label stay in the block. -/
theorem transfers_inner (lines : List String)
    (inner : ∀ line ∈ lines, endsInColon line.toList = false) :
    target.transfers block (lines ++ rest) =
      (target.carried lines).map (Transfer.mk block) ++ target.transfers block rest := by
  induction lines with
  | nil => rfl
  | cons line lines ih =>
      have later := ih fun other member => inner other (List.mem_cons_of_mem line member)
      have here : blockAt block line = block := by
        rw [blockAt, inner line List.mem_cons_self]
        rfl
      rw [List.cons_append, transfers, here, later, carried, carried, List.filter_cons]
      split
      · rfl
      · rfl

theorem transfers_label (name : String) (passive : target.isControlTransfer (name ++ ":") = false)
    (plain : endsInColon name.toList = false) :
    target.transfers block ((name ++ ":") :: rest) = target.transfers (cycleNumber? name) rest := by
  rw [transfers, blockAt, colon_label, if_pos rfl, drop_label name plain, passive]
  rfl

end lines

section instructions

variable (target : Target)

theorem returnSize_carried (size : Nat) :
    target.carried ((CycleFamily.returnSize target size).map text) = [target.returnParts] := by
  obtain ⟨_ | _, abi⟩ := target
  · have parts := (Mips.Instruction.jumpRegister abi.returnAddress).split_text (by rintro _ ⟨⟩)
    simp [carried, CycleFamily.returnSize, loadUpper, orLower, returnAfter, text, mips_control,
      Mips.Instruction.parts, Mips.controlMnemonics, parts, returnParts]
  · have parts := AArch64.Instruction.ret.split_text (by rintro _ ⟨⟩)
    simp [carried, CycleFamily.returnSize, loadUpper, orLower, returnAfter, text, aarch64_control,
      AArch64.Instruction.parts, AArch64.controlMnemonics, parts, returnParts]

theorem directives_carried (lines : List Directive) :
    target.carried ((lines.map Statement.directive).map text) = [] := by
  rw [carried, List.map_eq_nil_iff, List.filter_eq_nil_iff]
  intro line member
  simp only [List.mem_map] at member
  obtain ⟨_, ⟨directive, _, rfl⟩, rfl⟩ := member
  rw [Bool.not_eq_true]
  exact target.pointed_passive directive.text directive.pointed

end instructions

end Target

namespace CycleFamily
open Statement Target

def exit (target : Target) (size : Nat) (edge : Chain.Edge) : Transfer where
  block := some edge.current
  parts :=
    if edge.current + 1 = size then
      target.branchParts target.abi.argument (cycleLabel edge.next)
    else target.jumpParts (cycleLabel edge.next)

def exits (target : Target) (chain : Chain) : List Transfer :=
  chain.edges.map (exit target chain.size) ++ [⟨some (chain.size - 1), target.returnParts⟩]

section running

variable (target : Target) (chain : Chain) (block : Option Nat) (rest : List String)

theorem transfers_statements (statements : List Statement)
    (told : ∀ statement ∈ statements, Told statement)
    (unlabelled : statements.filterMap defined? = []) :
    target.transfers block (statements.map text ++ rest) =
      (target.carried (statements.map text)).map (Transfer.mk block) ++
        target.transfers block rest := by
  apply transfers_inner
  intro line member
  obtain ⟨statement, found, rfl⟩ := List.mem_map.mp member
  rw [(told statement found).colon, List.filterMap_eq_nil_iff.mp unlabelled statement found]
  rfl

theorem block_transfers (label : Nat) :
    target.transfers block ((Statement.label (cycleLabel label) ::
        leaving target chain label).map text ++ rest) =
      exit target chain.size ⟨label, chain.next label⟩ :: target.transfers (some label) rest := by
  have passive : target.isControlTransfer (cycleLabel label ++ ":") = false :=
    pointed_passive target _ (by simp [cycleLabel])
  have numbered : cycleNumber? (cycleLabel label) = some label := (cycleNumber_iff _ label).mpr rfl
  have left := transfers_statements target (some label) rest (leaving target chain label)
    (leaving_told target chain label) (leaving_goesTo target chain label).unlabelled
  have solid := (cycleLabel_fits (chain.next label)).1
  have carries : target.carried ((leaving target chain label).map text) =
      [(exit target chain.size ⟨label, chain.next label⟩).parts] := by
    unfold leaving exit
    split
    · exact countedBranch_carried target _ solid _ 1
    · exact jump_carried target _ solid
  rw [List.map_cons, List.cons_append]
  refine (transfers_label target block _ _ passive (Text.colon_number _ label)).trans ?_
  rw [numbered, left, carries]
  rfl

/-- Every block is left once, and what comes behind the last one still stands in it. -/
theorem blocks_transfers (first count : Nat) :
    target.transfers block ((blocks target chain first (count + 1)).map text ++ rest) =
      (List.range' first (count + 1)).map
          (fun label => exit target chain.size ⟨label, chain.next label⟩) ++
        target.transfers (some (first + count)) rest := by
  induction count generalizing first block with
  | zero =>
      rw [blocks_succ, show blocks target chain (first + 1) 0 = [] from rfl, List.append_nil]
      exact block_transfers target chain block rest first
  | succ count ih =>
      have parted : (blocks target chain first (count + 1 + 1)).map text ++ rest =
          (Statement.label (cycleLabel first) :: leaving target chain first).map text ++
            ((blocks target chain (first + 1) (count + 1)).map text ++ rest) := by
        rw [blocks_succ, ← List.cons_append, List.map_append, List.append_assoc]
      have numbers : List.range' first (count + 1 + 1) =
          first :: List.range' (first + 1) (count + 1) := List.range'_succ
      have last : first + (count + 1) = first + 1 + count := by omega
      rw [parted, block_transfers, ih, numbers, last]
      rfl

end running

section routines

variable (family : CycleFamily) (chain : Chain)

/-- The last block and what is behind it, up to the directives that end the function. -/
theorem statements_end (present : 0 < chain.size) : ∃ front,
    family.statements chain = front ++ .label (cycleLabel (chain.size - 1)) ::
      (leaving family.target chain (chain.size - 1) ++ returnSize family.target chain.size ++
        family.target.closing (family.symbol chain.size) false) := by
  have count : chain.size = chain.size - 1 + 1 := by omega
  have parted := blocks_add family.target chain 0 (chain.size - 1) 1
  rw [← count, Nat.zero_add, blocks_succ] at parted
  refine ⟨family.target.opening (family.symbol chain.size) false ++
    blocks family.target chain 0 (chain.size - 1), ?_⟩
  rw [statements, blocks_edges, parted]
  simp [blocks]

end routines

section surroundings

variable (target : Target) (block : Option Nat) (start : String) (size : Nat)

theorem directives_transfers (lines : List Directive) (rest : List String)
    (told : ∀ statement ∈ lines.map Statement.directive, Told statement) :
    target.transfers block ((lines.map Statement.directive).map text ++ rest) =
      target.transfers block rest := by
  rw [transfers_statements target block rest _ told (directives_unlabelled lines),
    directives_carried]
  rfl

theorem opening_transfers (unbroken : ∀ c ∈ start.toList, Text.isBlank c = false)
    (rest : List String) :
    target.transfers block ((target.opening (symbolName start size) false).map text ++ rest) =
      target.transfers (cycleNumber? (symbolName start size)) rest := by
  -- the entry is a label too, and could be spelt as that of a block
  have told := opening_told target start size (single_of_unbroken start unbroken)
  have passive := label_passive target _ (symbol_unbroken start size unbroken)
  obtain ⟨lines, opened⟩ := opening_directives target (symbolName start size) false
  rw [opened, List.forall_mem_append] at told
  rw [opened, List.map_append, List.append_assoc, directives_transfers target block lines _ told.1]
  exact transfers_label target block rest _ passive (Text.colon_number start size)

theorem closing_transfers (single : Text.SingleLine start) :
    target.transfers block ((target.closing (symbolName start size) false).map text) = [] := by
  have told := closing_told target start size single
  obtain ⟨lines, closed⟩ := closing_directives target (symbolName start size) false
  rw [closed] at told
  have none := directives_transfers target block lines [] told
  rwa [List.append_nil, ← closed] at none

end surroundings

theorem statements_transfers (family : CycleFamily) (chain : Chain) (present : 0 < chain.size)
    (unbroken : ∀ c ∈ family.symbolStart.toList, Text.isBlank c = false) :
    family.target.transfers none ((family.statements chain).map text) =
      exits family.target chain := by
  obtain ⟨target, start⟩ := family
  let closing := (target.closing (symbolName start chain.size) false).map text
  have closes : target.transfers (some (chain.size - 1)) closing = [] :=
    closing_transfers target _ start chain.size (single_of_unbroken start unbroken)
  have returns := transfers_statements target (some (chain.size - 1)) closing
    (returnSize target chain.size) (returnSize_told target chain.size)
    (returnSize_goesTo target chain.size).unlabelled
  have around := blocks_transfers target chain (cycleNumber? (symbolName start chain.size))
    ((returnSize target chain.size).map text ++ closing) 0 (chain.size - 1)
  rw [Nat.sub_add_cancel present, Nat.zero_add, returns, returnSize_carried, closes] at around
  simp only [statements, symbol, blocks_edges, List.map_append, List.append_assoc]
  rw [opening_transfers target none start chain.size unbroken, around, exits, edges_range,
    List.map_map, List.range_eq_range']
  rfl

section displaying

/-- The code of the last block and of the return behind it: a counted branch that takes one off
the argument, and the size in two halves around the return. -/
def endingCode : (architecture : Architecture) → Abi → String → Halves → architecture.isa.Code
  | .mips32, abi, destination, halves =>
    [.instruction (Mips.Instruction.branchNotEqual abi.argument Mips.zero destination),
      .instruction (Mips.Instruction.addImmediate abi.argument abi.argument (.minus 1)),
      .instruction (Mips.Instruction.loadUpper abi.result halves.high),
      .instruction (Mips.Instruction.jumpRegister abi.returnAddress),
      .instruction (Mips.Instruction.orImmediate abi.result abi.result halves.low)]
  | .aarch64, abi, destination, halves =>
    [.instruction (AArch64.Instruction.subtractSettingFlags abi.argument abi.argument 1),
      .instruction (AArch64.Instruction.branchIf .carrySet destination),
      .instruction (AArch64.Instruction.moveUpperZeroing abi.result halves.high),
      .instruction (AArch64.Instruction.moveLowerKeeping abi.result halves.low),
      .instruction AArch64.Instruction.ret]

structure Displays (target : Target) (chain : Chain) (routine : Routine) : Prop where
  labels : routine.localLabels = (List.range chain.size).map cycleLabel
  carried : target.carried routine.lines = (exits target chain).map Transfer.parts
  leads : ((target.carried routine.lines).filter fun parts => parts.leadsTo?.isSome).length =
    chain.size
  transfers : target.transfers none routine.lines = exits target chain
  ending : ∃ front lines behind halves,
    routine.lines = front ++ (cycleLabel (chain.size - 1) ++ ":") :: (lines ++ behind) ∧
    lines.mapM target.architecture.isa.cell? = some (endingCode target.architecture target.abi
      (cycleLabel (chain.next (chain.size - 1))) halves) ∧
    halves.word.toNat = chain.size
  edges : target.edgesOf? routine.render = some chain.edges
  currents : chain.edges.map Chain.Edge.current = List.range chain.size
  nexts : chain.edges.map Chain.Edge.next = chain.successors.toList

variable (architecture : Architecture) (pool : List Reg) (chain : Chain) (start : String)

theorem ending_cells (label : Nat) (last : label + 1 = chain.size) :
    ((leaving (withPool architecture pool) chain label ++
        returnSize (withPool architecture pool) chain.size).map text).mapM architecture.isa.cell? =
      some (endingCode architecture (withPool architecture pool).abi (cycleLabel (chain.next label))
        (Halves.ofWord (UInt32.ofNat chain.size))) := by
  rw [cells_texts architecture]
  · rw [leaving, if_pos last]
    cases architecture <;> rfl
  · intro statement member
    rcases List.mem_append.mp member with left | returned
    · exact leaving_fits (withPool architecture pool) chain architecture.writable_argument label
        statement left
    · exact returnSize_fits chain.size architecture pool statement returned

theorem exit_edge (target : Target) (size : Nat) (edge : Chain.Edge) :
    (exit target size edge).parts.leadsTo? = some edge.next ∧
      (exit target size edge).edge? = some edge := by
  have numbered := (cycleNumber_iff (cycleLabel edge.next) edge.next).mpr rfl
  have leads : (exit target size edge).parts.leadsTo? = some edge.next := by
    obtain ⟨_ | _, abi⟩ := target <;> simp only [exit] <;> split <;> exact numbered
  refine ⟨leads, ?_⟩
  simp only [Transfer.edge?, leads]
  rfl

theorem return_leads (target : Target) : target.returnParts.leadsTo? = none := by
  -- a register is no label, and neither is nothing at all
  obtain ⟨_ | _, abi⟩ := target
  · show cycleNumber? (Mips.registerText abi.returnAddress) = none
    rw [Option.eq_none_iff_forall_ne_some]
    intro number numbered
    have first := congrArg (fun text : String => text.toList.head?)
      ((cycleNumber_iff _ number).mp numbered)
    simp [Mips.registerText, cycleLabel] at first
  · rfl

theorem exits_edges (target : Target) (chain : Chain) :
    (exits target chain).filterMap Transfer.edge? = chain.edges := by
  have returned : Transfer.edge? ⟨some (chain.size - 1), target.returnParts⟩ = none := by
    simp only [Transfer.edge?, return_leads]
    rfl
  have each : Transfer.edge? ∘ exit target chain.size = some :=
    funext fun edge => (exit_edge target chain.size edge).2
  rw [exits, List.filterMap_append, List.filterMap_map, each, List.filterMap_some,
    List.filterMap_cons_none returned, List.filterMap_nil, List.append_nil]

theorem exits_lead (target : Target) (chain : Chain) :
    (((exits target chain).map Transfer.parts).filter fun parts => parts.leadsTo?.isSome).length =
      chain.size := by
  have each : ∀ parts ∈ (chain.edges.map (exit target chain.size)).map Transfer.parts,
      parts.leadsTo?.isSome = true := by
    simp only [List.mem_map, forall_exists_index, and_imp, forall_apply_eq_imp_iff₂]
    intro edge _
    rw [(exit_edge target chain.size edge).1]
    rfl
  have counted := congrArg List.length chain.currents
  rw [List.length_map, List.length_range] at counted
  rw [exits, List.map_append, List.filter_append, List.filter_eq_self.mpr each, List.map_singleton,
    List.filter_cons_of_neg (by simp [return_leads]), List.filter_nil, List.append_nil,
    List.length_map, List.length_map, counted]

theorem routine_displays (accepted : sizeFault? chain.size = none) (sound : chain.flaw? = none)
    (unbroken : ∀ c ∈ start.toList, Text.isBlank c = false) :
    ∃ routine, (⟨withPool architecture pool, start⟩ : CycleFamily).emit chain = .ok routine ∧
      Displays (withPool architecture pool) chain routine := by
  let family : CycleFamily := ⟨withPool architecture pool, start⟩
  let routine : Routine := ⟨family.symbol chain.size, family.statements chain, []⟩
  have present := Chain.present_of_accepted accepted
  have single := single_of_unbroken start unbroken
  have transfers : (withPool architecture pool).transfers none routine.lines =
      exits (withPool architecture pool) chain :=
    statements_transfers family chain present unbroken
  have carried : (withPool architecture pool).carried routine.lines =
      (exits (withPool architecture pool) chain).map Transfer.parts := by
    rw [← transfers_parts _ none, transfers]
  refine ⟨routine, emit_sound chain family present sound, ?_⟩
  constructor
  case labels => exact localLabels_blocks family chain single []
  case transfers => exact transfers
  case currents => exact chain.currents
  case nexts => exact chain.nexts
  case carried => exact carried
  case leads => rw [carried, exits_lead]
  case edges =>
    rw [edgesOf?, Routine.linesOf_render routine (statements_told family chain single),
      Option.map_some, transfers, exits_edges]
  case ending =>
    obtain ⟨front, parted⟩ := statements_end family chain present
    obtain ⟨_, _, most⟩ := (Chain.sizeFault_none_iff _).mp accepted
    refine ⟨front.map text, _, (family.target.closing (family.symbol chain.size) false).map text,
      Halves.ofWord (UInt32.ofNat chain.size), ?_,
      ending_cells architecture pool chain (chain.size - 1) (Nat.sub_add_cancel present), ?_⟩
    · show (family.statements chain).map text = _
      rw [parted, List.map_append, List.map_cons, List.map_append]
      rfl
    · rw [Halves.word_ofWord]
      exact UInt32.toNat_ofNat_of_lt' (Nat.lt_of_le_of_lt most (by decide))

/-- The text of a cycle routine displays its chain. So different chains have different texts, and a
chain that is at fault has no routine. -/
theorem routines_display_chains (architecture : Architecture) (pool : Option (List Reg))
    (target : Target) (start : String) (built : Target.build architecture pool = .ok target)
    (unbroken : ∀ c ∈ start.toList, Text.isBlank c = false) :
    (∀ order chain, Chain.ofOrder order = .ok chain → ∃ routine,
      (⟨target, start⟩ : CycleFamily).emit chain = .ok routine ∧ Displays target chain routine) ∧
    (∀ first second chain other routine twin, Chain.ofOrder first = .ok chain →
      Chain.ofOrder second = .ok other → chain ≠ other →
      (⟨target, start⟩ : CycleFamily).emit chain = .ok routine →
      (⟨target, start⟩ : CycleFamily).emit other = .ok twin → routine.render ≠ twin.render) ∧
    ∀ chain flaw, chain.flaw? = some flaw →
      (⟨target, start⟩ : CycleFamily).emit chain = .error (.brokenCycle chain.size flaw) := by
  obtain ⟨rfl, _⟩ := build_withPool architecture pool target built
  have shown (order : List Nat) (chain : Chain) (made : Chain.ofOrder order = .ok chain) :=
    routine_displays architecture (pool.getD architecture.stockAbi.accumulators) chain start
      (Chain.ofOrder_checked order chain made).1 (Chain.ofOrder_checked order chain made).2 unbroken
  refine ⟨shown, ?_, ?_⟩
  · intro first second chain other routine twin made also different emitted besides same
    obtain ⟨_, again, shows⟩ := shown first chain made
    cases emitted.symm.trans again
    obtain ⟨_, again, others⟩ := shown second other also
    cases besides.symm.trans again
    have edges := shows.edges
    rw [same, others.edges, Option.some.injEq] at edges
    apply different
    have tables : chain.successors.toList = other.successors.toList := by
      rw [← shows.nexts, ← others.nexts, edges]
    exact congrArg Chain.mk (Array.toList_inj.mp tables)
  · intro chain flaw found
    rw [emit, found]

/-- Two chains of the smallest size. -/
theorem routines_display_chains_four : ∃ routine twin : Routine,
    Chain.ofOrder [0, 1, 2, 3] = .ok ⟨#[1, 2, 3, 0]⟩ ∧
    Chain.ofOrder [0, 2, 1, 3] = .ok ⟨#[2, 3, 1, 0]⟩ ∧
    Displays (stock .mips32) ⟨#[1, 2, 3, 0]⟩ routine ∧
    Displays (stock .mips32) ⟨#[2, 3, 1, 0]⟩ twin ∧ routine.render ≠ twin.render := by
  have ascending : Chain.ofOrder [0, 1, 2, 3] = .ok ⟨#[1, 2, 3, 0]⟩ := by decide +kernel
  have crossing : Chain.ofOrder [0, 2, 1, 3] = .ok ⟨#[2, 3, 1, 0]⟩ := by decide +kernel
  obtain ⟨shows, differ, _⟩ :=
    routines_display_chains .mips32 none (stock .mips32) "goto_test" rfl (by simp [Text.isBlank])
  obtain ⟨routine, emitted, shown⟩ := shows _ _ ascending
  obtain ⟨twin, besides, displayed⟩ := shows _ _ crossing
  exact ⟨routine, twin, ascending, crossing, shown, displayed,
    differ _ _ _ _ routine twin ascending crossing (by decide) emitted besides⟩

end displaying

end CycleFamily

end Microbench
