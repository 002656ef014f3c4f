import Microbench.Proofs.Assembly
import Microbench.Proofs.BuiltTarget
/-!
What the operations of a target do when they run.

Each operation gives statements that fit and has one effect, said once for both
architectures in terms of C `int`s. Code generators are built from operations alone, so
nothing about them has to look at an instruction again. What differs in the end is left
open: the flags, and what the loop counter holds when a loop is over.
-/
namespace Microbench

namespace Architecture

def Writable : Architecture → Reg → Prop
  | .mips32, reg => reg.number.val < 32 ∧ reg ≠ Mips.zero
  | .aarch64, reg => reg.number.val < 31

instance (architecture : Architecture) (reg : Reg) : Decidable (architecture.Writable reg) :=
  match architecture with
  | .mips32 => inferInstanceAs (Decidable (_ ∧ _))
  | .aarch64 => inferInstanceAs (Decidable (_ < _))

theorem writable_of_free (architecture : Architecture) (reg : Reg) (free : architecture.IsFree reg) :
    architecture.Writable reg := by
  cases architecture with
  | aarch64 => exact free.1
  | mips32 =>
      refine ⟨free.1, ?_⟩
      rintro rfl
      exact free.2 (by decide)

theorem writable_argument (architecture : Architecture) :
    architecture.Writable architecture.stockAbi.argument := by cases architecture <;> decide

theorem writable_result (architecture : Architecture) :
    architecture.Writable architecture.stockAbi.result := by cases architecture <;> decide

theorem writable_counter (architecture : Architecture) :
    architecture.Writable architecture.stockAbi.counter := by cases architecture <;> decide

end Architecture

namespace Statement

def Runs (architecture : Architecture) (statement : Statement)
    (before after : architecture.isa.State) : Prop :=
  ∃ instruction, statement.cell architecture = .instruction instruction ∧
    architecture.isa.execute instruction before = some (after, .next)

theorem runs_mips (instruction : Mips.Instruction) (before after : Mips.State)
    (effect : instruction.execute before = some (after, .next)) :
    Runs .mips32 (.mips instruction) before after := ⟨instruction, rfl, effect⟩

theorem runs_aarch64 (instruction : AArch64.Instruction) (before after : AArch64.State)
    (effect : instruction.execute before = some (after, .next)) :
    Runs .aarch64 (.aarch64 instruction) before after := ⟨instruction, rfl, effect⟩

def isMultiply : Statement → Bool
  | .mips (.multiply ..) | .aarch64 (.multiply ..) => true
  | _ => false

theorem multiply_cell (architecture : Architecture) (statement : Statement)
    (fits : statement.Fits architecture) :
    architecture.isa.isMultiplyCell (statement.cell architecture) = statement.isMultiply := by
  cases architecture <;> cases statement
  case mips32.mips instruction => cases instruction <;> rfl
  case aarch64.aarch64 instruction => cases instruction <;> rfl
  case mips32.aarch64 | aarch64.mips => cases fits
  all_goals rfl

structure Plain (statement : Statement) : Prop where
  unlabelled : statement.defined? = none
  unmultiplied : statement.isMultiply = false

theorem plain_unlabelled (statements : List Statement)
    (plain : ∀ statement ∈ statements, statement.Plain) : statements.filterMap defined? = [] :=
  List.filterMap_eq_nil_iff.mpr fun statement member => (plain statement member).unlabelled

theorem directives_unlabelled (lines : List Directive) :
    (lines.map Statement.directive).filterMap defined? = [] := by
  apply List.filterMap_eq_nil_iff.mpr
  intro statement member
  obtain ⟨line, _, rfl⟩ := List.mem_map.mp member
  rfl

theorem directives_fit (architecture : Architecture) (lines : List Directive) :
    ∀ statement ∈ lines.map Statement.directive, statement.Fits architecture := by
  intro statement member
  obtain ⟨line, _, rfl⟩ := List.mem_map.mp member
  cases architecture <;> trivial

theorem plain_quiet (architecture : Architecture) (statements : List Statement)
    (fits : ∀ statement ∈ statements, statement.Fits architecture)
    (plain : ∀ statement ∈ statements, statement.Plain) :
    architecture.isa.Quiet (statements.map (cell architecture)) := by
  intro passed member
  obtain ⟨statement, found, rfl⟩ := List.mem_map.mp member
  rw [label_cell, multiply_cell architecture statement (fits statement found)]
  exact ⟨(plain statement found).unlabelled, (plain statement found).unmultiplied⟩

theorem Runs.pass_cons {architecture : Architecture} {statement : Statement}
    {before after : architecture.isa.State} (runs : Runs architecture statement before after)
    (rest : List Statement) :
    architecture.isa.pass ((statement :: rest).map (cell architecture)) before =
      architecture.isa.pass (rest.map (cell architecture)) after := by
  obtain ⟨instruction, same, effect⟩ := runs
  rw [List.map_cons, same]
  exact InstructionSet.pass_instruction instruction _ before after effect

end Statement

namespace Target
open Statement

section fitting

variable (target : Target)

theorem move_fits (rd rs : Reg) (into : target.architecture.Writable rd)
    (source : target.architecture.Writable rs) :
    (target.move rd rs).Fits target.architecture := by
  obtain ⟨_ | _, abi⟩ := target
  · exact ⟨into.1, source.1, show 0 < 32768 by decide⟩
  · exact ⟨into, source⟩

theorem loadSmall_fits (rd : Reg) (immediate : UInt16) (into : target.architecture.Writable rd)
    (small : immediate.toNat < 32768) :
    (target.loadSmall rd immediate).Fits target.architecture := by
  obtain ⟨_ | _, abi⟩ := target
  · exact ⟨into.1, show 0 < 32 by decide, small⟩
  · exact into

theorem multiply_fits (rd ra rb : Reg) (into : target.architecture.Writable rd)
    (first : target.architecture.Writable ra) (second : target.architecture.Writable rb) :
    (target.multiply rd ra rb).Fits target.architecture := by
  obtain ⟨_ | _, abi⟩ := target
  · exact ⟨into.1, first.1, second.1⟩
  · exact ⟨into, first, second⟩

theorem loadUpper_fits (rd : Reg) (half : UInt16) (into : target.architecture.Writable rd) :
    (target.loadUpper rd half).Fits target.architecture := by
  obtain ⟨_ | _, abi⟩ := target
  · exact into.1
  · exact into

theorem orLower_fits (rd : Reg) (half : UInt16) (into : target.architecture.Writable rd) :
    (target.orLower rd half).Fits target.architecture := by
  obtain ⟨_ | _, abi⟩ := target
  · exact ⟨into.1, into.1⟩
  · exact into

theorem storeRegister_fits (architecture : Architecture) (pool : List Reg) (reg : Reg)
    (offset : Nat) (named : architecture.Writable reg) (near : offset < 32768)
    (whole : offset % architecture.stockAbi.slotSize.toNat = 0) :
    ((withPool architecture pool).storeRegister reg offset).Fits architecture := by
  cases architecture
  · exact ⟨named.1, show 29 < 32 by decide, near⟩
  · exact ⟨named, near, whole⟩

theorem loadRegister_fits (architecture : Architecture) (pool : List Reg) (reg : Reg)
    (offset : Nat) (named : architecture.Writable reg) (near : offset < 32768)
    (whole : offset % architecture.stockAbi.slotSize.toNat = 0) :
    ((withPool architecture pool).loadRegister reg offset).Fits architecture := by
  cases architecture
  · exact ⟨named.1, show 29 < 32 by decide, near⟩
  · exact ⟨named, near, whole⟩

theorem adjustStack_fits (architecture : Architecture) (pool : List Reg) (delta : Int)
    (small : delta.natAbs < 4096) :
    ((withPool architecture pool).adjustStack delta).Fits architecture := by
  cases architecture
  · refine ⟨show 29 < 32 by decide, show 29 < 32 by decide, ?_⟩
    cases delta with
    | ofNat magnitude =>
        show magnitude < 32768
        simp only [Int.ofNat_eq_natCast, Int.natAbs_natCast] at small
        omega
    | negSucc magnitude =>
        show magnitude + 1 ≤ 32768
        simp only [Int.natAbs_negSucc] at small
        omega
  · show (Statement.aarch64 (if delta < 0 then .lowerStack delta.natAbs
      else .raiseStack delta.natAbs)).Fits .aarch64
    split
    · exact small
    · exact small

def LabelFits (label : String) : Prop := Mips.LabelFits label

theorem jump_fits (label : String) (fits : LabelFits label) :
    ∀ statement ∈ target.jump label, statement.Fits target.architecture := by
  obtain ⟨_ | _, abi⟩ := target
  · simp only [jump, List.mem_cons, List.not_mem_nil, or_false, forall_eq_or_imp, forall_eq]
    exact ⟨fits, trivial⟩
  · simp only [jump, List.mem_cons, List.not_mem_nil, or_false, forall_eq]
    exact fits.1

theorem countedBranch_fits (counter : Reg) (label : String) (decrement : Nat)
    (named : target.architecture.Writable counter) (fits : LabelFits label)
    (small : decrement ≤ target.maxDecrement) :
    ∀ statement ∈ target.countedBranch counter label decrement,
      statement.Fits target.architecture := by
  obtain ⟨_ | _, abi⟩ := target
  · simp only [countedBranch, List.mem_cons, List.not_mem_nil, or_false, forall_eq_or_imp, forall_eq]
    exact ⟨⟨named.1, show 0 < 32 by decide, fits⟩, named.1, named.1, small⟩
  · simp only [countedBranch, List.mem_cons, List.not_mem_nil, or_false, forall_eq_or_imp, forall_eq]
    exact ⟨⟨named, named, Nat.lt_succ_of_le small⟩, fits.1⟩

theorem loopBranch_fits (counter : Reg) (label : String) (decrement : Nat)
    (named : target.architecture.Writable counter) (fits : LabelFits label)
    (small : decrement ≤ target.maxDecrement) :
    ∀ statement ∈ target.loopBranch counter label decrement,
      statement.Fits target.architecture := by
  obtain ⟨_ | _, abi⟩ := target
  · simp only [loopBranch, List.mem_cons, List.not_mem_nil, or_false, forall_eq_or_imp, forall_eq]
    exact ⟨⟨named.1, fits⟩, named.1, named.1, small⟩
  · simp only [loopBranch, List.mem_cons, List.not_mem_nil, or_false, forall_eq_or_imp, forall_eq]
    exact ⟨⟨named, show 0 < 4096 by decide⟩, ⟨named, named, Nat.lt_succ_of_le small⟩, fits.1⟩

theorem returnAfter_fits (architecture : Architecture) (pool : List Reg) (last : Option Statement)
    (fits : ∀ statement ∈ last, statement.Fits architecture) :
    ∀ statement ∈ (withPool architecture pool).returnAfter last, statement.Fits architecture := by
  cases architecture
  · simp only [returnAfter, List.mem_cons, List.not_mem_nil, or_false, forall_eq_or_imp,
      forall_eq]
    refine ⟨show 31 < 32 by decide, ?_⟩
    cases last with
    | none => trivial
    | some statement => exact fits statement rfl
  · simp only [returnAfter, List.mem_append, Option.mem_toList, List.mem_singleton]
    rintro statement (member | rfl)
    · exact fits statement member
    · trivial

end fitting

section plainness

variable (target : Target)

theorem loopBranch_plain (counter : Reg) (label : String) (decrement : Nat) :
    ∀ statement ∈ target.loopBranch counter label decrement, statement.Plain := by
  obtain ⟨_ | _, abi⟩ := target
  all_goals
    intro statement member
    simp only [loopBranch, List.mem_cons, List.not_mem_nil, or_false] at member
  · rcases member with rfl | rfl <;> exact ⟨rfl, rfl⟩
  · rcases member with rfl | rfl | rfl <;> exact ⟨rfl, rfl⟩

theorem returnAfter_plain (last : Option Statement) (plain : ∀ statement ∈ last, statement.Plain) :
    ∀ statement ∈ target.returnAfter last, statement.Plain := by
  obtain ⟨_ | _, abi⟩ := target
  · intro statement member
    simp only [returnAfter, List.mem_cons, List.not_mem_nil, or_false] at member
    rcases member with rfl | rfl
    · exact ⟨rfl, rfl⟩
    · cases last with
      | none => exact ⟨rfl, rfl⟩
      | some last => exact plain last rfl
  · intro statement member
    simp only [returnAfter, List.mem_append, Option.mem_toList, List.mem_singleton] at member
    rcases member with found | rfl
    · exact plain statement found
    · exact ⟨rfl, rfl⟩

end plainness

section confinement

variable (target : Target)

theorem label_confined (architecture : Architecture) (regs : List Reg) (name : String) :
    architecture.isa.Confined regs (cell architecture (.label name)) := by
  cases architecture <;> exact ⟨rfl, fun _ written => nomatch written⟩

theorem directive_confined (architecture : Architecture) (regs : List Reg) (line : Directive) :
    architecture.isa.Confined regs (cell architecture (.directive line)) := by
  cases architecture <;> exact ⟨rfl, fun _ written => nomatch written⟩

theorem mips_confined (regs : List Reg) (instruction : Mips.Instruction)
    (still : instruction.touchesMemory = false) (inside : ∀ reg ∈ instruction.writes, reg ∈ regs) :
    Architecture.mips32.isa.Confined regs (cell .mips32 (.mips instruction)) :=
  ⟨still, fun reg written => inside reg (of_decide_eq_true written)⟩

theorem aarch64_confined (regs : List Reg) (instruction : AArch64.Instruction)
    (still : instruction.touchesMemory = false) (inside : ∀ reg ∈ instruction.writes, reg ∈ regs) :
    Architecture.aarch64.isa.Confined regs (cell .aarch64 (.aarch64 instruction)) :=
  ⟨still, fun reg written => inside reg (of_decide_eq_true written)⟩

theorem only_written (regs : List Reg) (rd : Reg) (allowed : rd ∈ regs) :
    ∀ reg ∈ Mips.written rd, reg ∈ regs := by
  intro reg member
  unfold Mips.written at member
  split at member
  · cases member
  · rwa [List.mem_singleton.mp member]

theorem only_assigned (regs : List Reg) (rd : Reg) (allowed : rd ∈ regs) :
    ∀ reg ∈ [rd], reg ∈ regs := by
  intro reg member
  rwa [List.mem_singleton.mp member]

variable (regs : List Reg) (rd : Reg) (allowed : rd ∈ regs)

theorem jump_confined (label : String) : ∀ statement ∈ target.jump label,
    target.architecture.isa.Confined regs (statement.cell target.architecture) := by
  obtain ⟨_ | _, abi⟩ := target
  all_goals
    intro statement member
    simp only [jump, List.mem_cons, List.not_mem_nil, or_false] at member
  · rcases member with rfl | rfl
    · exact mips_confined regs _ rfl (by rintro reg ⟨⟩)
    · exact mips_confined regs _ rfl (by rintro reg ⟨⟩)
  · rcases member with rfl
    exact aarch64_confined regs _ rfl (by rintro reg ⟨⟩)

include allowed

theorem countedBranch_confined (label : String) (decrement : Nat) :
    ∀ statement ∈ target.countedBranch rd label decrement,
      target.architecture.isa.Confined regs (statement.cell target.architecture) := by
  obtain ⟨_ | _, abi⟩ := target
  all_goals
    intro statement member
    simp only [countedBranch, List.mem_cons, List.not_mem_nil, or_false] at member
    rcases member with rfl | rfl
  · exact mips_confined regs _ rfl (by rintro reg ⟨⟩)
  · exact mips_confined regs _ rfl (only_written regs rd allowed)
  · exact aarch64_confined regs _ rfl (only_assigned regs rd allowed)
  · exact aarch64_confined regs _ rfl (by rintro reg ⟨⟩)

theorem loadUpper_confined (half : UInt16) : target.architecture.isa.Confined regs
    ((target.loadUpper rd half).cell target.architecture) := by
  obtain ⟨_ | _, abi⟩ := target
  · exact mips_confined regs _ rfl (only_written regs rd allowed)
  · exact aarch64_confined regs _ rfl (only_assigned regs rd allowed)

theorem orLower_confined (half : UInt16) : target.architecture.isa.Confined regs
    ((target.orLower rd half).cell target.architecture) := by
  obtain ⟨_ | _, abi⟩ := target
  · exact mips_confined regs _ rfl (only_written regs rd allowed)
  · exact aarch64_confined regs _ rfl (only_assigned regs rd allowed)

omit allowed

theorem returnAfter_confined (last : Statement)
    (confined : target.architecture.isa.Confined regs (last.cell target.architecture)) :
    ∀ statement ∈ target.returnAfter (some last),
      target.architecture.isa.Confined regs (statement.cell target.architecture) := by
  obtain ⟨_ | _, abi⟩ := target
  · simp only [returnAfter, Option.getD_some, List.mem_cons, List.not_mem_nil, or_false,
      forall_eq_or_imp, forall_eq]
    exact ⟨mips_confined regs _ rfl (by rintro reg ⟨⟩), confined⟩
  · simp only [returnAfter, Option.toList_some, List.mem_append, List.mem_singleton]
    rintro statement (rfl | rfl)
    · exact confined
    · exact aarch64_confined regs _ rfl (by rintro reg ⟨⟩)

end confinement

section surroundings

variable (target : Target) (name : String) (writesCounter : Bool)

/-- A function begins with directives and its entry label, and ends with directives. -/
theorem opening_directives : ∃ lines : List Directive,
    target.opening name writesCounter = lines.map .directive ++ [.label name] := by
  obtain ⟨_ | _, abi⟩ := target
  · by_cases claimed : claimsTemporary ⟨.mips32, abi⟩ writesCounter
    · simp only [opening, claimed, ↓reduceIte]
      exact ⟨[_, _, _, _, _, _, _, _], rfl⟩
    · simp only [opening, claimed]
      exact ⟨[_, _, _, _, _, _, _], rfl⟩
  · exact ⟨[_, _, _], rfl⟩

theorem closing_directives : ∃ lines : List Directive,
    target.closing name writesCounter = lines.map .directive := by
  obtain ⟨_ | _, abi⟩ := target
  · by_cases claimed : claimsTemporary ⟨.mips32, abi⟩ writesCounter
    · simp only [closing, claimed, ↓reduceIte]
      exact ⟨[_, _, _, _, _], rfl⟩
    · simp only [closing, claimed]
      exact ⟨[_, _, _, _], rfl⟩
  · exact ⟨[_], rfl⟩

end surroundings

end Target

end Microbench
