import Mathlib.Data.List.Basic
import Microbench.Proofs.LabelsResolve
/-!
Delay slots and assembler modes in the text of MIPS32 functions.

Where an assembler may not reorder, the statement behind a control transfer is its delay slot,
whatever it is. Operations that move control bring the statement for the slot with them, and it is
an instruction that moves control nowhere. Nothing that is put in front of them or behind them can
change that, so it holds of whole functions. All instructions of a function stand where the
assembler neither reorders nor expands them, and the register that it keeps for itself is taken
from it exactly in those functions that name it.
-/
namespace Microbench

namespace Mips

def Instruction.registers : Instruction → List Reg
  | .jump _ | .nop => []
  | .jumpRegister rs | .branchPositiveLikely rs _ | .loadUpper rs _ => [rs]
  | .branchNotEqual rs rt _ | .addImmediate rt rs _ | .orImmediate rt rs _
  | .storeWord rt _ rs | .loadWord rt _ rs => [rt, rs]
  | .multiply rd rs rt => [rd, rs, rt]

def instruction? (line : String) : Option Instruction :=
  (instructionSet.cell? line).bind Cell.instruction?

def UsesTemporary (line : String) : Prop :=
  ∃ instruction, instruction? line = some instruction ∧ assemblerTemporary ∈ instruction.registers

def modeLines (modes : List String) : List String := modes.map (".set " ++ ·)

/-- All instructions stand between the lines that put the assembler into some modes and those that
put it into others, and none of the latter stands among them. -/
def Covers (lines on off : List String) : Prop :=
  ∃ front inner back, lines = front ++ modeLines on ++ inner ++ modeLines off ++ back ∧
    (∀ line ∈ front ++ back, instruction? line = none) ∧ ∀ line ∈ modeLines off, line ∉ inner

/-- What is asked of the lines of a function by an assembler that takes them as they stand. -/
structure Disciplined (target : Target) (name : String) (lines : List String) : Prop where
  read : ∀ line ∈ lines, (instructionSet.cell? line).isSome = true
  covered : Covers lines ["noreorder", "nomacro"] ["reorder", "macro"]
  filled : ∀ index line, lines[index]? = some line → target.isControlTransfer line = true →
    ∃ slot, lines[index + 1]? = some slot ∧ (instruction? slot).isSome = true ∧
      target.isControlTransfer slot = false
  claimed : Covers lines ["noat"] ["at"] ↔ ∃ line ∈ lines, UsesTemporary line
  unclaimed : (¬ ∃ line ∈ lines, UsesTemporary line) → ∀ line ∈ modeLines ["noat", "at"],
    line ∉ lines
  entered : lines.filter (Statement.startsWithOneOf [".ent"]) = [".ent " ++ name]
  left : lines.filter (Statement.startsWithOneOf [".end"]) = [".end " ++ name]

end Mips

namespace Statement
open Text

section slots

def Slotted (statements : List Statement) : Prop :=
  ∀ index transfer, statements[index]? = some transfer → transfer.isTransfer = true →
    ∃ slot, statements[index + 1]? = some slot ∧ slot.Steady

theorem slotted_of_still (statements : List Statement)
    (still : ∀ statement ∈ statements, statement.isTransfer = false) : Slotted statements := by
  intro index transfer found moves
  rw [still transfer (List.mem_of_getElem? found)] at moves
  cases moves

theorem slotted_of_steady (statements : List Statement)
    (steady : ∀ statement ∈ statements, statement.Steady) : Slotted statements :=
  slotted_of_still statements fun statement member => (steady statement member).stays

theorem slotted_of_movesData {target : Target} (statements : List Statement)
    (moves : ∀ statement ∈ statements, target.MovesData statement) : Slotted statements :=
  slotted_of_steady statements fun statement member => (moves statement member).steady

theorem label_slotted (name : String) : Slotted [.label name] :=
  slotted_of_still _ (by simp [isTransfer])

theorem slotted_pair (transfer slot : Statement) (steady : slot.Steady) :
    Slotted [transfer, slot] := by
  intro index other found moves
  match index with
  | 0 => exact ⟨slot, rfl, steady⟩
  | 1 =>
      cases found
      rw [steady.stays] at moves
      cases moves
  | _ + 2 => cases found

theorem Slotted.append {front back : List Statement} (first : Slotted front)
    (second : Slotted back) : Slotted (front ++ back) := by
  intro index transfer found moves
  by_cases inside : index < front.length
  · rw [List.getElem?_append_left inside] at found
    obtain ⟨slot, behind, steady⟩ := first index transfer found moves
    have within := (List.getElem?_eq_some_iff.mp behind).1
    exact ⟨slot, by rw [List.getElem?_append_left within, behind], steady⟩
  · have later : front.length ≤ index := Nat.not_lt.mp inside
    rw [List.getElem?_append_right later] at found
    obtain ⟨slot, behind, steady⟩ := second _ transfer found moves
    refine ⟨slot, ?_, steady⟩
    rw [List.getElem?_append_right (Nat.le_succ_of_le later), Nat.succ_sub later, behind]

end slots

section operations
open Target

variable (abi : Abi)

theorem returnAfter_slotted (last : Option Statement)
    (steady : ∀ statement ∈ last, statement.Steady) :
    Slotted ((⟨.mips32, abi⟩ : Target).returnAfter last) := by
  apply slotted_pair
  cases last with
  | none => exact ⟨rfl, rfl⟩
  | some last => exact steady last rfl

end operations

end Statement

section reading
open Statement Text

def Directive.word : Directive → String
  | .textSection => ".text"
  | .align _ => ".align"
  | .global _ => ".globl"
  | .entry _ => ".ent"
  | .endEntry _ => ".end"
  | .functionType .. => ".type"
  | .set _ => ".set"
  | .size _ => ".size"

theorem Directive.word_text (line : Directive) : (split line.text).mnemonic = line.word := by
  cases line
  case textSection => exact congrArg Parts.mnemonic (split_word ".text" (by decide))
  all_goals
    simp only [word]
    apply mnemonic_written
    · decide
    · simp [text]
      rfl

namespace Statement

structure Coded (statement : Statement) : Prop where
  fits : statement.Fits .mips32
  proper : ∀ line, statement ≠ .directive line

theorem coded_of_runs (statement : Statement) (fits : statement.Fits .mips32)
    (runs : statement.isInstruction = true) : statement.Coded where
  fits := fits
  proper := by
    rintro line rfl
    cases runs

theorem label_coded (name : String) (unbroken : ∀ c ∈ name.toList, isBlank c = false) :
    (Statement.label name).Coded where
  fits := unbroken
  proper := nofun

def NamesTemporary (statement : Statement) : Prop :=
  ∃ instruction, statement = .mips instruction ∧ Mips.assemblerTemporary ∈ instruction.registers

theorem instruction_cell (statement : Statement) (fits : statement.Fits .mips32) :
    Mips.instruction? statement.text = (statement.cell .mips32).instruction? :=
  congrArg (Option.bind · Cell.instruction?) (cell_text .mips32 statement fits)

theorem instruction_text (statement : Statement) (fits : statement.Fits .mips32)
    (runs : statement.isInstruction = true) :
    (Mips.instruction? statement.text).isSome = true := by
  rw [instruction_cell statement fits]
  cases statement with
  | mips instruction => rfl
  | aarch64 instruction => cases fits
  | _ => cases runs

theorem temporary_text (statement : Statement) (fits : statement.Fits .mips32) :
    Mips.UsesTemporary statement.text ↔ statement.NamesTemporary := by
  simp only [Mips.UsesTemporary, instruction_cell statement fits, NamesTemporary]
  refine exists_congr fun instruction => and_congr_left fun _ => ?_
  cases statement with
  | mips found =>
      constructor
      · rintro ⟨⟩
        rfl
      · rintro ⟨⟩
        rfl
  | _ => simp [cell, Cell.instruction?]

theorem mode_text (statement : Statement) (fits : statement.Fits .mips32) (mode : String)
    (same : statement.text = ".set " ++ mode) : statement = .directive (.set mode) := by
  have read := cell_text .mips32 statement fits
  rw [same] at read
  have directive := directive_line Mips.instructionSet (.set mode)
  have passed : statement.cell .mips32 = .directive := Option.some.inj (read.symm.trans directive)
  cases statement with
  | directive line =>
      have word : line.word = ".set" := by
        rw [← line.word_text, show line.text = ".set " ++ mode from same]
        exact (Directive.set mode).word_text
      cases line with
      | set other =>
          have modes : ".set " ++ other = ".set " ++ mode := same
          rw [(String.append_right_inj ".set ").mp modes]
      | _ => simp [Directive.word] at word
  | label name => cases passed
  | mips instruction => cases passed
  | aarch64 instruction => cases fits
  | verbatim line => cases fits

theorem Coded.begins {statement : Statement} (coded : statement.Coded) (word : String)
    (pointed : word.toList.head? = some '.') (plain : endsInColon word.toList = false) :
    startsWithOneOf [word] statement.text = false := by
  -- a label's line ends in a colon, and the mnemonic of an instruction begins with a letter
  have other : (split statement.text).mnemonic ≠ word := by
    rintro rfl
    cases statement with
    | label name =>
        rw [text, label_mnemonic name coded.fits, colon_label] at plain
        cases plain
    | directive line => exact coded.proper line rfl
    | mips instruction =>
        rw [text, instruction.mnemonic_text] at pointed
        cases instruction <;> simp [Mips.Instruction.parts] at pointed
    | aarch64 instruction => cases coded.fits
    | verbatim line => cases coded.fits
  simpa [startsWithOneOf_split] using other

theorem directives_begin (lines : List Directive) (word : String) :
    ((lines.map Statement.directive).map text).filter (startsWithOneOf [word]) =
      (lines.filter fun line => line.word == word).map Directive.text := by
  rw [List.map_map, List.filter_map]
  refine congrArg _ (List.filter_congr fun line _ => ?_)
  have written : (text ∘ Statement.directive) line = line.text := rfl
  rw [Function.comp, written, startsWithOneOf_split, line.word_text, Bool.eq_iff_iff]
  simp

end Statement

end reading

namespace Mips
open Statement

section covering

variable (front back : List Directive) (on off : List String) (inner : List Statement)

def switched (front : List Directive) (on : List String) (inner : List Statement)
    (off : List String) (back : List Directive) : List Statement :=
  front.map .directive ++ on.map (fun mode => .directive (.set mode)) ++ inner ++
    off.map (fun mode => .directive (.set mode)) ++ back.map .directive

theorem covers_switched (fits : ∀ statement ∈ inner, statement.Fits .mips32)
    (kept : ∀ mode ∈ off, Statement.directive (.set mode) ∉ inner) :
    Covers ((switched front on inner off back).map text) on off := by
  have silent (lines : List Directive) :
      ∀ line ∈ (lines.map Statement.directive).map text, instruction? line = none := by
    intro line member
    obtain ⟨statement, found, rfl⟩ := List.mem_map.mp member
    obtain ⟨directive, _, rfl⟩ := List.mem_map.mp found
    exact congrArg (Option.bind · Cell.instruction?) (directive_line instructionSet directive)
  have modes (words : List String) :
      (words.map fun mode => Statement.directive (.set mode)).map text = modeLines words := by
    rw [List.map_map]
    rfl
  refine ⟨(front.map .directive).map text, inner.map text, (back.map .directive).map text, ?_,
    List.forall_mem_append.mpr ⟨silent front, silent back⟩, ?_⟩
  · simp only [switched, List.map_append, modes]
  · intro line member inside
    obtain ⟨mode, found, rfl⟩ := List.mem_map.mp member
    obtain ⟨statement, present, same⟩ := List.mem_map.mp inside
    have switch := statement.mode_text (fits statement present) mode same
    exact kept mode found (switch ▸ present)

end covering

section functions

variable (claimed : Bool) (name : String) (code : List Statement)

def directivesBefore : List Directive :=
  [.align 2, .global name, .set "nomips16", .entry name, .functionType name .atSign,
    .set "noreorder", .set "nomacro"] ++ if claimed then [.set "noat"] else []

def directivesBehind : List Directive :=
  [.set "reorder", .set "macro"] ++ (if claimed then [.set "at"] else []) ++
    [.endEntry name, .size name]

def enclosed : List Statement :=
  (directivesBefore claimed name).map .directive ++ code ++
    (directivesBehind claimed name).map .directive

theorem opening_closing (abi : Abi) (writesCounter : Bool) :
    (⟨.mips32, abi⟩ : Target).opening name writesCounter ++ code ++
        (⟨.mips32, abi⟩ : Target).closing name writesCounter =
      enclosed (Target.claimsTemporary ⟨.mips32, abi⟩ writesCounter) name
        (.label name :: code) := by
  cases claims : Target.claimsTemporary ⟨.mips32, abi⟩ writesCounter <;>
    simp [Target.opening, Target.closing, enclosed, directivesBefore, directivesBehind, claims]

variable (coded : ∀ statement ∈ code, statement.Coded)

include coded

theorem enclosed_fits : ∀ statement ∈ enclosed claimed name code, statement.Fits .mips32 :=
  List.forall_mem_append.mpr ⟨List.forall_mem_append.mpr ⟨directives_fit .mips32 _,
    fun statement member => (coded statement member).fits⟩, directives_fit .mips32 _⟩

theorem enclosed_covered : Covers ((enclosed claimed name code).map text) ["noreorder", "nomacro"]
    ["reorder", "macro"] := by
  let inner := (if claimed then [Statement.directive (.set "noat")] else []) ++ code
  have parted : enclosed claimed name code = switched
      [.align 2, .global name, .set "nomips16", .entry name, .functionType name .atSign]
      ["noreorder", "nomacro"] inner ["reorder", "macro"]
      ((if claimed then [.set "at"] else []) ++ [.endEntry name, .size name]) := by
    cases claimed <;> simp [enclosed, switched, directivesBefore, directivesBehind, inner]
  rw [parted]
  apply covers_switched
  · refine List.forall_mem_append.mpr ⟨?_, fun statement member => (coded statement member).fits⟩
    cases claimed <;> simp [Statement.Fits]
  · intro mode member present
    rcases List.mem_append.mp present with switch | proper
    · cases claimed <;> simp_all
    · exact (coded _ proper).proper _ rfl

theorem enclosed_claimed : Covers ((enclosed true name code).map text) ["noat"] ["at"] := by
  have parted : enclosed true name code = switched
      [.align 2, .global name, .set "nomips16", .entry name, .functionType name .atSign,
        .set "noreorder", .set "nomacro"]
      ["noat"] (code ++ [.directive (.set "reorder"), .directive (.set "macro")]) ["at"]
      [.endEntry name, .size name] := by
    simp [enclosed, switched, directivesBefore, directivesBehind]
  rw [parted]
  apply covers_switched
  · refine List.forall_mem_append.mpr ⟨fun statement member => (coded statement member).fits, ?_⟩
    simp [Statement.Fits]
  · intro mode member present
    cases List.mem_singleton.mp member
    rcases List.mem_append.mp present with proper | switch
    · exact (coded _ proper).proper _ rfl
    · simp at switch

theorem enclosed_unclaimed : ∀ line ∈ modeLines ["noat", "at"],
    line ∉ (enclosed false name code).map text := by
  have first : ∀ mode ∈ ["noat", "at"], Directive.set mode ∉ directivesBefore false name := by
    simp [directivesBefore]
  have last : ∀ mode ∈ ["noat", "at"], Directive.set mode ∉ directivesBehind false name := by
    simp [directivesBehind]
  intro line member present
  obtain ⟨mode, either, rfl⟩ := List.mem_map.mp member
  obtain ⟨statement, found, same⟩ := List.mem_map.mp present
  have switch := statement.mode_text (enclosed_fits false name code coded statement found) mode same
  rcases List.mem_append.mp (switch ▸ found) with inside | after
  · rcases List.mem_append.mp inside with front | proper
    · exact first mode either (by simpa using front)
    · exact (coded _ proper).proper _ rfl
  · exact last mode either (by simpa using after)

theorem enclosed_begins (word : String) (pointed : word.toList.head? = some '.')
    (plain : Text.endsInColon word.toList = false) :
    ((enclosed claimed name code).map text).filter (startsWithOneOf [word]) =
      ((directivesBefore claimed name ++ directivesBehind claimed name).filter
        fun line => line.word == word).map Directive.text := by
  have quiet : (code.map text).filter (startsWithOneOf [word]) = [] := by
    refine List.filter_eq_nil_iff.mpr fun line member => ?_
    obtain ⟨statement, found, rfl⟩ := List.mem_map.mp member
    rw [(coded statement found).begins word pointed plain]
    decide
  simp only [enclosed, List.map_append, List.filter_append, directives_begin, quiet,
    List.append_nil]

theorem enclosed_uses : (∃ line ∈ (enclosed claimed name code).map text, UsesTemporary line) ↔
    ∃ statement ∈ code, statement.NamesTemporary := by
  have fits := enclosed_fits claimed name code coded
  have silent (lines : List Directive) :
      ∀ statement ∈ lines.map Statement.directive, ¬ statement.NamesTemporary := by
    rintro statement member ⟨instruction, rfl, _⟩
    simp at member
  constructor
  · rintro ⟨line, member, uses⟩
    obtain ⟨statement, found, rfl⟩ := List.mem_map.mp member
    have names := (statement.temporary_text (fits statement found)).mp uses
    rcases List.mem_append.mp found with inside | after
    · rcases List.mem_append.mp inside with front | own
      · exact absurd names (silent _ statement front)
      · exact ⟨statement, own, names⟩
    · exact absurd names (silent _ statement after)
  · rintro ⟨statement, own, names⟩
    have found : statement ∈ enclosed claimed name code := by simp [enclosed, own]
    exact ⟨statement.text, List.mem_map_of_mem found,
      (statement.temporary_text (fits statement found)).mpr names⟩

variable (abi : Abi) (slotted : Slotted code)

include slotted

omit coded in
theorem enclosed_slotted : Slotted (enclosed claimed name code) := by
  have still (lines : List Directive) : Slotted (lines.map Statement.directive) := by
    apply slotted_of_still
    intro statement member
    obtain ⟨line, _, rfl⟩ := List.mem_map.mp member
    rfl
  exact ((still _).append slotted).append (still _)

/-- What the statements say of their slots, their lines say. -/
theorem enclosed_filled (index : Nat) (line : String)
    (found : ((enclosed claimed name code).map text)[index]? = some line)
    (moves : Target.isControlTransfer ⟨.mips32, abi⟩ line = true) :
    ∃ slot, ((enclosed claimed name code).map text)[index + 1]? = some slot ∧
      (instruction? slot).isSome = true ∧
      Target.isControlTransfer ⟨.mips32, abi⟩ slot = false := by
  have fits := enclosed_fits claimed name code coded
  rw [List.getElem?_map] at found
  obtain ⟨transfer, present, rfl⟩ := Option.map_eq_some_iff.mp found
  rw [transfer_text _ transfer (fits transfer (List.mem_of_getElem? present))] at moves
  obtain ⟨slot, next, steady⟩ :=
    enclosed_slotted claimed name code slotted index transfer present moves
  have fit := fits slot (List.mem_of_getElem? next)
  refine ⟨slot.text, ?_, slot.instruction_text fit steady.runs, ?_⟩
  · rw [List.getElem?_map, next]
    rfl
  · rw [transfer_text _ slot fit, steady.stays]

theorem enclosed_disciplined
    (temporary : claimed = true ↔ ∃ statement ∈ code, statement.NamesTemporary) :
    Disciplined ⟨.mips32, abi⟩ name ((enclosed claimed name code).map text) := by
  have fits := enclosed_fits claimed name code coded
  have uses := (enclosed_uses claimed name code coded).trans temporary.symm
  have unclaimed (free : claimed = false) : ∀ line ∈ modeLines ["noat", "at"],
      line ∉ (enclosed claimed name code).map text := free ▸ enclosed_unclaimed name code coded
  constructor
  case read =>
    intro line member
    obtain ⟨statement, found, rfl⟩ := List.mem_map.mp member
    exact Option.isSome_iff_exists.mpr ⟨_, cell_text .mips32 statement (fits statement found)⟩
  case covered => exact enclosed_covered claimed name code coded
  case filled => exact enclosed_filled claimed name code coded abi slotted
  case claimed =>
    rw [uses]
    constructor
    · rintro ⟨front, inner, back, parted, _⟩
      cases claimed with
      | true => rfl
      | false =>
          refine absurd ?_ (unclaimed rfl ".set noat" (by decide))
          simp [parted, modeLines]
    · rintro rfl
      exact enclosed_claimed name code coded
  case unclaimed =>
    rw [uses, Bool.not_eq_true]
    exact unclaimed
  case entered =>
    rw [enclosed_begins claimed name code coded ".ent" (by decide) (by decide)]
    cases claimed <;> rfl
  case left =>
    rw [enclosed_begins claimed name code coded ".end" (by decide) (by decide)]
    cases claimed <;> rfl

end functions

end Mips

namespace CycleFamily
open Statement Target

section routines

variable (pool : List Reg) (chain : Chain) (start : String)

theorem leaving_slotted (abi : Abi) (label : Nat) : Slotted (leaving ⟨.mips32, abi⟩ chain label) := by
  unfold leaving
  split
  · exact slotted_pair _ _ ⟨rfl, rfl⟩
  · exact slotted_pair _ _ ⟨rfl, rfl⟩

theorem blocks_slotted (abi : Abi) (first count : Nat) :
    Slotted (blocks ⟨.mips32, abi⟩ chain first count) := by
  induction count generalizing first with
  | zero => exact slotted_of_still [] nofun
  | succ count ih =>
      rw [blocks_succ]
      exact (label_slotted _).append ((leaving_slotted chain abi first).append (ih (first + 1)))

theorem returnSize_slotted (abi : Abi) (size : Nat) :
    Slotted (returnSize ⟨.mips32, abi⟩ size) :=
  (slotted_of_movesData _ (upper_movesData ⟨.mips32, abi⟩ size)).append
    (returnAfter_slotted abi _ (lower_steady ⟨.mips32, abi⟩ size))

theorem code_coded : ∀ statement ∈ blocks (withPool .mips32 pool) chain 0 chain.size ++
    returnSize (withPool .mips32 pool) chain.size, statement.Coded := by
  let target := withPool .mips32 pool
  have left (label : Nat) : ∀ statement ∈ leaving target chain label, statement.Coded :=
    fun statement member => coded_of_runs statement
      (leaving_fits target chain Architecture.mips32.writable_argument label statement member)
      ((leaving_goesTo target chain label).runs statement member)
  have returns : ∀ statement ∈ returnSize target chain.size, statement.Coded :=
    fun statement member => coded_of_runs statement
      (returnSize_fits chain.size .mips32 pool statement member)
      ((returnSize_goesTo target chain.size).runs statement member)
  have named (label : Nat) : (Statement.label (cycleLabel label)).Coded :=
    ⟨label_of_fits .mips32 _ (cycleLabel_fits label), nofun⟩
  exact List.forall_mem_append.mpr ⟨blocks_all target chain Coded named left 0 chain.size, returns⟩

theorem code_spares_temporary : ∀ statement ∈ blocks (withPool .mips32 pool) chain 0 chain.size ++
    returnSize (withPool .mips32 pool) chain.size, ¬ statement.NamesTemporary := by
  -- no routine counts in the register that assemblers keep for themselves
  let target := withPool .mips32 pool
  have left (label : Nat) : ∀ statement ∈ leaving target chain label, ¬ statement.NamesTemporary := by
    unfold leaving
    split
    · have apart : Mips.assemblerTemporary ∉ [Mips.zero, Architecture.mips32.stockAbi.argument] := by
        decide
      simpa [target, countedBranch, NamesTemporary, Mips.Instruction.registers] using apart
    · simp [target, jump, NamesTemporary, Mips.Instruction.registers]
  have returns : ∀ statement ∈ returnSize target chain.size, ¬ statement.NamesTemporary := by
    have apart : Mips.assemblerTemporary ∉ [Architecture.mips32.stockAbi.result,
        Architecture.mips32.stockAbi.returnAddress] := by decide
    simpa [target, returnSize, returnAfter, loadUpper, orLower, NamesTemporary,
      Mips.Instruction.registers, and_comm] using apart
  exact List.forall_mem_append.mpr ⟨blocks_all target chain (fun statement =>
    ¬ statement.NamesTemporary) (by simp [NamesTemporary]) left 0 chain.size, returns⟩

theorem routine_disciplined (order : List Nat) (made : Chain.ofOrder order = .ok chain)
    (unbroken : ∀ c ∈ start.toList, Text.isBlank c = false) :
    ∃ routine, (⟨withPool .mips32 pool, start⟩ : CycleFamily).emit chain = .ok routine ∧
      routine.name = symbolName start chain.size ∧
      Mips.Disciplined (withPool .mips32 pool) routine.name routine.lines := by
  let family : CycleFamily := ⟨withPool .mips32 pool, start⟩
  let name := symbolName start chain.size
  let code := blocks family.target chain 0 chain.size ++ returnSize family.target chain.size
  obtain ⟨accepted, sound⟩ := Chain.ofOrder_checked order chain made
  refine ⟨_, emit_sound chain family (Chain.present_of_accepted accepted) sound, rfl, ?_⟩
  have entry := label_coded name (symbol_unbroken start chain.size unbroken)
  have slotted := (blocks_slotted chain family.target.abi 0 chain.size).append
    (returnSize_slotted family.target.abi chain.size)
  have spared := code_spares_temporary pool chain
  have written : family.statements chain = Mips.enclosed false name (.label name :: code) := by
    rw [show false = claimsTemporary family.target false from rfl, ← Mips.opening_closing]
    simp only [CycleFamily.statements, symbol, blocks_edges, code, List.append_assoc]
    rfl
  rw [Routine.lines, written]
  apply Mips.enclosed_disciplined false name (.label name :: code)
    (List.forall_mem_cons.mpr ⟨entry, code_coded pool chain⟩) _
    ((label_slotted name).append slotted)
  constructor
  · rintro ⟨⟩
  · rintro ⟨statement, member, names⟩
    rcases List.mem_cons.mp member with rfl | inside
    · simp [NamesTemporary] at names
    · exact absurd names (spared statement inside)

end routines

end CycleFamily

namespace MultiplyFamily
open Statement Target

section functions

variable (pool : List Reg) (maxWidth unroll width : Nat) (start : String)

theorem epilogue_slotted (abi : Abi) (frame : Frame) : Slotted (frame.epilogue ⟨.mips32, abi⟩) :=
  (slotted_of_movesData _ (Frame.loads_movesData _)).append
    (returnAfter_slotted abi _ fun last given => (Frame.release_movesData _ last given).steady)

def code (target : Target) (accumulators : List Reg) (unroll : Nat) (head : String) (frame : Frame)
    (prologue : List Statement) : List Statement :=
  prologue ++ setUp target accumulators ++ [.label head] ++ body target accumulators unroll ++
    target.loopBranch target.abi.counter head unroll ++ frame.epilogue target

section pieces

variable (frame : Frame) (prologue : List Statement) (head : String)

theorem code_slotted (abi : Abi) (accumulators : List Reg)
    (taking : frame.prologue? ⟨.mips32, abi⟩ = some prologue) :
    Slotted (code ⟨.mips32, abi⟩ accumulators unroll head frame prologue) := by
  have taken := slotted_of_movesData prologue (Frame.prologue_movesData taking)
  have ready := slotted_of_movesData _ (setUp_movesData ⟨.mips32, abi⟩ accumulators)
  have named := label_slotted head
  have turns := slotted_of_steady _ (body_steady ⟨.mips32, abi⟩ accumulators unroll)
  have loops : Slotted (Target.loopBranch ⟨.mips32, abi⟩ abi.counter head unroll) :=
    slotted_pair _ _ ⟨rfl, rfl⟩
  have returns := epilogue_slotted abi frame
  exact ((((taken.append ready).append named).append turns).append loops).append returns

theorem code_coded (accepted : Architecture.mips32.Accepts pool)
    (shaped : Shape.error? ⟨width, unroll⟩ (withPool .mips32 pool) = none)
    (sound : frame.Sound .mips32) (opens : frame.Opens .mips32 prologue)
    (taking : frame.prologue? (withPool .mips32 pool) = some prologue) :
    ∀ statement ∈ code (withPool .mips32 pool) (pool.take width) unroll (loopLabel width) frame
      prologue, statement.Coded := by
  let target := withPool .mips32 pool
  obtain ⟨⟨_, encoded⟩, _⟩ := shape_bounds shaped
  have fits := loopBranch_fits target target.abi.counter (loopLabel width) unroll
    Architecture.mips32.writable_counter (loopLabel_fits width) encoded
  have coded (statements : List Statement) {labels : List String} (goes : GoesTo statements labels)
      (fit : ∀ statement ∈ statements, statement.Fits .mips32) :
      ∀ statement ∈ statements, statement.Coded := fun statement member =>
    coded_of_runs statement (fit statement member) (goes.runs statement member)
  have named : (Statement.label (loopLabel width)).Coded :=
    ⟨label_of_fits .mips32 _ (loopLabel_fits width), nofun⟩
  simp only [code, List.forall_mem_append]
  exact ⟨⟨⟨⟨⟨
    coded _ (goesTo_of_movesData _ (Frame.prologue_movesData taking)) opens.fits,
    coded _ (setUp_goesTo target _) (setUp_fits .mips32 pool width accepted)⟩,
    by simpa using named⟩,
    coded _ (body_goesTo target _ unroll) (body_fits .mips32 pool width accepted unroll)⟩,
    coded _ (loopBranch_goesTo target _ _ unroll) fits⟩,
    coded _ (Frame.epilogue_goesTo target) (Frame.epilogue_fits pool sound)⟩

theorem code_names_temporary (accumulators : List Reg) : ∃ statement ∈
    code (withPool .mips32 pool) accumulators unroll head frame prologue,
    statement.NamesTemporary := by
  -- the first statement that sets a function up writes its counter
  let target := withPool .mips32 pool
  refine ⟨target.move Mips.assemblerTemporary target.abi.argument, ?_, _, rfl,
    List.mem_cons_self⟩
  have counted : target.abi.counter = Mips.assemblerTemporary := rfl
  simp [code, setUp, target, ← counted]

end pieces

variable (accepted : Architecture.mips32.Accepts pool)
  (shaped : Shape.error? ⟨width, unroll⟩ (withPool .mips32 pool) = none)

include accepted shaped

theorem routine_enclosed : ∃ frame prologue,
    (⟨withPool .mips32 pool, maxWidth, unroll, start⟩ : MultiplyFamily).routine width =
      .ok ⟨symbolName start width, Mips.enclosed true (symbolName start width)
        (.label (symbolName start width) :: code (withPool .mips32 pool) (pool.take width) unroll
          (loopLabel width) frame prologue), frame.saved⟩ ∧
    frame.Sound .mips32 ∧ frame.prologue? (withPool .mips32 pool) = some prologue ∧
    frame.Opens .mips32 prologue := by
  let target := withPool .mips32 pool
  let name := symbolName start width
  obtain ⟨frame, prologue, made, _, _, sound, taking, opens⟩ :=
    routine_statements .mips32 pool maxWidth unroll width start accepted shaped
  refine ⟨frame, prologue, made.trans ?_, sound, taking, opens⟩
  have whole := Mips.opening_closing name
    (code target (pool.take width) unroll (loopLabel width) frame prologue) target.abi true
  simp only [code, ← List.append_assoc] at whole
  exact congrArg (fun statements => Except.ok (Routine.mk name statements frame.saved)) whole

theorem routine_disciplined (unbroken : ∀ c ∈ start.toList, Text.isBlank c = false) :
    ∃ routine,
      (⟨withPool .mips32 pool, maxWidth, unroll, start⟩ : MultiplyFamily).routine width =
        .ok routine ∧ routine.name = symbolName start width ∧
      Mips.Disciplined (withPool .mips32 pool) routine.name routine.lines := by
  let name := symbolName start width
  obtain ⟨frame, prologue, made, sound, taking, opens⟩ :=
    routine_enclosed pool maxWidth unroll width start accepted shaped
  refine ⟨_, made, rfl, ?_⟩
  have entry := label_coded name (symbol_unbroken start width unbroken)
  have coded := code_coded pool unroll width frame prologue accepted shaped sound opens taking
  have slotted := code_slotted unroll frame prologue (loopLabel width)
    (withPool .mips32 pool).abi (pool.take width) taking
  obtain ⟨statement, member, names⟩ :=
    code_names_temporary pool unroll frame prologue (loopLabel width) (pool.take width)
  exact Mips.enclosed_disciplined true name _ (List.forall_mem_cons.mpr ⟨entry, coded⟩) _
    ((label_slotted name).append slotted)
    ⟨fun _ => ⟨statement, List.mem_cons_of_mem _ member, names⟩, fun _ => rfl⟩

end functions

end MultiplyFamily

namespace Mips

section discipline

variable (pool : Option (List Reg)) (target : Target) (start : String)
  (built : Target.build .mips32 pool = .ok target)
  (unbroken : ∀ c ∈ start.toList, Text.isBlank c = false)

include built unbroken in
/-- Every function that is made for MIPS32 can be assembled as it stands: its delay slots hold the
instructions that are meant for them, nothing in it is reordered or expanded, and it has the
register that assemblers keep for themselves if and only if it names it. -/
theorem functions_disciplined :
    (∀ order chain, Chain.ofOrder order = .ok chain →
      ∃ routine, (⟨target, start⟩ : CycleFamily).emit chain = .ok routine ∧
        routine.name = symbolName start chain.size ∧
        Disciplined target routine.name routine.lines) ∧
    ∀ maxWidth unroll width shape, Shape.check width unroll target = .ok shape →
      ∃ routine, (⟨target, maxWidth, unroll, start⟩ : MultiplyFamily).routine width = .ok routine ∧
        routine.name = symbolName start width ∧
        Disciplined target routine.name routine.lines := by
  obtain ⟨rfl, accepted⟩ := Target.build_withPool .mips32 pool target built
  constructor
  · intro order chain made
    exact CycleFamily.routine_disciplined _ chain start order made unbroken
  · intro maxWidth unroll width shape checked
    exact MultiplyFamily.routine_disciplined _ maxWidth unroll width start accepted
      (MultiplyFamily.shape_of_check checked) unbroken

theorem functions_disciplined_func :
    (∃ routine, Chain.ofOrder [0, 2, 1, 3] = .ok ⟨#[2, 3, 1, 0]⟩ ∧
      (⟨Target.stock .mips32, "func"⟩ : CycleFamily).emit ⟨#[2, 3, 1, 0]⟩ = .ok routine ∧
      Disciplined (Target.stock .mips32) "func4" routine.lines) ∧
    ∃ routine,
      (⟨Target.stock .mips32, 12, 4, "func"⟩ : MultiplyFamily).routine 12 = .ok routine ∧
      Disciplined (Target.stock .mips32) "func12" routine.lines := by
  have crossing : Chain.ofOrder [0, 2, 1, 3] = .ok ⟨#[2, 3, 1, 0]⟩ := by decide +kernel
  obtain ⟨cycles, multiplies⟩ :=
    functions_disciplined none (Target.stock .mips32) "func" rfl (by simp [Text.isBlank])
  obtain ⟨walked, emitted, called, first⟩ := cycles _ _ crossing
  obtain ⟨routine, made, named, second⟩ := multiplies 12 4 12 ⟨12, 4⟩ rfl
  rw [called] at first
  rw [named] at second
  exact ⟨⟨walked, crossing, emitted, first⟩, routine, made, second⟩

end discipline

end Mips

end Microbench
