import Microbench.Proofs.WrittenLine
import Microbench.Target
/-!
Lines and the parts that they are split into.

The mnemonic of a line is the first of its words, and the one by which control transfers are
told. The operands are sound whatever the line is, and the parts are found again when they are
written with a space and commas. Sound parts are found in the lines in which they are written,
with any blanks around them, and in no other.
-/
namespace Microbench

namespace Text

def whiteSpace : List Nat :=
  [0x0009, 0x000A, 0x000B, 0x000C, 0x000D, 0x0020, 0x0085, 0x00A0, 0x1680, 0x2000, 0x2001, 0x2002,
    0x2003, 0x2004, 0x2005, 0x2006, 0x2007, 0x2008, 0x2009, 0x200A, 0x2028, 0x2029, 0x202F, 0x205F,
    0x3000]

theorem blank_iff_whiteSpace (c : Char) : isBlank c = true ↔ c.toNat ∈ whiteSpace := by
  simp only [isBlank, whiteSpace, Bool.or_eq_true, Bool.and_eq_true, decide_eq_true_eq, beq_iff_eq,
    List.mem_cons, List.not_mem_nil, or_false]
  omega

section words

def words (text : List Char) : List (List Char) :=
  (text.splitOnP isBlank).filter fun word => !word.isEmpty

theorem head_pieces (text : List Char) :
    (text.splitOnP isBlank).head? = some (untilBlank text) := by
  -- the first piece may be empty, and then it is no word
  induction text with
  | nil => rfl
  | cons c rest ih =>
      rw [List.splitOnP_cons_eq_if_modifyHead]
      by_cases blank : isBlank c = true
      · simp [untilBlank, blank]
      · simpa [untilBlank, blank] using ih

theorem firstWord_words (text : List Char) : firstWord text = (words text).headD [] := by
  induction text with
  | nil => rfl
  | cons c rest ih =>
      by_cases blank : isBlank c = true
      · have words_later : words (c :: rest) = words rest := by
          simp [words, List.splitOnP_cons_eq_if_modifyHead, blank]
        have start_later : trimStart (c :: rest) = trimStart rest :=
          trim_start_blanks [c] rest (by simpa [Blank] using blank)
        rw [words_later, firstWord, start_later]
        exact ih
      · obtain ⟨others, parted⟩ := List.head?_eq_some_iff.mp (head_pieces (c :: rest))
        rw [firstWord, trim_start_of_head c rest (by simpa using blank), words, parted]
        simp [untilBlank, blank]

theorem firstWord_nil_iff (text : List Char) : firstWord text = [] ↔ Blank text := by
  constructor
  · intro nothing
    obtain ⟨blanks, blank, same⟩ := exists_trim_start text
    cases spelt : trimStart text with
    | nil =>
        rw [spelt, List.append_nil] at same
        exact same ▸ blank
    | cons first rest =>
        have shown := head_trim_start text first (by rw [spelt]; rfl)
        simp [firstWord, spelt, untilBlank, shown] at nothing
  · intro blank
    rw [firstWord, trim_start_blank text blank]
    rfl

end words

structure IsOperand (text : String) : Prop where
  present : text ≠ ""
  unparted : ',' ∉ text.toList
  begins : ∀ c ∈ text.toList.head?, isBlank c = false
  ends : ∀ c ∈ text.toList.getLast?, isBlank c = false

theorem whole_iff_operand (text : String) : Whole text.toList ↔ IsOperand text := by
  constructor
  · rintro ⟨present, unparted, started, ended⟩
    refine ⟨?_, unparted, (trim_start_self_iff _).mp started, (trim_end_self_iff _).mp ended⟩
    rintro rfl
    exact present rfl
  · rintro ⟨present, unparted, begins, ends⟩
    refine ⟨?_, unparted, (trim_start_self_iff _).mpr begins, (trim_end_self_iff _).mpr ends⟩
    simpa using present

end Text

namespace Statement
open Text

structure Parts.Sound (parts : Parts) : Prop where
  present : parts.mnemonic ≠ ""
  unbroken : ∀ c ∈ parts.mnemonic.toList, isBlank c = false
  operands : ∀ operand ∈ parts.operands, IsOperand operand

def Parts.joined (parts : Parts) (separator : String) : String :=
  parts.mnemonic ++ " " ++ separator.intercalate parts.operands

section rebuilding

theorem split_blank (line : String) (blank : Blank line.toList) : split line = ⟨"", []⟩ := by
  rw [split_eq, firstWord, trim_start_blank _ blank]
  rfl

theorem mnemonic_empty_iff (line : String) :
    (split line).mnemonic = "" ↔ Blank line.toList := by
  rw [split_mnemonic, ← firstWord_nil_iff, String.ofList_eq_empty_iff]

theorem split_operands (line : String) : (split line).operands.map String.toList =
    operands (fromBlank (trimStart line.toList)) := by
  rw [split_eq, List.map_map]
  simp

theorem operands_found (line : String) : ∀ operand ∈ (split line).operands, IsOperand operand := by
  intro operand member
  have found := List.mem_map_of_mem (f := String.toList) member
  rw [split_operands] at found
  exact (whole_iff_operand operand).mp (whole_operands _ _ found)

theorem sound_of_present (line : String) (present : (split line).mnemonic ≠ "") :
    (split line).Sound := by
  refine ⟨present, ?_, operands_found line⟩
  rw [split_mnemonic, String.toList_ofList]
  exact until_unbroken _

theorem Parts.Sound.split_written {parts : Parts} (sound : parts.Sound) {line : String}
    (writes : Writes parts line) : split line = parts := by
  refine Statement.split_of_writes parts line ?_ sound.unbroken ?_ writes
  · simpa using sound.present
  · exact fun operand member => (whole_iff_operand operand).mpr (sound.operands operand member)

theorem writes_split (line : String) : Writes (split line) line := by
  obtain ⟨lead, leading, start⟩ := exists_trim_start line.toList
  obtain ⟨gap, rest, parting, parted, behind⟩ := exists_gap (trimStart line.toList)
  have spread : Spread ((split line).operands.map String.toList) rest := by
    rw [split_operands, ← behind, operands_blanks_append gap rest parting]
    exact spread_operands rest
  refine .spaced lead gap rest leading parting parted spread ?_
  rw [split_mnemonic, String.toList_ofList, List.append_assoc, behind, List.append_assoc, firstWord,
    until_append_from, start]

theorem writes_joined (parts : Parts) (separator : String) (gap : List Char) (blank : Blank gap)
    (spelt : separator.toList = ',' :: gap) : Writes parts (parts.joined separator) := by
  refine .spaced [] [' '] _ (List.forall_mem_nil _) (by decide) (fun _ => List.cons_ne_nil _ _)
    (.joined blank _) ?_
  simp [Parts.joined, String.toList_intercalate, spelt]

theorem split_joined (line separator : String) (gap : List Char) (blank : Blank gap)
    (spelt : separator.toList = ',' :: gap) :
    split ((split line).joined separator) = split line := by
  by_cases present : (split line).mnemonic = ""
  -- A line without a mnemonic has no operand either, and only the space is written.
  · rw [split_blank line ((mnemonic_empty_iff line).mp present)]
    exact split_blank " " (by decide)
  · exact (sound_of_present line present).split_written
      (writes_joined _ separator gap blank spelt)

end rebuilding

/-- The mnemonic of a line is its first word, and the word by which it is told whether control
goes elsewhere. The operands are sound, and parts that are written again with a space and commas
are split as before. Sound parts are split from just the lines in which they are written, and
white space is what Unicode calls so. -/
theorem split_undoes_writing (line : String) :
    (split line).mnemonic = String.ofList ((words line.toList).headD []) ∧
    (∀ mnemonics, startsWithOneOf mnemonics line = mnemonics.contains (split line).mnemonic) ∧
    (∀ target : Target, target.isControlTransfer line =
      target.controlMnemonics.contains (split line).mnemonic) ∧
    ((split line).mnemonic = "" ↔ Blank line.toList) ∧
    (∀ operand ∈ (split line).operands, IsOperand operand) ∧
    split ((split line).joined ",") = split line ∧
    split ((split line).joined ", ") = split line ∧
    (∀ parts : Parts, parts.Sound → (split line = parts ↔ Writes parts line)) ∧
    ∀ c, isBlank c = true ↔ c.toNat ∈ whiteSpace := by
  refine ⟨?_, fun mnemonics => startsWithOneOf_split mnemonics line,
    fun target => startsWithOneOf_split target.controlMnemonics line, mnemonic_empty_iff line,
    operands_found line, ?_, ?_, ?_, blank_iff_whiteSpace⟩
  · rw [split_mnemonic, firstWord_words]
  · exact split_joined line "," [] (by decide) rfl
  · exact split_joined line ", " [' '] (by decide) rfl
  · intro parts sound
    constructor
    · rintro rfl
      exact writes_split line
    · exact sound.split_written

-- Without an operand between them, commas leave no trace.
example : split "b ,x,, y," = ⟨"b", ["x", "y"]⟩ := by decide

def shifted : Parts := ⟨"movk", ["w1", "7", "lsl #16"]⟩

def shiftedLine : String := "\u2003movk\u00a0w1 ,\t7,\u3000lsl #16\u2028\n"

theorem split_undoes_writing_shifted : shifted.Sound ∧ Writes shifted shiftedLine ∧
    split shiftedLine = shifted ∧ split (shifted.joined ", ") = shifted ∧
    (∀ target : Target, target.isControlTransfer shiftedLine =
      target.controlMnemonics.contains "movk") := by
  have word : Solid "movk".toList := by decide
  have operands : ∀ operand ∈ ["w1", "7", "lsl #16"], IsOperand operand := by
    intro operand member
    apply (whole_iff_operand operand).mp
    simp only [List.mem_cons, List.not_mem_nil, or_false] at member
    rcases member with rfl | rfl | rfl <;> exact ⟨by decide, by decide, rfl, rfl⟩
  have sound : shifted.Sound := ⟨by decide, word.unbroken, operands⟩
  have first : Spread ["w1".toList] ([] ++ "w1".toList ++ [' ']) := .operand (by decide) (by decide)
  have second : Spread ["7".toList] (['\t'] ++ "7".toList ++ []) := .operand (by decide) (by decide)
  have third : Spread ["lsl #16".toList]
      (['\u3000'] ++ "lsl #16".toList ++ ['\u2028', '\n']) := .operand (by decide) (by decide)
  have writes : Writes shifted shiftedLine :=
    .spaced ['\u2003'] ['\u00a0'] _ (by decide) (by decide) (fun _ => List.cons_ne_nil _ _)
      (first.comma (second.comma third)) (by decide)
  obtain ⟨_, _, transfers, _, _, _, rebuilt, found, _⟩ := split_undoes_writing shiftedLine
  have same := (found shifted sound).mpr writes
  rw [same] at rebuilt transfers
  exact ⟨sound, writes, same, rebuilt, transfers⟩

end Statement

end Microbench
