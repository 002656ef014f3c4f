import Microbench.Proofs.Operands
/-!
Reading back a line that was written as a mnemonic and operands.

`Statement.split` trims a line, cuts off its first word and cuts the rest at commas. A line may
be written with any blanks around the mnemonic and the operands, as long as one of them parts
the two: it comes apart into just these parts. Numbers are written in decimal, and `decimal?`
reads them.
-/
namespace Microbench.Text

section numbers

def decimal? (digits : List Char) : Option Nat :=
  if digits ≠ [] ∧ digits.all Char.isDigit then some (Nat.ofDigitChars 10 digits 0) else none

def marked? (mark : Char) : List Char → Option Nat
  | c :: digits => if c = mark then decimal? digits else none
  | [] => none

theorem digit_of_mem (n : Nat) (c : Char) (member : c ∈ Nat.toDigits 10 n) : c.isDigit = true :=
  Nat.isDigit_of_mem_toDigits (by decide) (by decide) member

theorem decimal_digits (n : Nat) : decimal? (Nat.toDigits 10 n) = some n := by
  have digits : (Nat.toDigits 10 n).all Char.isDigit = true :=
    List.all_eq_true.mpr fun c member => digit_of_mem n c member
  simp [decimal?, digits, Nat.toDigits_ne_nil, Nat.ofDigitChars_ten_toDigits]

theorem marked_digits (mark : Char) (n : Nat) :
    marked? mark (mark :: Nat.toDigits 10 n) = some n := by
  simp [marked?, decimal_digits]

theorem digit_shown (c : Char) (digit : c.isDigit = true) : isBlank c = false ∧ c ≠ ',' := by
  have range : 48 ≤ c.toNat ∧ c.toNat ≤ 57 := by
    simp only [Char.isDigit, Bool.and_eq_true, decide_eq_true_eq, UInt32.le_iff_toNat_le,
      ge_iff_le] at digit
    exact digit
  constructor
  · rw [← Bool.not_eq_true]
    intro blank
    simp only [isBlank, Bool.or_eq_true, Bool.and_eq_true, decide_eq_true_eq, beq_iff_eq] at blank
    omega
  · rintro rfl
    revert range
    decide

theorem digits_shown (n : Nat) : Shown (Nat.toDigits 10 n) :=
  fun c member => digit_shown c (digit_of_mem n c member)

theorem solid_digits (n : Nat) : Solid (Nat.toDigits 10 n) :=
  ⟨Nat.toDigits_ne_nil, digits_shown n⟩

/-- A number behind a text without blanks and commas, as registers and labels are written. -/
theorem solid_numbered (start : List Char) (n : Nat) (shown : Shown start) :
    Solid (start ++ Nat.toDigits 10 n) := by
  refine ⟨by simp [Nat.toDigits_ne_nil], ?_⟩
  intro c member
  rcases List.mem_append.mp member with front | back
  · exact shown c front
  · exact digits_shown n c back

end numbers

end Microbench.Text

namespace Microbench.Statement
open Text

/-- The lines in which a mnemonic and its operands are written. Blanks may stand in front of the
mnemonic and behind it, and at least one does where anything follows. -/
inductive Writes (parts : Parts) (line : String) : Prop where
  | spaced (lead gap rest : List Char) (leading : Blank lead) (parting : Blank gap)
      (parted : rest ≠ [] → gap ≠ []) (spread : Spread (parts.operands.map String.toList) rest)
      (written : line.toList = lead ++ parts.mnemonic.toList ++ gap ++ rest)

theorem split_eq (line : String) :
    split line = ⟨String.ofList (firstWord line.toList),
      (operands (fromBlank (trimStart line.toList))).map String.ofList⟩ := by
  -- what is trimmed off the end of a line would be trimmed off its last operand as well
  obtain ⟨blanks, blank, same⟩ := exists_trim_end (trimStart line.toList)
  obtain ⟨word, rest⟩ := cut_append_blanks (trimEnd (trimStart line.toList)) blanks blank
  rw [same] at word rest
  rw [firstWord, word, rest, operands_append_blanks _ blanks blank]
  rfl

theorem split_mnemonic (line : String) :
    (split line).mnemonic = String.ofList (firstWord line.toList) :=
  congrArg Parts.mnemonic (split_eq line)

theorem startsWithOneOf_split (mnemonics : List String) (line : String) :
    startsWithOneOf mnemonics line = mnemonics.contains (split line).mnemonic := by
  rw [split_mnemonic]
  rfl

theorem split_of_writes (parts : Parts) (line : String) (present : parts.mnemonic.toList ≠ [])
    (unbroken : ∀ c ∈ parts.mnemonic.toList, isBlank c = false)
    (whole : ∀ operand ∈ parts.operands, Whole operand.toList) (writes : Writes parts line) :
    split line = parts := by
  obtain ⟨lead, gap, rest, leading, parting, parted, spread, written⟩ := writes
  have apart : ∀ c ∈ (gap ++ rest).head?, isBlank c = true := by
    intro c begins
    cases gap with
    | nil =>
        have nothing : rest = [] := Decidable.byContradiction fun more => parted more rfl
        rw [nothing] at begins
        cases begins
    | cons blank blanks =>
        cases begins
        exact parting _ List.mem_cons_self
  obtain ⟨word, behind⟩ := cut_first_word lead _ (gap ++ rest) leading present unbroken apart
  rw [← List.append_assoc, ← written] at word behind
  have found := (spread.behind parting).operands_eq (List.forall_mem_map.mpr whole)
  rw [split_eq, word, behind, found, String.ofList_toList, List.map_map]
  simp

theorem split_word (line : String) (word : Solid line.toList) : split line = ⟨line, []⟩ := by
  have nothing : Blank [] := List.forall_mem_nil _
  have writes : Writes ⟨line, []⟩ line :=
    .spaced [] [] [] nothing nothing (absurd rfl) (.blank nothing) (by simp)
  exact split_of_writes _ line word.1 word.unbroken (List.forall_mem_nil _) writes

theorem mnemonic_written (line mnemonic : String) (rest : List Char)
    (word : Solid mnemonic.toList) (written : line.toList = mnemonic.toList ++ ' ' :: rest) :
    (split line).mnemonic = mnemonic := by
  have cut := cut_first_word [] mnemonic.toList (' ' :: rest) (List.forall_mem_nil _) word.1
    word.unbroken fun c member => by cases member; rfl
  rw [List.nil_append, ← written] at cut
  rw [split_mnemonic, cut.1, String.ofList_toList]

/-- A mnemonic alone, or a space behind it and the operands with commas between them, with the
same blanks behind every comma. -/
def Parts.spelt (gap : List Char) : Parts → List Char
  | ⟨mnemonic, []⟩ => mnemonic.toList
  | ⟨mnemonic, first :: rest⟩ =>
    mnemonic.toList ++ ' ' :: (',' :: gap).intercalate ((first :: rest).map String.toList)

section spelling

variable {line : String} {parts : Parts} {gap : List Char} (word : Solid parts.mnemonic.toList)
  (spelt : line.toList = parts.spelt gap)

include word spelt

theorem mnemonic_spelt : (split line).mnemonic = parts.mnemonic := by
  obtain ⟨mnemonic, _ | ⟨first, rest⟩⟩ := parts
  · obtain rfl : line = mnemonic := String.toList_inj.mp spelt
    rw [split_word line word]
  · exact mnemonic_written line mnemonic _ word spelt

theorem split_spelt (blank : Blank gap)
    (whole : ∀ operand ∈ parts.operands, Whole operand.toList) : split line = parts := by
  obtain ⟨mnemonic, _ | ⟨first, rest⟩⟩ := parts
  · obtain rfl : line = mnemonic := String.toList_inj.mp spelt
    exact split_word line word
  · have writes : Writes ⟨mnemonic, first :: rest⟩ line :=
      .spaced [] [' '] _ (List.forall_mem_nil _) (by decide) (fun _ => List.cons_ne_nil _ _)
        (.joined blank _) (by rw [spelt]; simp [Parts.spelt])
    exact split_of_writes _ line word.1 word.unbroken whole writes

end spelling

end Microbench.Statement
