import Microbench.Label
import Microbench.Proofs.Operations
/-!
Names of program points do not clash.

All names are a start followed by a decimal number. Names with one start differ when their
numbers do. Names with different starts can still be equal, as a start may itself end in
digits, so the name of a function is told apart from a label inside it by what its start
may be, or by the number behind it.
-/
namespace Microbench
open Text

section numbered

theorem toList_numbered (start : String) (number : Nat) :
    (start ++ toString number).toList = start.toList ++ Nat.toDigits 10 number := by
  simp

theorem digits_injective (first second : Nat)
    (same : Nat.toDigits 10 first = Nat.toDigits 10 second) : first = second := by
  have decoded := congrArg decimal? same
  rw [decimal_digits, decimal_digits] at decoded
  exact Option.some.inj decoded

theorem numbered_injective (start : String) (first second : Nat)
    (same : start ++ toString first = start ++ toString second) : first = second := by
  have texts := congrArg String.toList same
  rw [toList_numbered, toList_numbered] at texts
  exact digits_injective first second (List.append_cancel_left texts)

theorem digits_length (small large : Nat) (order : small ≤ large) :
    (Nat.toDigits 10 small).length ≤ (Nat.toDigits 10 large).length := by
  have positive : 0 < (Nat.toDigits 10 large).length := Nat.length_toDigits_pos
  apply (Nat.length_toDigits_le_iff (by decide) positive).mpr
  exact Nat.lt_of_le_of_lt order
    ((Nat.length_toDigits_le_iff (by decide) positive).mp (Nat.le_refl _))

/-- A text with a number behind it can begin with letters only if they are the text's. -/
theorem start_of_numbered (start letters rest : List Char) (number : Nat)
    (plain : letters.all (fun c => !c.isDigit) = true)
    (same : start ++ Nat.toDigits 10 number = letters ++ rest) : letters <+: start := by
  rcases List.append_eq_append_iff.mp same with ⟨middle, split, digits⟩ | ⟨middle, split, _⟩
  · cases middle with
    | nil => exact ⟨[], by simp [split]⟩
    | cons c middle =>
        have digit := digit_of_mem number c (by simp [digits])
        have letter := List.all_eq_true.mp plain c (by simp [split])
        rw [digit] at letter
        cases letter
  · exact ⟨middle, split.symm⟩

end numbered

section points

theorem cycleLabel_injective (first second : Nat) (same : cycleLabel first = cycleLabel second) :
    first = second := numbered_injective _ first second same

/-- The entry of a routine is named for its size, which is more than any label's number. -/
theorem symbol_not_cycleLabel (start : String) (size label : Nat) (below : label < size) :
    symbolName start size ≠ cycleLabel label := by
  intro same
  have texts := congrArg String.toList same
  rw [symbolName, cycleLabel, toList_numbered, toList_numbered] at texts
  obtain ⟨middle, longer⟩ := start_of_numbered _ _ _ size (by decide) texts
  have digits : middle ++ Nat.toDigits 10 size = Nat.toDigits 10 label := by
    rw [← longer, List.append_assoc] at texts
    exact List.append_cancel_left texts
  -- the start would have to end in digits, and then the label's number had more of them
  have short := digits_length label size (Nat.le_of_lt below)
  have empty : middle = [] := by
    rw [← digits, List.length_append] at short
    exact List.eq_nil_of_length_eq_zero (by omega)
  rw [empty] at digits
  have equal := digits_injective size label digits
  omega

/-- So a routine with a block for every smaller number has no label twice. -/
theorem entry_distinct (start : String) (size : Nat) :
    (symbolName start size :: (List.range size).map cycleLabel).Nodup := by
  refine List.nodup_cons.mpr ⟨?_, List.pairwise_map.mpr ?_⟩
  · intro clash
    obtain ⟨label, inside, same⟩ := List.mem_map.mp clash
    exact symbol_not_cycleLabel start size label (List.mem_range.mp inside) same.symm
  · exact List.nodup_range.imp fun different same => different (cycleLabel_injective _ _ same)

theorem symbol_not_loopLabel (start : String) (width other : Nat)
    (apart : ¬ ".Lilp".toList <+: start.toList) : symbolName start width ≠ loopLabel other := by
  intro same
  have texts := congrArg String.toList same
  rw [symbolName, loopLabel, toList_numbered, toList_numbered] at texts
  exact apart (start_of_numbered _ _ _ width (by decide) texts)

/-- In its own function a loop head has the name of the entry only if their starts are the same. -/
theorem symbol_not_own_loopLabel (start : String) (width : Nat) (apart : start ≠ ".Lilp") :
    symbolName start width ≠ loopLabel width := by
  intro same
  have texts := congrArg String.toList same
  rw [symbolName, loopLabel, toList_numbered, toList_numbered] at texts
  exact apart (String.toList_inj.mp (List.append_cancel_right texts))

end points

section spelling

theorem numbered_fits (start : String) (number : Nat) (solid : Solid start.toList)
    (named : start.toList.head? ≠ some '$') : Target.LabelFits (start ++ toString number) := by
  have text := toList_numbered start number
  constructor
  · rw [text]
    exact solid_numbered _ number solid.2
  · obtain ⟨first, rest, spelt⟩ := List.exists_cons_of_ne_nil solid.1
    rw [spelt] at named
    rw [text, spelt]
    exact named

theorem cycleLabel_fits (label : Nat) : Target.LabelFits (cycleLabel label) :=
  numbered_fits ".L" label (by decide) (by decide)

theorem loopLabel_fits (width : Nat) : Target.LabelFits (loopLabel width) :=
  numbered_fits ".Lilp" width (by decide) (by decide)

theorem label_of_fits (architecture : Architecture) (name : String)
    (fits : Target.LabelFits name) : (Statement.label name).Fits architecture := by
  cases architecture <;> exact fun c member => (fits.1.2 c member).1

theorem symbol_unbroken (start : String) (number : Nat)
    (unbroken : ∀ c ∈ start.toList, isBlank c = false) :
    ∀ c ∈ (symbolName start number).toList, isBlank c = false := by
  intro c member
  rw [symbolName, toList_numbered] at member
  rcases List.mem_append.mp member with front | back
  · exact unbroken c front
  · exact (digits_shown number c back).1

theorem symbol_fits (architecture : Architecture) (start : String) (number : Nat)
    (unbroken : ∀ c ∈ start.toList, isBlank c = false) :
    (Statement.label (symbolName start number)).Fits architecture := by
  cases architecture <;> exact symbol_unbroken start number unbroken

end spelling

end Microbench
