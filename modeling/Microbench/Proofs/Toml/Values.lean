import Microbench.Proofs.Toml.Strings
import Microbench.Proofs.WrittenLine
import Microbench.Toml.Document
/-!
Written values are read as the values that they were written for.

A number is a value that could go on: more digits, a point, a power, or the rest of a date may
follow. So it is read with what stands behind it, which is the end of the line, a comma or a
closing bracket.
-/
namespace Microbench.Toml

def endsValue (c : Char) : Bool := c == '\n' || c == ',' || c == ']'

namespace Number
open Text (digit_of_mem)

variable {stop : Char} (stopped : endsValue stop = true)

section digits

theorem isDigit_of_mem (number : Nat) (c : Char) (member : c ∈ Nat.toDigits 10 number) :
    isDigit c = true := by
  have digit := digit_of_mem number c member
  simp only [Char.isDigit, Bool.and_eq_true, decide_eq_true_eq] at digit
  simp only [isDigit, Bool.and_eq_true, decide_eq_true_eq]
  exact digit

theorem not_zero_first (number : Nat) (positive : number ≠ 0) :
    (Nat.toDigits 10 number).head? ≠ some '0' := by
  induction number using Nat.strongRecOn with
  | ind number ih =>
      by_cases small : number < 10
      · rw [Nat.toDigits_of_lt_base small]
        have all : ∀ digit < 10, digit ≠ 0 → [Nat.digitChar digit].head? ≠ some '0' := by decide
        exact all number small positive
      · rw [Nat.toDigits_of_base_le (by decide) (Nat.le_of_not_lt small), List.head?_append]
        have front := ih (number / 10) (by omega) (by omega)
        obtain ⟨first, rest, spelt⟩ := List.exists_cons_of_ne_nil
          (Nat.toDigits_ne_nil (b := 10) (n := number / 10))
        rw [spelt] at front ⊢
        exact front

theorem value_digits (digits : List Char) (all : ∀ c ∈ digits, isDigit c = true) (value : Nat) :
    digits.foldl (fun value c => value * 10 + digitValue c) value =
      Nat.ofDigitChars 10 digits value := by
  induction digits generalizing value with
  | nil => rfl
  | cons c rest ih =>
      have digit := all c List.mem_cons_self
      have later := fun other member => all other (List.mem_cons_of_mem c member)
      have own : digitValue c = c.toNat - '0'.toNat := by
        simp only [isDigit] at digit
        rw [digitValue, Quoted.hexDigit?, if_pos digit]
        rfl
      rw [List.foldl_cons, Nat.ofDigitChars_cons, ih later, own, Nat.mul_comm]

theorem ofDigits_written (number : Nat) : ofDigits 10 (Nat.toDigits 10 number) = number := by
  rw [ofDigits, value_digits _ (isDigit_of_mem number), Nat.ofDigitChars_ten_toDigits]

include stopped

theorem stop_cases : stop = '\n' ∨ stop = ',' ∨ stop = ']' := by
  simpa [endsValue, or_assoc] using stopped

theorem stop_not_digit : isDigit stop = false := by
  rcases stop_cases stopped with rfl | rfl | rfl <;> rfl

theorem moreDigits_stopped (digits rest : List Char) (all : ∀ c ∈ digits, isDigit c = true) :
    moreDigits isDigit (digits ++ stop :: rest) = (digits, stop :: rest) := by
  have notScore : stop ≠ '_' := by
    rcases stop_cases stopped with rfl | rfl | rfl <;> decide
  induction digits with
  | nil => simp [moreDigits, notScore, stop_not_digit stopped]
  | cons c others ih =>
      have digit := all c List.mem_cons_self
      have later := ih fun other member => all other (List.mem_cons_of_mem c member)
      have different : c ≠ '_' := by
        rintro rfl
        cases digit
      simp [moreDigits, different, digit, later]

theorem decimalDigits_written (number : Nat) (rest : List Char) :
    decimalDigits (Nat.toDigits 10 number ++ stop :: rest) =
      some (Nat.toDigits 10 number, stop :: rest) := by
  by_cases nought : number = 0
  · subst nought
    rfl
  · have first := not_zero_first number nought
    have all := isDigit_of_mem number
    obtain ⟨c, others, spelt⟩ := List.exists_cons_of_ne_nil
      (Nat.toDigits_ne_nil (b := 10) (n := number))
    rw [spelt] at first all ⊢
    have different : c ≠ '0' := by simpa using first
    have more := moreDigits_stopped stopped others rest fun other member =>
      all other (List.mem_cons_of_mem c member)
    simp [decimalDigits, different, digits, all c List.mem_cons_self, more]

end digits

section moments

include stopped

/-- What is behind a fixed number of digits is one more digit or the end of the number. -/
theorem fixedDigits_stopped {digits rest behind : List Char} {count value : Nat}
    (all : ∀ c ∈ digits, isDigit c = true)
    (found : fixedDigits count (digits ++ stop :: rest) = some (value, behind)) :
    ∃ next others, behind = next :: others ∧ (isDigit next = true ∨ next = stop) := by
  simp only [fixedDigits, Bool.and_eq_true, decide_eq_true_eq, List.all_eq_true,
    Option.ite_none_right_eq_some, Option.some.injEq, Prod.mk.injEq] at found
  obtain ⟨⟨_, taken⟩, _, rfl⟩ := found
  have enough : count ≤ digits.length := by
    refine Nat.le_of_not_lt fun more => ?_
    obtain ⟨extra, rfl⟩ := Nat.exists_eq_add_of_lt more
    have member : stop ∈ (digits ++ stop :: rest).take (digits.length + extra + 1) := by
      rw [Nat.add_assoc, List.take_length_add_append, List.take_succ_cons]
      exact List.mem_append_right digits List.mem_cons_self
    have digit := taken stop member
    rw [stop_not_digit stopped] at digit
    cases digit
  rw [List.drop_append_of_le_length enough]
  cases left : digits.drop count with
  | nil => exact ⟨stop, rest, rfl, .inr rfl⟩
  | cons next others =>
      have digit := all next (List.mem_of_mem_drop (left ▸ List.mem_cons_self))
      exact ⟨next, others ++ stop :: rest, rfl, .inl digit⟩

theorem expect_none {digits rest behind : List Char} {count value : Nat} {wanted : Char}
    (all : ∀ c ∈ digits, isDigit c = true)
    (found : fixedDigits count (digits ++ stop :: rest) = some (value, behind))
    (other : isDigit wanted = false ∧ endsValue wanted = false) : expect wanted behind = none := by
  obtain ⟨next, others, rfl, digit | rfl⟩ := fixedDigits_stopped stopped all found
  · have different : next ≠ wanted := by
      rintro rfl
      rw [other.1] at digit
      cases digit
    simp [expect, different]
  · have different : next ≠ wanted := by
      rintro rfl
      rw [other.2] at stopped
      cases stopped
    simp [expect, different]

theorem date_none (digits rest : List Char) (all : ∀ c ∈ digits, isDigit c = true) :
    date (digits ++ stop :: rest) = none := by
  unfold date
  cases found : fixedDigits 4 (digits ++ stop :: rest) with
  | none => rfl
  | some year =>
      have missing := expect_none stopped all found
        (show isDigit '-' = false ∧ endsValue '-' = false by decide)
      simp [missing]

theorem time_none (digits rest : List Char) (all : ∀ c ∈ digits, isDigit c = true) :
    time (digits ++ stop :: rest) = none := by
  unfold time
  cases first : fixedDigits 2 (digits ++ stop :: rest) with
  | none => simp [twoDigits, first]
  | some hour =>
      have missing := expect_none stopped all first
        (show isDigit ':' = false ∧ endsValue ':' = false by decide)
      cases found : twoDigits 0 23 (digits ++ stop :: rest) with
      | none => rfl
      | some result =>
          simp only [twoDigits, first, Option.bind_eq_bind, Option.bind_some,
            Option.ite_none_right_eq_some] at found
          cases found.2
          simp [missing]

theorem moment_none (digits rest : List Char) (all : ∀ c ∈ digits, isDigit c = true) :
    moment (digits ++ stop :: rest) = none := by
  rw [moment, date_none stopped digits rest all, time_none stopped digits rest all]

end moments

section integers

theorem begins_with_digit (number : Nat) (rest : List Char) : ∃ first others,
    Nat.toDigits 10 number ++ rest = first :: others ∧ isDigit first = true := by
  obtain ⟨first, others, spelt⟩ := List.exists_cons_of_ne_nil
    (Nat.toDigits_ne_nil (b := 10) (n := number))
  refine ⟨first, others ++ rest, by rw [spelt]; rfl, ?_⟩
  exact isDigit_of_mem number first (spelt ▸ List.mem_cons_self)

theorem sign_written (number : Nat) (rest : List Char) :
    sign (Nat.toDigits 10 number ++ rest) = (false, Nat.toDigits 10 number ++ rest) := by
  obtain ⟨first, others, spelt, digit⟩ := begins_with_digit number rest
  have notPlus : first ≠ '+' := by
    rintro rfl
    cases digit
  have notMinus : first ≠ '-' := by
    rintro rfl
    cases digit
  simp [spelt, sign, notPlus, notMinus]

theorem inRange_small (number : Nat) (small : number < 0x8000000000000000) :
    inRange (number : Int) = some (number : Int) := by
  have least : (-0x8000000000000000 : Int) ≤ number := by omega
  have most : (number : Int) < 0x8000000000000000 := by omega
  simp [inRange, least, most]

include stopped

theorem float_none (number : Nat) (rest : List Char) :
    float (Nat.toDigits 10 number ++ stop :: rest) = none := by
  have fraction : fraction (stop :: rest) = none := by
    rcases stop_cases stopped with rfl | rfl | rfl <;> rfl
  have exponent : exponent (stop :: rest) = none := by
    rcases stop_cases stopped with rfl | rfl | rfl <;> rfl
  have decimal : decimalFloat (Nat.toDigits 10 number ++ stop :: rest) = none := by
    simp [decimalFloat, sign_written, decimalDigits_written stopped, fraction, exponent]
  have special : special (Nat.toDigits 10 number ++ stop :: rest) = none := by
    rw [Number.special, sign_written]
    obtain ⟨first, others, spelt, digit⟩ := begins_with_digit number (stop :: rest)
    rw [spelt]
    split
    · next same =>
      cases same
      cases digit
    · next same =>
      cases same
      cases digit
    · rfl
  rw [float, decimal, special]

theorem not_based (number : Nat) (rest more : List Char) (letter : Char)
    (named : letter = 'x' ∨ letter = 'o' ∨ letter = 'b') :
    Nat.toDigits 10 number ++ stop :: rest ≠ '0' :: letter :: more := by
  intro same
  by_cases nought : number = 0
  · subst nought
    have next : stop = letter := (List.cons.inj (List.cons.inj same).2).1
    subst next
    rcases named with rfl | rfl | rfl <;> cases stopped
  · obtain ⟨first, others, spelt⟩ := List.exists_cons_of_ne_nil
      (Nat.toDigits_ne_nil (b := 10) (n := number))
    have front := not_zero_first number nought
    rw [spelt, List.cons_append] at same
    rw [spelt, (List.cons.inj same).1] at front
    exact front rfl

/-- The check of the range is a parameter here: to see whether an unknown number is in range, the
kernel would count up to the bound. -/
theorem decimal_bounded (bounded : Int → Option Int) (number : Nat) (rest : List Char)
    (fits : bounded number = some (number : Int)) : (do
      let (negative, text) := sign (Nat.toDigits 10 number ++ stop :: rest)
      let (found, rest) ← decimalDigits text
      let magnitude := (ofDigits 10 found : Int)
      return (← bounded (if negative then -magnitude else magnitude), rest)) =
        some ((number : Int), stop :: rest) := by
  simp [sign_written, decimalDigits_written stopped, ofDigits_written, fits]

/-- A number that is written in decimal is read as this number, if it fits a signed word. -/
theorem integer_written (number : Nat) (rest : List Char) (small : number < 0x8000000000000000) :
    integer (Nat.toDigits 10 number ++ stop :: rest) = some ((number : Int), stop :: rest) := by
  unfold integer
  split
  · next same => exact absurd same (not_based stopped number rest _ 'x' (by decide))
  · next same => exact absurd same (not_based stopped number rest _ 'o' (by decide))
  · next same => exact absurd same (not_based stopped number rest _ 'b' (by decide))
  · exact decimal_bounded stopped inRange number rest (inRange_small number small)

end integers

end Number

-- These are opened wherever it is known what comes next.
attribute [local simp] value skipGapFrom

section values
open Number (isDigit)

def beginsValue (c : Char) : Bool :=
  c == '"' || c == '\'' || c == '[' || c == 't' || c == 'f' || isDigit c

/-- A text that is read as a value, this deep inside brackets and braces. -/
structure Denotes (depth : Nat) (text : List Char) (node : Node) : Prop where
  begins : ∃ first others, text = first :: others ∧ beginsValue first = true
  read : ∀ (stop : Char) (rest : List Char), endsValue stop = true →
    value depth (text ++ stop :: rest) = some (node, stop :: rest)

variable (depth : Nat)

theorem write_begins (text : List Char) : ∃ others,
    Quoted.write text = '"' :: others ∨ Quoted.write text = '\'' :: others := by
  unfold Quoted.write
  cases Quoted.formOf text with
  | basic => exact ⟨_, .inl rfl⟩
  | literal => exact ⟨_, .inr rfl⟩
  | tripleBasic => exact ⟨_, .inl rfl⟩
  | tripleLiteral => exact ⟨_, .inr rfl⟩

theorem denotes_text (text : String) : Denotes depth (Quoted.write text.toList) (.text text) := by
  obtain ⟨others, quoted⟩ := write_begins text.toList
  constructor
  case begins =>
    rcases quoted with quoted | quoted
    · exact ⟨_, _, quoted, rfl⟩
    · exact ⟨_, _, quoted, rfl⟩
  case read =>
    intro stop rest stopped
    have unquoted : stop ≠ '"' ∧ stop ≠ '\'' := by
      rcases Number.stop_cases stopped with rfl | rfl | rfl <;> decide
    have found := Quoted.read_write text.toList (stop :: rest) (by simpa using unquoted.1)
      (by simpa using unquoted.2)
    have shown : (Quoted.read (Quoted.write text.toList ++ stop :: rest)).map asTextNode =
        some (.text text, stop :: rest) := by
      rw [found, Option.map_some, asTextNode, String.ofList_toList]
    rcases quoted with quoted | quoted
    · rw [quoted, List.cons_append] at shown ⊢
      simpa only [value] using shown
    · rw [quoted, List.cons_append] at shown ⊢
      simpa only [value] using shown

theorem denotes_flag (flag : Bool) :
    Denotes depth (if flag then "true" else "false").toList (.boolean flag) := by
  cases flag with
  | false => exact ⟨⟨'f', _, rfl, rfl⟩, fun stop rest _ => by simp⟩
  | true => exact ⟨⟨'t', _, rfl, rfl⟩, fun stop rest _ => by simp⟩

theorem value_digit {first : Char} (rest : List Char) (digit : isDigit first = true) :
    value depth (first :: rest) = numberLike (first :: rest) := by
  have other (c : Char) (noDigit : isDigit c = false) : first ≠ c := by
    rintro rfl
    rw [noDigit] at digit
    cases digit
  simp [value, other '[' rfl, other '\x7b' rfl, other 't' rfl, other 'f' rfl, other '"' rfl,
    other '\'' rfl]

theorem denotes_number (number : Nat) (small : number < 0x8000000000000000) :
    Denotes depth (toString number).toList (.integer number) := by
  have spelt : (toString number).toList = Nat.toDigits 10 number := by simp
  rw [spelt]
  constructor
  case begins =>
    obtain ⟨first, others, begun, digit⟩ := Number.begins_with_digit number []
    rw [List.append_nil] at begun
    exact ⟨first, others, begun, by simp [beginsValue, digit]⟩
  case read =>
    intro stop rest stopped
    obtain ⟨first, others, begun, digit⟩ := Number.begins_with_digit number (stop :: rest)
    rw [begun, value_digit depth others digit, ← begun, numberLike,
      Number.moment_none stopped _ rest (Number.isDigit_of_mem number),
      Number.float_none stopped, Number.integer_written stopped number rest small]
    rfl

end values

section arrays

theorem begins_other {first c : Char} (begins : beginsValue first = true)
    (never : beginsValue c = false) : first ≠ c := by
  rintro rfl
  rw [never] at begins
  cases begins

theorem skipGap_value {first : Char} (rest : List Char) (begins : beginsValue first = true) :
    skipGap (first :: rest) = first :: rest := by
  have other (c : Char) (never : beginsValue c = false) : first ≠ c := begins_other begins never
  simp [skipGap, isSpace, other '\n' rfl, other '\r' rfl, other '#' rfl, other ' ' rfl,
    other '\t' rfl]

variable {depth : Nat}

theorem items_closed (fuel : Nat) (rest : List Char) :
    items (value depth) (fuel + 1) (']' :: rest) = some ([], rest) := by
  simp [items, skipGap, isSpace]

theorem items_last {text : List Char} {node : Node} (denotes : Denotes depth text node) (fuel : Nat)
    (rest : List Char) :
    items (value depth) (fuel + 1) (text ++ ']' :: rest) = some ([node], rest) := by
  obtain ⟨⟨first, others, rfl, begins⟩, read⟩ := denotes
  have found := read ']' rest rfl
  have gap : skipGap (']' :: rest) = ']' :: rest := by simp [skipGap, isSpace]
  rw [List.cons_append] at found ⊢
  simp [items, skipGap_value _ begins, begins_other begins (show beginsValue ']' = false from rfl),
    found, gap]

theorem items_next {text : List Char} {node : Node} (denotes : Denotes depth text node)
    {fuel : Nat} {behind rest : List Char} {nodes : List Node}
    (later : items (value depth) fuel behind = some (nodes, rest)) :
    items (value depth) (fuel + 1) (text ++ ',' :: behind) = some (node :: nodes, rest) := by
  obtain ⟨⟨first, others, rfl, begins⟩, read⟩ := denotes
  have found := read ',' behind rfl
  have gap : skipGap (',' :: behind) = ',' :: behind := by simp [skipGap, isSpace]
  rw [List.cons_append] at found ⊢
  simp [items, skipGap_value _ begins, begins_other begins (show beginsValue ']' = false from rfl),
    found, gap, later]

def itemLines (written : List (List Char × Node)) : List Char :=
  written.flatMap fun item => [' ', ' ', ' ', ' '] ++ item.1 ++ [',', '\n']

/-- Blanks and line ends in front of an item, or of the closing bracket, count for nothing. -/
theorem items_gap (fuel : Nat) (text : List Char) :
    items (value depth) fuel ('\n' :: text) = items (value depth) fuel text := by
  cases fuel with
  | zero => rfl
  | succ fuel => rw [items, items, skipGap, skipGap, skipGapFrom]

theorem items_indented (fuel : Nat) (text : List Char) :
    items (value depth) fuel (' ' :: text) = items (value depth) fuel text := by
  cases fuel with
  | zero => rfl
  | succ fuel => simp [items, skipGap, isSpace]

theorem items_lines (written : List (List Char × Node))
    (denote : ∀ item ∈ written, Denotes depth item.1 item.2) (fuel : Nat) (rest : List Char)
    (enough : written.length < fuel) :
    items (value depth) fuel ('\n' :: (itemLines written ++ ']' :: rest)) =
      some (written.map Prod.snd, rest) := by
  induction written generalizing fuel with
  | nil =>
      obtain ⟨fuel, rfl⟩ := Nat.exists_eq_add_of_lt enough
      rw [items_gap]
      exact items_closed _ rest
  | cons item others ih =>
      obtain ⟨fuel, rfl⟩ := Nat.exists_eq_add_of_lt enough
      have later := ih (fun other member => denote other (List.mem_cons_of_mem item member))
        (others.length + 1 + fuel) (by omega)
      have next := items_next (denote item List.mem_cons_self) later
      rw [items_gap]
      simpa [itemLines, items_indented] using next

theorem length_itemLines (written : List (List Char × Node)) :
    written.length ≤ (itemLines written).length := by
  induction written with
  | nil => exact Nat.le_refl 0
  | cons item others ih =>
      simp only [itemLines, List.flatMap_cons, List.length_append, List.length_cons] at ih ⊢
      omega

theorem denotes_none : Denotes (depth + 1) ['[', ']'] (.array []) := by
  refine ⟨⟨'[', _, rfl, rfl⟩, fun stop rest _ => ?_⟩
  simp [items_closed]

theorem denotes_one {text : List Char} {node : Node} (denotes : Denotes depth text node) :
    Denotes (depth + 1) ('[' :: (text ++ [']'])) (.array [node]) := by
  refine ⟨⟨'[', _, rfl, rfl⟩, fun stop rest _ => ?_⟩
  have found := fun fuel => items_last denotes fuel (stop :: rest)
  simp [found]

theorem denotes_lines (written : List (List Char × Node))
    (denote : ∀ item ∈ written, Denotes depth item.1 item.2) :
    Denotes (depth + 1) ('[' :: '\n' :: (itemLines written ++ [']']))
      (.array (written.map Prod.snd)) := by
  refine ⟨⟨'[', _, rfl, rfl⟩, fun stop rest _ => ?_⟩
  have few := length_itemLines written
  have found := items_lines written denote
    (('\n' :: (itemLines written ++ ']' :: stop :: rest)).length + 1) (stop :: rest) (by
      rw [List.length_cons, List.length_append]
      omega)
  simpa using found

end arrays

end Microbench.Toml
