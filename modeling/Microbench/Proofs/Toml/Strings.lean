import Microbench.Toml.Quoted
/-!
A written string is read as the text that it was written for.

What the writer puts down for a character is read as that character, whatever comes behind it.
Only quotes inside triple quotes are told by what follows, because the closing ones are quotes
too: a run of them is looked at as a whole, together with the end of the string.
-/
namespace Microbench.Toml.Quoted

-- The readers are opened wherever it is known what comes next.
attribute [local simp] basic literal tripleBasic tripleLiteral

section characters

def body : (lines : Bool) → Reader (List Char)
  | false => basic
  | true => tripleBasic false

structure Stands (lines : Bool) (written : List Char) (c : Char) : Prop where
  begins : ∃ first others, written = first :: others ∧ first ≠ '"' ∧ first ≠ '\r' ∧
    (first = '\n' → c = '\n')
  read : ∀ rest, body lines (written ++ rest) = before c (body lines rest)

theorem code_of_needsEscape (c : Char) (needed : needsEscape c = true) : c.toNat < 128 := by
  refine Nat.lt_of_not_le fun large => ?_
  have printable : isPlain c = true := by
    have low : 0x20 ≤ c.toNat := by omega
    have high : c.toNat ≠ 0x7F := by omega
    simp [isPlain, low, high]
  simp [needsEscape, printable] at needed

theorem codePoint_written (c : Char) (ascii : c.toNat < 128) :
    codePoint? ['0', '0', upperHexDigit (c.toNat / 16), upperHexDigit (c.toNat % 16)] = some c := by
  have all : ∀ code < 128, codePoint? ['0', '0', upperHexDigit (code / 16),
      upperHexDigit (code % 16)] = some (Char.ofNat code) := by decide
  rw [all c.toNat ascii, Char.ofNat_toNat]

variable (lines : Bool)

theorem stands_letter {letter c : Char} (named : escaped? letter = some c)
    (noCode : letter ≠ 'u' ∧ letter ≠ 'U') : Stands lines ['\\', letter] c := by
  refine ⟨⟨'\\', [letter], rfl, by simp⟩, fun rest => ?_⟩
  cases lines with
  | false => simp [body, named, noCode]
  | true => simp [body, named, noCode]

theorem stands_code (c : Char) (ascii : c.toNat < 128) : Stands lines
    ['\\', 'u', '0', '0', upperHexDigit (c.toNat / 16), upperHexDigit (c.toNat % 16)] c := by
  have code := codePoint_written c ascii
  refine ⟨⟨'\\', _, rfl, by simp⟩, fun rest => ?_⟩
  cases lines with
  | false => simp [body, code]
  | true => simp [body, code]

theorem stands_escape {c : Char} {written : List Char} (escape : escape? c = some written) :
    Stands lines written c := by
  unfold escape? at escape
  iterate 5
    split at escape
    · next same =>
      cases same
      cases escape
      exact stands_letter lines rfl (by decide)
  split at escape
  · next needed =>
    cases escape
    exact stands_code lines c (code_of_needsEscape c needed)
  · cases escape

theorem stands_self {c : Char} (unescaped : escape? c = none) (notQuote : c ≠ '"')
    (notLine : c ≠ '\n') : Stands lines [c] c := by
  have notBackslash : c ≠ '\\' := by
    rintro rfl
    cases unescaped
  have notReturn : c ≠ '\r' := by
    rintro rfl
    cases unescaped
  have plain : isPlain c = true := by
    refine Bool.of_not_eq_false fun control => ?_
    have needed : needsEscape c = true := by simp [needsEscape, notLine, control]
    unfold escape? at unescaped
    repeat' split at unescaped
    all_goals simp_all
  refine ⟨⟨c, [], rfl, notQuote, notReturn, id⟩, fun rest => ?_⟩
  cases lines with
  | false => simp [body, notBackslash, plain]
  | true => simp [body, notQuote, notBackslash, notReturn, plain]

/-- Whatever the writer puts down for a character that is no quote stands for it. -/
theorem escapeAll_cons (quotes : Nat) {c : Char} (rest : List Char) (notQuote : c ≠ '"') :
    ∃ written, escapeAll lines quotes (c :: rest) = written ++ escapeAll lines 0 rest ∧
      Stands lines written c := by
  rw [escapeAll, if_neg notQuote]
  by_cases newline : c = '\n'
  · subst newline
    cases lines with
    | false => exact ⟨['\\', 'n'], rfl, stands_letter false rfl (by decide)⟩
    | true =>
        refine ⟨['\n'], rfl, ⟨'\n', [], rfl, by simp⟩, fun rest => ?_⟩
        simp [body]
  · rw [if_neg newline]
    cases escape : escape? c with
    | some written => exact ⟨written, rfl, stands_escape lines escape⟩
    | none => exact ⟨[c], rfl, stands_self lines escape notQuote newline⟩

end characters

section forms

theorem basic_written (quotes : Nat) (text rest : List Char) :
    basic (escapeAll false quotes text ++ '"' :: rest) = some (text, rest) := by
  induction text generalizing quotes with
  | nil => simp [escapeAll]
  | cons c others ih =>
      by_cases quote : c = '"'
      · subst quote
        have stands := (stands_letter false (show escaped? '"' = some '"' from rfl)
          (by decide)).read (escapeAll false 0 others ++ '"' :: rest)
        simpa [escapeAll, body, ih, before] using stands
      · obtain ⟨written, emitted, stands⟩ := escapeAll_cons false quotes others quote
        rw [emitted, List.append_assoc]
        exact (stands.read _).trans (by rw [body, ih]; rfl)

/-- Up to two quotes that something else than a quote follows are quotes of the text. -/
theorem tripleBasic_quotes {count : Nat} (few : count ≤ 2) {first : Char} (rest : List Char)
    (other : first ≠ '"') :
    tripleBasic false (List.replicate count '"' ++ first :: rest) =
      (tripleBasic false (first :: rest)).map fun (text, behind) =>
        (List.replicate count '"' ++ text, behind) := by
  match count, few with
  | 0, _ => simp
  | 1, _ => simp [other, before]
  | 2, _ => simp [other, before, List.replicate, Function.comp_def]

theorem tripleBasic_closed {count : Nat} (few : count ≤ 2) (rest : List Char)
    (ended : rest.head? ≠ some '"') :
    tripleBasic false (List.replicate count '"' ++ '"' :: '"' :: '"' :: rest) =
      some (List.replicate count '"', rest) := by
  match count, few, rest with
  | 0, _, [] => simp
  | 1, _, [] => simp [List.replicate]
  | 2, _, _ => simp [List.replicate]
  | 0, _, next :: _ => simp_all
  | 1, _, next :: _ => simp_all [List.replicate]

theorem tripleBasic_step {quotes : Nat} (few : quotes ≤ 2) {written : List Char} {c : Char}
    (stands : Stands true written c) {behind others rest : List Char}
    (later : tripleBasic false behind = some (others, rest)) :
    tripleBasic false (List.replicate quotes '"' ++ (written ++ behind)) =
      some (List.replicate quotes '"' ++ c :: others, rest) := by
  obtain ⟨⟨first, tail, rfl, other, _⟩, read⟩ := stands
  have one : tripleBasic false (first :: tail ++ behind) = some (c :: others, rest) :=
    (read behind).trans (by rw [body, later]; rfl)
  rw [List.cons_append, tripleBasic_quotes few _ other, ← List.cons_append, one]
  rfl

theorem tripleBasic_written {quotes : Nat} (few : quotes ≤ 2) (text rest : List Char)
    (ended : rest.head? ≠ some '"') :
    tripleBasic false (List.replicate quotes '"' ++
        (escapeAll true quotes text ++ '"' :: '"' :: '"' :: rest)) =
      some (List.replicate quotes '"' ++ text, rest) := by
  -- the induction is on the text, with the quotes in front of it that have been written already
  induction text generalizing quotes with
  | nil => simpa [escapeAll] using tripleBasic_closed few rest ended
  | cons c others ih =>
      have later : tripleBasic false (escapeAll true 0 others ++ '"' :: '"' :: '"' :: rest) =
          some (others, rest) := ih (Nat.zero_le 2)
      by_cases quote : c = '"'
      · subst quote
        by_cases more : quotes < 2
        · have emitted : escapeAll true quotes ('"' :: others) =
              '"' :: escapeAll true (quotes + 1) others := by simp [escapeAll, more]
          have next := ih (show quotes + 1 ≤ 2 from more)
          rw [emitted]
          simpa [List.replicate_succ', List.append_assoc] using next
        · have emitted : escapeAll true quotes ('"' :: others) =
              ['\\', '"'] ++ escapeAll true 0 others := by simp [escapeAll, more]
          rw [emitted, List.append_assoc]
          exact tripleBasic_step few (stands_letter true rfl (by decide)) later
      · obtain ⟨written, emitted, stands⟩ := escapeAll_cons true quotes others quote
        rw [emitted, List.append_assoc]
        exact tripleBasic_step few stands later

theorem literal_written (text rest : List Char) (plain : ∀ c ∈ text, isPlain c = true ∧ c ≠ '\'') :
    literal (text ++ '\'' :: rest) = some (text, rest) := by
  induction text with
  | nil => simp
  | cons c others ih =>
      obtain ⟨shown, _⟩ := plain c List.mem_cons_self
      have later := ih fun other member => plain other (List.mem_cons_of_mem c member)
      simp [shown, later, before]

theorem tripleLiteral_quotes {count : Nat} (few : count ≤ 2) {first : Char} (rest : List Char)
    (other : first ≠ '\'') :
    tripleLiteral (List.replicate count '\'' ++ first :: rest) =
      (tripleLiteral (first :: rest)).map fun (text, behind) =>
        (List.replicate count '\'' ++ text, behind) := by
  match count, few with
  | 0, _ => simp
  | 1, _ => simp [other, before, show isPlain '\'' = true from rfl]
  | 2, _ => simp [other, before, List.replicate, Function.comp_def, show isPlain '\'' = true from rfl]

theorem tripleLiteral_closed {count : Nat} (few : count ≤ 2) (rest : List Char)
    (ended : rest.head? ≠ some '\'') :
    tripleLiteral (List.replicate count '\'' ++ '\'' :: '\'' :: '\'' :: rest) =
      some (List.replicate count '\'', rest) := by
  match count, few, rest with
  | 0, _, [] => simp
  | 1, _, [] => simp [List.replicate]
  | 2, _, _ => simp [List.replicate]
  | 0, _, next :: _ => simp_all
  | 1, _, next :: _ => simp_all [List.replicate]

theorem le_longestRun (wanted : Char) (run : Nat) (text : List Char) :
    run ≤ longestRun wanted run text := by
  induction text generalizing run with
  | nil => exact Nat.le_refl run
  | cons c rest ih =>
      rw [longestRun]
      split
      · exact Nat.le_of_succ_le (ih (run + 1))
      · exact Nat.le_max_left run _

theorem absent_of_longestRun {wanted : Char} {text : List Char}
    (none : longestRun wanted 0 text = 0) : wanted ∉ text := by
  induction text with
  | nil => exact List.not_mem_nil
  | cons c rest ih =>
      rw [longestRun] at none
      split at none
      · have counted := le_longestRun wanted (0 + 1) rest
        omega
      · next other =>
        rw [List.mem_cons, not_or]
        exact ⟨Ne.symm other, ih (by omega)⟩

theorem tripleLiteral_cons {c : Char} (rest : List Char) (plain : needsEscape c = false)
    (unquoted : c ≠ '\'') : tripleLiteral (c :: rest) = before c (tripleLiteral rest) := by
  by_cases newline : c = '\n'
  · subst newline
    simp
  · have shown : isPlain c = true := by simpa [needsEscape, newline] using plain
    have notReturn : c ≠ '\r' := by
      rintro rfl
      cases shown
    simp [unquoted, notReturn, shown]

theorem tripleLiteral_written {quotes : Nat} (few : quotes ≤ 2) (text rest : List Char)
    (short : longestRun '\'' quotes text ≤ 2) (plain : ∀ c ∈ text, needsEscape c = false)
    (ended : rest.head? ≠ some '\'') :
    tripleLiteral (List.replicate quotes '\'' ++ (text ++ '\'' :: '\'' :: '\'' :: rest)) =
      some (List.replicate quotes '\'' ++ text, rest) := by
  induction text generalizing quotes with
  | nil => simpa using tripleLiteral_closed few rest ended
  | cons c others ih =>
      have plainLater : ∀ other ∈ others, needsEscape other = false :=
        fun other member => plain other (List.mem_cons_of_mem c member)
      by_cases quote : c = '\''
      · subst quote
        rw [longestRun, if_pos rfl] at short
        have next := ih (Nat.le_trans (le_longestRun _ _ _) short) short plainLater
        simpa [List.replicate_succ', List.append_assoc] using next
      · rw [longestRun, if_neg quote] at short
        have later := ih (Nat.zero_le 2) (by omega) plainLater
        have read : tripleLiteral (c :: (others ++ '\'' :: '\'' :: '\'' :: rest)) =
            some (c :: others, rest) := by
          rw [tripleLiteral_cons _ (plain c List.mem_cons_self) quote]
          exact (congrArg (before c) later).trans rfl
        rw [List.cons_append, tripleLiteral_quotes few _ quote, read]
        rfl

end forms

section strings

theorem afterOpening_written (text body : List Char)
    (level : '\n' ∉ text → lineEnd? body = none) : afterOpening (opening text ++ body) = body := by
  by_cases broken : '\n' ∈ text
  · simp [opening, broken, afterOpening, lineEnd?]
  · simp [opening, broken, afterOpening, level broken]

theorem lineEnd_none {first : Char} (rest : List Char) (notLine : first ≠ '\n')
    (notReturn : first ≠ '\r') : lineEnd? (first :: rest) = none := by
  simp [lineEnd?, notLine, notReturn]

theorem read_basic (text rest : List Char) (ended : rest.head? ≠ some '"') :
    read ('"' :: (escapeAll false 0 text ++ '"' :: rest)) = some (text, rest) := by
  have single : read ('"' :: (escapeAll false 0 text ++ '"' :: rest)) =
      basic (escapeAll false 0 text ++ '"' :: rest) := by
    cases text with
    | nil =>
        cases rest <;> simp_all [read, escapeAll]
    | cons c others =>
        by_cases quote : c = '"'
        · simp [quote, escapeAll, read]
        · obtain ⟨written, emitted, ⟨first, tail, rfl, other, _⟩, _⟩ :=
            escapeAll_cons false 0 others quote
          simp [emitted, read, other]
  rw [single, basic_written]

theorem read_tripleBasic (text rest : List Char) (ended : rest.head? ≠ some '"') :
    read ('"' :: '"' :: '"' :: (opening text ++ (escapeAll true 0 text ++
      '"' :: '"' :: '"' :: rest))) = some (text, rest) := by
  have level (flat : '\n' ∉ text) :
      lineEnd? (escapeAll true 0 text ++ '"' :: '"' :: '"' :: rest) = none := by
    cases text with
    | nil => rfl
    | cons c others =>
        by_cases quote : c = '"'
        · subst quote
          rfl
        · obtain ⟨written, emitted, ⟨first, tail, rfl, _, notReturn, newline⟩, _⟩ :=
            escapeAll_cons true 0 others quote
          rw [emitted]
          refine lineEnd_none _ (fun line => flat ?_) notReturn
          exact newline line ▸ List.mem_cons_self
  rw [read, afterOpening_written text _ level]
  exact tripleBasic_written (Nat.zero_le 2) text rest ended

theorem read_literal (text rest : List Char) (plain : ∀ c ∈ text, isPlain c = true ∧ c ≠ '\'')
    (ended : rest.head? ≠ some '\'') :
    read ('\'' :: (text ++ '\'' :: rest)) = some (text, rest) := by
  have single : read ('\'' :: (text ++ '\'' :: rest)) = literal (text ++ '\'' :: rest) := by
    cases text with
    | nil => cases rest <;> simp_all [read]
    | cons c others =>
        have unquoted := (plain c List.mem_cons_self).2
        simp [read, unquoted]
  rw [single, literal_written text rest plain]

theorem read_tripleLiteral (text rest : List Char) (short : longestRun '\'' 0 text ≤ 2)
    (plain : ∀ c ∈ text, needsEscape c = false) (ended : rest.head? ≠ some '\'') :
    read ('\'' :: '\'' :: '\'' :: (opening text ++ (text ++
      '\'' :: '\'' :: '\'' :: rest))) = some (text, rest) := by
  have level (flat : '\n' ∉ text) :
      lineEnd? (text ++ '\'' :: '\'' :: '\'' :: rest) = none := by
    cases text with
    | nil => rfl
    | cons c others =>
        refine lineEnd_none _ (fun line => flat (line ▸ List.mem_cons_self)) ?_
        rintro rfl
        exact absurd (plain '\r' List.mem_cons_self) (by decide)
  rw [read, afterOpening_written text _ level]
  exact tripleLiteral_written (Nat.zero_le 2) text rest short plain ended

theorem formOf_literal {text : List Char} (form : formOf text = .literal) :
    ∀ c ∈ text, isPlain c = true ∧ c ≠ '\'' := by
  have flat : (!text.any needsEscape && longestRun '\'' 0 text = 0 && !text.contains '\n') = true := by
    simp only [formOf] at form
    repeat' split at form
    all_goals simp_all
  simp only [Bool.and_eq_true, Bool.not_eq_true', List.any_eq_false, decide_eq_true_eq,
    List.contains_eq_mem, decide_eq_false_iff_not] at flat
  obtain ⟨⟨plain, unquoted⟩, unbroken⟩ := flat
  intro c member
  constructor
  · have newline : c ≠ '\n' := fun same => unbroken (same ▸ member)
    simpa [needsEscape, newline] using plain c member
  · exact fun same => absent_of_longestRun unquoted (same ▸ member)

theorem formOf_tripleLiteral {text : List Char} (form : formOf text = .tripleLiteral) :
    longestRun '\'' 0 text ≤ 2 ∧ ∀ c ∈ text, needsEscape c = false := by
  have fits : (!text.any needsEscape && longestRun '\'' 0 text ≤ 2) = true := by
    simp only [formOf] at form
    repeat' split at form
    all_goals simp_all
  simp only [Bool.and_eq_true, Bool.not_eq_true', List.any_eq_false, decide_eq_true_eq] at fits
  obtain ⟨plain, short⟩ := fits
  exact ⟨short, fun c member => by simpa using plain c member⟩

/-- A written string is read as its text, whatever the text is. -/
theorem read_write (text rest : List Char) (ended : rest.head? ≠ some '"')
    (ended' : rest.head? ≠ some '\'') : read (write text ++ rest) = some (text, rest) := by
  unfold write
  cases form : formOf text with
  | basic => simpa using read_basic text rest ended
  | literal => simpa using read_literal text rest (formOf_literal form) ended'
  | tripleBasic => simpa using read_tripleBasic text rest ended
  | tripleLiteral =>
      obtain ⟨short, plain⟩ := formOf_tripleLiteral form
      simpa using read_tripleLiteral text rest short plain ended'

end strings

end Microbench.Toml.Quoted
