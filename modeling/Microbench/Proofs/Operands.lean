import Microbench.Statement
/-!
Operands with commas between them.

A text is cut at its commas, and of every piece the blanks at both ends are left out. `Spread`
says in which texts a list of operands is written, and cutting such a text gives the operands
back; every text is written from the operands that it is cut into. So blanks at the ends of a
text change nothing.
-/
namespace Microbench.Text

section trimming

/-- A text that a split leaves whole: no comma, and no blank at either end. -/
structure Whole (text : List Char) : Prop where
  present : text ≠ []
  unparted : ',' ∉ text
  started : trimStart text = text
  ended : trimEnd text = text

def Blank (text : List Char) : Prop := ∀ c ∈ text, isBlank c = true

def Shown (text : List Char) : Prop := ∀ c ∈ text, isBlank c = false ∧ c ≠ ','

def Solid (text : List Char) : Prop := text ≠ [] ∧ Shown text

-- These look at the characters of the text only, where another instance might try them all.
instance (text : List Char) : Decidable (Blank text) := List.decidableBAll _ text

instance (text : List Char) : Decidable (Shown text) := List.decidableBAll _ text

instance (text : List Char) : Decidable (Solid text) := inferInstanceAs (Decidable (_ ∧ _))

theorem Solid.unbroken {text : List Char} (solid : Solid text) : ∀ c ∈ text, isBlank c = false :=
  fun c member => (solid.2 c member).1

theorem Blank.append {front back : List Char} (first : Blank front) (second : Blank back) :
    Blank (front ++ back) := List.forall_mem_append.mpr ⟨first, second⟩

theorem trim_start_of_head (first : Char) (rest : List Char) (shown : isBlank first = false) :
    trimStart (first :: rest) = first :: rest := by
  simp [trimStart, shown]

theorem trim_start_blanks (blanks text : List Char) (blank : Blank blanks) :
    trimStart (blanks ++ text) = trimStart text := List.dropWhile_append_of_pos blank

theorem trim_start_blank (blanks : List Char) (blank : Blank blanks) : trimStart blanks = [] := by
  simpa [trimStart] using trim_start_blanks blanks [] blank

theorem head_trim_start (text : List Char) : ∀ c ∈ (trimStart text).head?, isBlank c = false := by
  intro c begins
  have stopped := List.head?_dropWhile_not isBlank text
  rw [← trimStart, Option.mem_def.mp begins] at stopped
  exact stopped

theorem trim_start_self_iff (text : List Char) :
    trimStart text = text ↔ ∀ c ∈ text.head?, isBlank c = false := by
  constructor
  · intro same
    rw [← same]
    exact head_trim_start text
  · intro begins
    cases text with
    | nil => rfl
    | cons first rest => exact trim_start_of_head first rest (begins first rfl)

theorem trim_start_append (front back : List Char) (present : front ≠ [])
    (begins : ∀ c ∈ front.head?, isBlank c = false) : trimStart (front ++ back) = front ++ back := by
  cases front with
  | nil => exact absurd rfl present
  | cons first rest => exact trim_start_of_head first _ (begins first rfl)

theorem trim_end_self_iff (text : List Char) :
    trimEnd text = text ↔ ∀ c ∈ text.getLast?, isBlank c = false := by
  -- the end of a text is the start of its reverse
  rw [trimEnd, List.reverse_eq_iff, ← List.head?_reverse]
  exact trim_start_self_iff text.reverse

theorem exists_trim_start (text : List Char) :
    ∃ blanks, Blank blanks ∧ blanks ++ trimStart text = text :=
  ⟨text.takeWhile isBlank, fun c member => List.all_eq_true.mp List.all_takeWhile c member,
    List.takeWhile_append_dropWhile⟩

theorem exists_trim_end (text : List Char) :
    ∃ blanks, Blank blanks ∧ trimEnd text ++ blanks = text := by
  obtain ⟨blanks, blank, same⟩ := exists_trim_start text.reverse
  refine ⟨blanks.reverse, fun c member => blank c (List.mem_reverse.mp member), ?_⟩
  rw [trimEnd, ← trimStart, ← List.reverse_append, same, List.reverse_reverse]

theorem exists_trim (text : List Char) : ∃ before after, Blank before ∧ Blank after ∧
    before ++ trim text ++ after = text := by
  obtain ⟨before, blankBefore, start⟩ := exists_trim_start text
  obtain ⟨after, blankAfter, ends⟩ := exists_trim_end (trimStart text)
  exact ⟨before, after, blankBefore, blankAfter, by rw [trim, List.append_assoc, ends, start]⟩

theorem trim_blanks (blanks : List Char) (blank : Blank blanks) : trim blanks = [] := by
  rw [trim, trim_start_blank blanks blank]
  rfl

theorem blank_of_trim (text : List Char) (nothing : trim text = []) : Blank text := by
  obtain ⟨before, after, blankBefore, blankAfter, same⟩ := exists_trim text
  rw [nothing, List.append_nil] at same
  exact same ▸ blankBefore.append blankAfter

theorem trim_padded (before text after : List Char) (blankBefore : Blank before)
    (blankAfter : Blank after) (whole : Whole text) : trim (before ++ text ++ after) = text := by
  have started : trimStart (before ++ text ++ after) = text ++ after := by
    rw [List.append_assoc, trim_start_blanks before _ blankBefore]
    exact trim_start_append text after whole.present ((trim_start_self_iff text).mp whole.started)
  have cleared : (after.reverse ++ text.reverse).dropWhile isBlank =
      text.reverse.dropWhile isBlank :=
    trim_start_blanks _ _ fun c member => blankAfter c (List.mem_reverse.mp member)
  rw [trim, started, trimEnd, List.reverse_append, cleared]
  exact whole.ended

theorem whole_trim (text : List Char) (present : trim text ≠ []) (unparted : ',' ∉ text) :
    Whole (trim text) := by
  -- what is trimmed off the end of a text is behind the character that it starts with
  obtain ⟨before, after, _, _, same⟩ := exists_trim text
  obtain ⟨blanks, _, rest⟩ := exists_trim_end (trimStart text)
  constructor
  case present => exact present
  case unparted =>
    intro comma
    rw [← same] at unparted
    exact unparted (List.mem_append_left after (List.mem_append_right before comma))
  case started =>
    refine (trim_start_self_iff _).mpr fun c begins => head_trim_start text c ?_
    rw [← rest, List.head?_append, ← trim, Option.mem_def.mp begins]
    rfl
  case ended =>
    apply (trim_end_self_iff _).mpr
    rw [trim, trimEnd, List.getLast?_reverse]
    exact head_trim_start _

theorem whole_of_solid (text : List Char) (solid : Solid text) : Whole text := by
  obtain ⟨present, shown⟩ := solid
  constructor
  case present => exact present
  case unparted => exact fun comma => (shown ',' comma).2 rfl
  case started =>
    exact (trim_start_self_iff text).mpr fun c begins => (shown c (List.mem_of_head? begins)).1
  case ended =>
    exact (trim_end_self_iff text).mpr fun c ends => (shown c (List.mem_of_getLast? ends)).1

theorem solid_append (front back : List Char) (solid : Solid front)
    (shown : Shown back) : Solid (front ++ back) := by
  refine ⟨by simp [solid.1], ?_⟩
  intro c member
  rcases List.mem_append.mp member with front | back
  · exact solid.2 c front
  · exact shown c back

end trimming

section cutting

theorem pieces_of_absent (separator : Char) (text : List Char) (absent : separator ∉ text) :
    pieces separator text = [text] := by
  induction text with
  | nil => rfl
  | cons c rest ih =>
      rw [List.mem_cons, not_or] at absent
      simp [pieces, Ne.symm absent.1, ih absent.2]

theorem pieces_append_separator (separator : Char) (front back : List Char) :
    pieces separator (front ++ separator :: back) =
      pieces separator front ++ pieces separator back := by
  induction front with
  | nil => simp [pieces]
  | cons c rest ih =>
      obtain ⟨first, others, parted⟩ := List.exists_cons_of_ne_nil (pieces_ne_nil separator rest)
      by_cases same : c = separator
      · simp [pieces, same, ih]
      · simp [pieces, same, ih, parted]

theorem absent_of_mem_pieces (separator : Char) (text piece : List Char)
    (member : piece ∈ pieces separator text) : separator ∉ piece := by
  induction text generalizing piece with
  | nil => simp_all [pieces]
  | cons c rest ih =>
      obtain ⟨first, others, parted⟩ := List.exists_cons_of_ne_nil (pieces_ne_nil separator rest)
      rw [parted] at ih
      by_cases same : c = separator
      · simp only [pieces, same, if_true, parted, List.mem_cons] at member
        rcases member with rfl | member
        · exact List.not_mem_nil
        · exact ih piece (List.mem_cons.mpr member)
      · simp only [pieces, same, if_false, parted, List.mem_cons] at member
        rcases member with rfl | member
        · rw [List.mem_cons, not_or]
          exact ⟨Ne.symm same, ih first List.mem_cons_self⟩
        · exact ih piece (List.mem_cons_of_mem first member)

theorem intercalate_pieces (separator : Char) (text : List Char) :
    [separator].intercalate (pieces separator text) = text := by
  induction text with
  | nil => rfl
  | cons c rest ih =>
      obtain ⟨first, others, parted⟩ := List.exists_cons_of_ne_nil (pieces_ne_nil separator rest)
      rw [parted] at ih
      by_cases same : c = separator
      · simp [pieces, same, parted, ih]
      · simp only [pieces, same, if_false, parted]
        cases others with
        | nil => simpa using ih
        | cons second others => simpa using ih

theorem pieces_append (separator : Char) (first rest : List Char) (absent : separator ∉ first) :
    pieces separator (first ++ separator :: rest) = first :: pieces separator rest := by
  rw [pieces_append_separator, pieces_of_absent separator first absent]
  rfl

theorem cut_at_blank (word rest : List Char) (unbroken : ∀ c ∈ word, isBlank c = false)
    (parted : ∀ c ∈ rest.head?, isBlank c = true) :
    untilBlank (word ++ rest) = word ∧ fromBlank (word ++ rest) = rest := by
  have plain : ∀ c ∈ word, (fun c => !isBlank c) c = true := fun c member => by
    simp [unbroken c member]
  rw [untilBlank, fromBlank, List.takeWhile_append_of_pos plain, List.dropWhile_append_of_pos plain]
  cases rest with
  | nil => simp
  | cons c rest => simp [parted c rfl]

theorem cut_first_word (lead word rest : List Char) (leading : Blank lead) (present : word ≠ [])
    (unbroken : ∀ c ∈ word, isBlank c = false) (parted : ∀ c ∈ rest.head?, isBlank c = true) :
    firstWord (lead ++ word ++ rest) = word ∧
      fromBlank (trimStart (lead ++ word ++ rest)) = rest := by
  have started : trimStart (lead ++ word ++ rest) = word ++ rest := by
    rw [List.append_assoc, trim_start_blanks lead _ leading]
    exact trim_start_append word rest present fun c begins => unbroken c (List.mem_of_head? begins)
  rw [firstWord, started]
  exact cut_at_blank word rest unbroken parted

theorem until_unbroken (text : List Char) : ∀ c ∈ untilBlank text, isBlank c = false := by
  intro c member
  simpa using List.all_eq_true.mp List.all_takeWhile c member

theorem from_parted (text : List Char) : ∀ c ∈ (fromBlank text).head?, isBlank c = true := by
  intro c begins
  have stopped := List.head?_dropWhile_not (fun c => !isBlank c) text
  rw [← fromBlank, Option.mem_def.mp begins] at stopped
  simpa using stopped

theorem exists_gap (text : List Char) : ∃ gap rest, Blank gap ∧ (rest ≠ [] → gap ≠ []) ∧
    gap ++ rest = fromBlank text := by
  cases spelt : fromBlank text with
  | nil => exact ⟨[], [], List.forall_mem_nil _, absurd rfl, rfl⟩
  | cons c rest =>
      have blank := from_parted text c (by rw [spelt]; rfl)
      exact ⟨[c], rest, by simpa [Blank] using blank, fun _ => List.cons_ne_nil _ _, rfl⟩

theorem cut_append_blanks (text blanks : List Char) (blank : Blank blanks) :
    untilBlank (text ++ blanks) = untilBlank text ∧
      fromBlank (text ++ blanks) = fromBlank text ++ blanks := by
  have parted : ∀ c ∈ (fromBlank text ++ blanks).head?, isBlank c = true := by
    intro c begins
    cases spelt : fromBlank text with
    | nil =>
        rw [spelt] at begins
        exact blank c (List.mem_of_head? begins)
    | cons first rest =>
        rw [spelt] at begins
        exact from_parted text c (spelt ▸ begins)
  have whole : text ++ blanks = untilBlank text ++ (fromBlank text ++ blanks) := by
    rw [← List.append_assoc, until_append_from]
  rw [whole]
  exact cut_at_blank _ _ (until_unbroken text) parted

end cutting

section operands

def trimmed (texts : List (List Char)) : List (List Char) :=
  (texts.map trim).filter fun text => !text.isEmpty

def operands (text : List Char) : List (List Char) := trimmed (pieces ',' text)

theorem trimmed_append (front back : List (List Char)) :
    trimmed (front ++ back) = trimmed front ++ trimmed back := by
  rw [trimmed, List.map_append, List.filter_append]
  rfl

theorem trimmed_blank (blanks : List Char) (blank : Blank blanks) : trimmed [blanks] = [] := by
  simp [trimmed, trim_blanks blanks blank]

theorem trimmed_present (text : List Char) (present : trim text ≠ []) :
    trimmed [text] = [trim text] := by
  simp [trimmed, present]

/-- The texts in which these operands are written. They stand in order between commas, with blanks
around each of them, and between some commas there may be only blanks. -/
inductive Spread : List (List Char) → List Char → Prop where
  | blank {blanks : List Char} (blank : Blank blanks) : Spread [] blanks
  | operand {before operand after : List Char} (blankBefore : Blank before)
      (blankAfter : Blank after) : Spread [operand] (before ++ operand ++ after)
  | comma {front back : List (List Char)} {first second : List Char} (left : Spread front first)
      (right : Spread back second) : Spread (front ++ back) (first ++ ',' :: second)

namespace Spread

theorem operands_eq {written : List (List Char)} {text : List Char} (spread : Spread written text)
    (whole : ∀ operand ∈ written, Whole operand) : operands text = written := by
  induction spread with
  | @blank blanks blank =>
      have clean : ',' ∉ blanks := fun comma => absurd (blank ',' comma) (by decide)
      rw [operands, pieces_of_absent ',' blanks clean, trimmed_blank blanks blank]
  | @operand before operand after blankBefore blankAfter =>
      have alone := whole operand List.mem_cons_self
      have clean : ',' ∉ before ++ operand ++ after := by
        simp only [List.mem_append, not_or]
        exact ⟨⟨fun comma => absurd (blankBefore ',' comma) (by decide), alone.unparted⟩,
          fun comma => absurd (blankAfter ',' comma) (by decide)⟩
      have bare := trim_padded before operand after blankBefore blankAfter alone
      have present : trim (before ++ operand ++ after) ≠ [] := by rw [bare]; exact alone.present
      rw [operands, pieces_of_absent ',' _ clean, trimmed_present _ present, bare]
  | @comma front back first second _ _ left right =>
      obtain ⟨wholeFront, wholeBack⟩ := List.forall_mem_append.mp whole
      rw [← left wholeFront, ← right wholeBack, operands, pieces_append_separator, trimmed_append]
      rfl

theorem behind {written : List (List Char)} {text blanks : List Char}
    (spread : Spread written text) (blank : Blank blanks) : Spread written (blanks ++ text) := by
  induction spread with
  | blank more => exact .blank (blank.append more)
  | operand before after =>
      rw [← List.append_assoc, ← List.append_assoc]
      exact .operand (blank.append before) after
  | comma _ right left _ =>
      rw [← List.append_assoc]
      exact .comma left right

theorem before {written : List (List Char)} {text blanks : List Char}
    (spread : Spread written text) (blank : Blank blanks) : Spread written (text ++ blanks) := by
  induction spread with
  | blank more => exact .blank (more.append blank)
  | operand before after =>
      rw [List.append_assoc]
      exact .operand before (after.append blank)
  | comma left _ _ right =>
      rw [List.append_assoc, List.cons_append]
      exact .comma left right

theorem alone (operand : List Char) : Spread [operand] operand := by
  have spread : Spread [operand] ([] ++ operand ++ []) :=
    .operand (List.forall_mem_nil _) (List.forall_mem_nil _)
  rwa [List.nil_append, List.append_nil] at spread

theorem joined {gap : List Char} (blank : Blank gap) (written : List (List Char)) :
    Spread written ((',' :: gap).intercalate written) := by
  induction written with
  | nil => exact .blank (List.forall_mem_nil _)
  | cons first rest ih =>
      cases rest with
      | nil => simpa using alone first
      | cons second rest =>
          rw [List.intercalate_cons_cons, List.append_assoc]
          exact (alone first).comma (ih.behind blank)

end Spread

theorem spread_piece (text : List Char) : Spread (trimmed [text]) text := by
  by_cases present : trim text = []
  · have blank := blank_of_trim text present
    rw [trimmed_blank text blank]
    exact .blank blank
  · obtain ⟨before, after, blankBefore, blankAfter, same⟩ := exists_trim text
    have spread : Spread [trim text] (before ++ trim text ++ after) :=
      .operand blankBefore blankAfter
    rw [trimmed_present text present]
    rwa [same] at spread

theorem spread_pieces (texts : List (List Char)) :
    Spread (trimmed texts) ([','].intercalate texts) := by
  induction texts with
  | nil => exact .blank (List.forall_mem_nil _)
  | cons first rest ih =>
      cases rest with
      | nil => simpa using spread_piece first
      | cons second rest =>
          rw [← List.singleton_append, trimmed_append, List.singleton_append,
            List.intercalate_cons_cons, List.append_assoc]
          exact (spread_piece first).comma ih

theorem spread_operands (text : List Char) : Spread (operands text) text := by
  have spread := spread_pieces (pieces ',' text)
  rwa [intercalate_pieces] at spread

theorem whole_operands (text : List Char) : ∀ operand ∈ operands text, Whole operand := by
  intro operand member
  obtain ⟨member, present⟩ := List.mem_filter.mp member
  obtain ⟨piece, cut, rfl⟩ := List.mem_map.mp member
  exact whole_trim piece (by simpa using present) (absent_of_mem_pieces ',' text piece cut)

theorem operands_blanks_append (blanks text : List Char) (blank : Blank blanks) :
    operands (blanks ++ text) = operands text :=
  ((spread_operands text).behind blank).operands_eq (whole_operands text)

theorem operands_append_blanks (text blanks : List Char) (blank : Blank blanks) :
    operands (text ++ blanks) = operands text :=
  ((spread_operands text).before blank).operands_eq (whole_operands text)

end operands

end Microbench.Text
