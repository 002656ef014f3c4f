import Microbench.Proofs.Toml.Values
/-!
Documents that are a row of sections, each with its fields on lines of their own.

Such a document is read line by line: what a line says does not depend on the lines behind it.
The table that it stands for has an entry for every section and in it an entry for every field,
in the order in which they are written, as long as no name comes up twice in one place.
-/
namespace Microbench.Toml

section keys

def Bare (key : String) : Prop := key.toList ≠ [] ∧ ∀ c ∈ key.toList, isBareKeyChar c = true

instance (key : String) : Decidable (Bare key) :=
  decidable_of_iff ((!key.toList.isEmpty && key.toList.all isBareKeyChar) = true) (by simp [Bare])

theorem bare_begins {name : String} (bare : Bare name) : ∃ first others,
    name.toList = first :: others ∧ isBareKeyChar first = true := by
  obtain ⟨present, all⟩ := bare
  obtain ⟨first, others, spelt⟩ := List.exists_cons_of_ne_nil present
  exact ⟨first, others, spelt, all first (spelt ▸ List.mem_cons_self)⟩

theorem bare_other {first c : Char} (bare : isBareKeyChar first = true)
    (never : isBareKeyChar c = false) : first ≠ c := by
  rintro rfl
  rw [never] at bare
  cases bare

theorem simpleKey_bare {name : String} (bare : Bare name) {next : Char} (rest : List Char)
    (ended : isBareKeyChar next = false) :
    simpleKey (name.toList ++ next :: rest) = some (name, next :: rest) := by
  have taken : (name.toList ++ next :: rest).takeWhile isBareKeyChar = name.toList := by
    rw [List.takeWhile_append_of_pos bare.2]
    simp [ended]
  have dropped : (name.toList ++ next :: rest).dropWhile isBareKeyChar = next :: rest := by
    rw [List.dropWhile_append_of_pos bare.2]
    simp [ended]
  obtain ⟨first, others, spelt, begins⟩ := bare_begins bare
  have text : name = String.ofList (first :: others) := by rw [← spelt, String.ofList_toList]
  rw [spelt, List.cons_append] at taken dropped ⊢
  simp [simpleKey, bare_other begins (show isBareKeyChar '"' = false from rfl),
    bare_other begins (show isBareKeyChar '\'' = false from rfl), taken, dropped, text]

theorem skipSpaces_solid {first : Char} (rest : List Char) (solid : isSpace first = false) :
    skipSpaces (first :: rest) = first :: rest := by
  simp [skipSpaces, solid]

theorem bare_solid {first : Char} (bare : isBareKeyChar first = true) : isSpace first = false := by
  simp [isSpace, bare_other bare (show isBareKeyChar ' ' = false from rfl),
    bare_other bare (show isBareKeyChar '\t' = false from rfl)]

theorem key_bare {name : String} (bare : Bare name) {next : Char} (rest : List Char)
    (ended : isBareKeyChar next = false) (single : (skipSpaces (next :: rest)).head? ≠ some '.') :
    key (name.toList ++ next :: rest) = some ([name], skipSpaces (next :: rest)) := by
  have found := simpleKey_bare bare rest ended
  obtain ⟨first, others, spelt, begins⟩ := bare_begins bare
  have solid : skipSpaces (name.toList ++ next :: rest) = name.toList ++ next :: rest := by
    rw [spelt]
    exact skipSpaces_solid _ (bare_solid begins)
  rw [key, nestingLimit, keyParts, solid, found]
  simp only [Option.bind_eq_bind, Option.bind_some]
  split
  · next rest' same =>
    rw [same] at single
    exact absurd rfl single
  · rfl

end keys

section lines

variable {rest : List Char}

theorem line_header {name : String} (bare : Bare name) :
    line ('[' :: (name.toList ++ ']' :: rest)) = some (.header [name] false, rest) := by
  have found : key (name.toList ++ ']' :: rest) = some ([name], ']' :: rest) :=
    key_bare bare rest rfl (by simp [skipSpaces, isSpace])
  obtain ⟨first, others, spelt, begins⟩ := bare_begins bare
  rw [spelt, List.cons_append] at found ⊢
  simp [line, bare_other begins (show isBareKeyChar '[' = false from rfl), header, found, expect]

theorem line_pair {key : String} (bare : Bare key) {text : List Char} {node : Node}
    (denotes : Denotes (nestingLimit - 1) text node) :
    line (key.toList ++ ' ' :: '=' :: ' ' :: (text ++ '\n' :: rest)) =
      some (.pair ⟨[], key, node⟩, '\n' :: rest) := by
  have found : Toml.key (key.toList ++ ' ' :: '=' :: ' ' :: (text ++ '\n' :: rest)) =
      some ([key], '=' :: ' ' :: (text ++ '\n' :: rest)) :=
    key_bare bare _ rfl (by simp [skipSpaces, isSpace])
  obtain ⟨⟨start, tail, same, begun⟩, read⟩ := denotes
  have solid : skipSpaces (' ' :: (text ++ '\n' :: rest)) = text ++ '\n' :: rest := by
    have unspaced : isSpace start = false := by
      simp [isSpace, begins_other begun (show beginsValue ' ' = false from rfl),
        begins_other begun (show beginsValue '\t' = false from rfl)]
    rw [same, List.cons_append]
    simp [skipSpaces, unspaced, show isSpace ' ' = true from rfl]
  have value := read '\n' rest rfl
  obtain ⟨first, others, spelt, begins⟩ := bare_begins bare
  rw [spelt, List.cons_append] at found ⊢
  simp [line, bare_other begins (show isBareKeyChar '[' = false from rfl), pair, found, expect,
    solid, value]

def Reads (text : List Char) (found : List Line) : Prop :=
  ∀ fuel, text.length < fuel → lines fuel text = some found

theorem reads_nil : Reads [] [] := by
  intro fuel enough
  obtain ⟨fuel, rfl⟩ := Nat.exists_eq_add_of_lt enough
  rfl

theorem reads_blank {found : List Line} (reads : Reads rest found) : Reads ('\n' :: rest) found := by
  intro fuel enough
  obtain ⟨fuel, rfl⟩ := Nat.exists_eq_add_of_lt enough
  have later := reads (rest.length + 1 + fuel) (by omega)
  simpa [lines, skipSpaces, isSpace, lineEnd?] using later

theorem reads_line {first : Line} {found : List Line} {start : Char} {others : List Char}
    (shown : start ≠ '#' ∧ start ≠ '\n' ∧ start ≠ '\r' ∧ isSpace start = false)
    (head : line (start :: others) = some (first, '\n' :: rest))
    (shorter : rest.length < others.length) (reads : Reads rest found) :
    Reads (start :: others) (first :: found) := by
  obtain ⟨notComment, notLine, notReturn, solid⟩ := shown
  intro fuel enough
  obtain ⟨fuel, rfl⟩ := Nat.exists_eq_add_of_lt enough
  have later := reads (others.length + 1 + fuel) (by omega)
  have ended : restOfLine? ('\n' :: rest) = some rest := by
    simp [restOfLine?, skipSpaces, isSpace, skipComment, lineEnd?]
  rw [List.length_cons, lines, skipSpaces_solid others solid]
  simp [notComment, lineEnd?, notLine, notReturn, head, ended, later]

theorem reads_header {name : String} (bare : Bare name) {found : List Line}
    (reads : Reads rest found) :
    Reads ('[' :: (name.toList ++ ']' :: '\n' :: rest)) (.header [name] false :: found) := by
  refine reads_line (by decide) (line_header bare) ?_ reads
  rw [List.length_append, List.length_cons, List.length_cons]
  omega

theorem reads_pair {key : String} (bare : Bare key) {text : List Char} {node : Node}
    (denotes : Denotes (nestingLimit - 1) text node) {found : List Line}
    (reads : Reads rest found) :
    Reads (key.toList ++ ' ' :: '=' :: ' ' :: (text ++ '\n' :: rest))
      (.pair ⟨[], key, node⟩ :: found) := by
  have head : line (key.toList ++ ' ' :: '=' :: ' ' :: (text ++ '\n' :: rest)) =
      some (.pair ⟨[], key, node⟩, '\n' :: rest) := line_pair bare denotes
  obtain ⟨start, others, spelt, begins⟩ := bare_begins bare
  rw [spelt, List.cons_append] at head ⊢
  refine reads_line ⟨bare_other begins rfl, bare_other begins rfl, bare_other begins rfl,
    bare_solid begins⟩ head ?_ reads
  simp only [List.length_append, List.length_cons]
  omega

end lines

section sections

structure Field where
  key : String
  text : List Char
  node : Node

structure Section where
  name : String
  fields : List Field

def Field.line (field : Field) : List Char :=
  field.key.toList ++ ' ' :: '=' :: ' ' :: (field.text ++ ['\n'])

def Section.text (part : Section) : List Char :=
  '[' :: (part.name.toList ++ ']' :: '\n' :: part.fields.flatMap Field.line)

def document (parts : List Section) : List Char := ['\n'].intercalate (parts.map Section.text)

/-- The keys are plain and differ, and the text of each value says what the value is. -/
structure Section.Sound (part : Section) : Prop where
  named : Bare part.name
  keys : ∀ field ∈ part.fields, Bare field.key
  values : ∀ field ∈ part.fields, Denotes (nestingLimit - 1) field.text field.node
  different : (part.fields.map Field.key).Nodup

def Field.pair (field : Field) : Pair := ⟨[], field.key, field.node⟩

def Section.lines (part : Section) : List Line :=
  .header [part.name] false :: part.fields.map fun field => .pair field.pair

def Section.entry (part : Section) : String × Node :=
  (part.name, .table .header (part.fields.map fun field => (field.key, field.node)))

theorem reads_fields {fields : List Field} (keys : ∀ field ∈ fields, Bare field.key)
    (values : ∀ field ∈ fields, Denotes (nestingLimit - 1) field.text field.node)
    {rest : List Char} {found : List Line} (reads : Reads rest found) :
    Reads (fields.flatMap Field.line ++ rest)
      (fields.map (fun field => .pair field.pair) ++ found) := by
  induction fields with
  | nil => exact reads
  | cons field others ih =>
      have later := ih (fun other member => keys other (List.mem_cons_of_mem field member))
        (fun other member => values other (List.mem_cons_of_mem field member))
      have line := reads_pair (keys field List.mem_cons_self) (values field List.mem_cons_self) later
      simpa [Field.line, Field.pair] using line

theorem reads_section {part : Section} (sound : part.Sound) {rest : List Char}
    {found : List Line} (reads : Reads rest found) :
    Reads (part.text ++ rest) (part.lines ++ found) := by
  have fields := reads_fields sound.keys sound.values reads
  have header := reads_header sound.named fields
  simpa [Section.text, Section.lines] using header

theorem reads_document (parts : List Section) (sound : ∀ part ∈ parts, part.Sound) :
    Reads (document parts) (parts.flatMap Section.lines) := by
  induction parts with
  | nil => exact reads_nil
  | cons part others ih =>
      have later := ih fun other member => sound other (List.mem_cons_of_mem part member)
      have own := sound part List.mem_cons_self
      cases others with
      | nil =>
          have alone := reads_section own reads_nil
          simpa [document] using alone
      | cons next others =>
          have joined := reads_section own (reads_blank later)
          simpa [document, List.intercalate] using joined

end sections

section tables

theorem blocks_fields (fields : List Field) (rest : List Line) :
    blocks (fields.map (fun field => .pair field.pair) ++ rest) =
      (fields.map Field.pair ++ (blocks rest).1, (blocks rest).2) := by
  induction fields with
  | nil => rfl
  | cons field others ih => simp [blocks, ih]

theorem blocks_sections (parts : List Section) : blocks (parts.flatMap Section.lines) =
    ([], parts.map fun part => ⟨[part.name], false, part.fields.map Field.pair⟩) := by
  induction parts with
  | nil => rfl
  | cons part others ih =>
      have fields := blocks_fields part.fields (others.flatMap Section.lines)
      simp [Section.lines, blocks, fields, ih]

theorem find_none (origin : Origin) {entries : List (String × Node)} {key : String}
    (absent : key ∉ entries.map Prod.fst) : (Table.mk origin entries).find? key = none := by
  rw [Table.find?, List.lookup_eq_none_iff]
  intro entry member
  have different : key ≠ entry.1 := fun same => absent (same ▸ List.mem_map_of_mem member)
  simpa using different

/-- Where no key comes up twice, every entry is the first with its key. -/
theorem find_of_mem (origin : Origin) {entries : List (String × Node)}
    (different : (entries.map Prod.fst).Nodup) {key : String} {node : Node}
    (member : (key, node) ∈ entries) : (Table.mk origin entries).find? key = some node := by
  rw [Table.find?]
  induction entries with
  | nil => cases member
  | cons entry rest ih =>
      obtain ⟨name, other⟩ := entry
      obtain ⟨absent, apart⟩ := List.nodup_cons.mp different
      rcases List.mem_cons.mp member with first | later
      · cases first
        simp
      · have behind : key ≠ name := by
          rintro rfl
          exact absent (List.mem_map.mpr ⟨_, later, rfl⟩)
        rw [List.lookup_cons, beq_false_of_ne behind]
        exact ih apart later

theorem put_new {origin : Origin} {entries : List (String × Node)} {key : String} (node : Node)
    (absent : key ∉ entries.map Prod.fst) :
    (Table.mk origin entries).put key node = ⟨origin, entries ++ [(key, node)]⟩ := by
  have missing : entries.lookup key = none := find_none origin absent
  simp [Table.put, missing]

/-- A key that is not there yet goes behind those that are, so the order is kept. -/
theorem addPairs_fields (fields : List Field) (entries : List (String × Node))
    (different : (entries.map Prod.fst ++ fields.map Field.key).Nodup) :
    addPairs .ofDottedKey ⟨.header, entries⟩ (fields.map Field.pair) =
      some ⟨.header, entries ++ fields.map fun field => (field.key, field.node)⟩ := by
  induction fields generalizing entries with
  | nil => simp [addPairs]
  | cons field others ih =>
      have absent : field.key ∉ entries.map Prod.fst := by
        intro member
        exact (List.nodup_append.mp different).2.2 _ member _ List.mem_cons_self rfl
      have added : addPair .ofDottedKey ⟨.header, entries⟩ field.pair =
          some ⟨.header, entries ++ [(field.key, field.node)]⟩ := by
        have direct : Origin.header ≠ Access.ofDottedKey.makes := by decide
        simp [addPair, update?, Field.pair, find_none _ absent, put_new field.node absent, direct]
      have later := ih (entries ++ [(field.key, field.node)]) (by simpa using different)
      rw [addPairs] at later
      rw [addPairs, List.map_cons, List.foldlM_cons, added]
      simpa using later

theorem addBlocks_sections (parts : List Section) (entries : List (String × Node))
    (fields : ∀ part ∈ parts, (part.fields.map Field.key).Nodup)
    (different : (entries.map Prod.fst ++ parts.map Section.name).Nodup) :
    (parts.map fun part => (⟨[part.name], false, part.fields.map Field.pair⟩ : Block)).foldlM
        addBlock ⟨.header, entries⟩ =
      some ⟨.header, entries ++ parts.map Section.entry⟩ := by
  induction parts generalizing entries with
  | nil => simp
  | cons part others ih =>
      have absent : part.name ∉ entries.map Prod.fst := by
        intro member
        exact (List.nodup_append.mp different).2.2 _ member _ List.mem_cons_self rfl
      have table := addPairs_fields part.fields [] (by simpa using fields part List.mem_cons_self)
      have added : addBlock ⟨.header, entries⟩ ⟨[part.name], false, part.fields.map Field.pair⟩ =
          some ⟨.header, entries ++ [part.entry]⟩ := by
        simp [addBlock, update?, openTable, find_none _ absent, table, put_new _ absent, Table.node,
          Section.entry]
      have later := ih (entries ++ [part.entry])
        (fun other member => fields other (List.mem_cons_of_mem part member))
        (by simpa [Section.entry] using different)
      rw [List.map_cons, List.foldlM_cons, added]
      simpa using later

theorem withoutMark_document (parts : List Section) :
    withoutMark (document parts) = document parts := by
  cases parts with
  | nil => rfl
  | cons part others =>
      have begins : (document (part :: others)).head? = some '[' := by
        cases others with
        | nil => simp [document, Section.text]
        | cons next others => simp [document, Section.text, List.intercalate]
      obtain ⟨rest, begun⟩ := List.head?_eq_some_iff.mp begins
      rw [begun]
      rfl

/-- A document of sections stands for the table with their fields. -/
theorem parse_document (parts : List Section) (sound : ∀ part ∈ parts, part.Sound)
    (different : (parts.map Section.name).Nodup) :
    parse (String.ofList (document parts)) = some ⟨.header, parts.map Section.entry⟩ := by
  have read := reads_document parts sound ((document parts).length + 1) (Nat.lt_succ_self _)
  have added := addBlocks_sections parts [] (fun part member => (sound part member).different)
    (by simpa using different)
  rw [parse, String.toList_ofList, withoutMark_document, read]
  simp only [Option.bind_eq_bind, Option.bind_some, blocks_sections]
  simpa [assemble, addPairs] using added

end tables

end Microbench.Toml
