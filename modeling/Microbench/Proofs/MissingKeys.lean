import Microbench.Proofs.SettingsKeys
/-!
Keys that a document leaves out have their defaults.

What a document gives is told of the table that it stands for, however it is written, and whatever
else it holds. Documents that give certain keys and no others are written here section by section,
with unknown keys and unknown sections among them and with sections left out that would be empty.
-/
namespace Microbench.Settings
open Toml (Field Section Node)

section keys

def Key.all : List Key :=
  [.architecture, .accumulators, .exponent, .cycleSymbolStart, .fileStart, .extension, .header,
    .cycleHeaderFile, .maxWidth, .unroll, .multiplySymbolStart, .asmFile, .multiplyHeaderFile,
    .directory]

def partNames : List String := ["target", "cycle", "ilp", "output"]

theorem Key.mem_all (key : Key) : key ∈ Key.all := by
  cases key <;> decide

theorem Key.part_mem (key : Key) : key.part ∈ partNames := by
  cases key <;> decide

theorem Key.bare_name (key : Key) : Toml.Bare key.name := by
  cases key <;> decide

/-- A key is told by its section and its name. -/
theorem Key.told {first second : Key} (part : first.part = second.part)
    (name : first.name = second.name) : first = second := by
  have all : ∀ first ∈ Key.all, ∀ second ∈ Key.all,
      first.part = second.part → first.name = second.name → first = second := by decide
  exact all first first.mem_all second second.mem_all part name

end keys

section fields

def fieldFor (key : String) : Value → Field
  | .architecture architecture => textField key architecture.name
  | .regs regs => regsField key regs
  | .number number => numberField key number
  | .text text => textField key text
  | .flag flag => flagField key flag

theorem fieldFor_key (key : String) (value : Value) : (fieldFor key value).key = key := by
  cases value <;> rfl

theorem fieldFor_spelt (key : String) (value : Value) : value.SpeltAs (fieldFor key value).node := by
  cases value with
  | architecture architecture => exact .architecture (decodeArchitecture_written architecture)
  | regs regs => exact .regs regs
  | number number => exact .number number
  | text text => exact .text text
  | flag flag => exact .flag flag

theorem readable_fieldFor {key : String} (bare : Toml.Bare key) {value : Value}
    (small : ∀ number, value = .number number → number < 0x8000000000000000) :
    Readable (fieldFor key value) := by
  cases value with
  | architecture architecture => exact readable_text bare _
  | regs regs => exact readable_regs bare regs
  | number number => exact readable_number bare number (small number rfl)
  | text text => exact readable_text bare text
  | flag flag => exact readable_flag bare flag

def Fits (settings : Settings) (keys : Finset Key) : Prop :=
  .maxWidth ∈ keys → settings.multiply.maxWidth.toNat < 0x8000000000000000

theorem number_small {settings : Settings} {keys : Finset Key} (fits : settings.Fits keys)
    {key : Key} (given : key ∈ keys) (number : Nat) (same : settings.value key = .number number) :
    number < 0x8000000000000000 := by
  cases key <;> cases same
  case exponent => exact word_small _
  case maxWidth => exact fits given
  case unroll => exact word_small _

end fields

section documents

/-- What a document may hold beside the keys of settings: more fields in each section, and more
sections. -/
structure Unknown where
  fields : String → List Field := fun _ => []
  sections : List Section := []
  readable : ∀ part, ∀ field ∈ fields part, Readable field := by simp
  different : ∀ part, ((fields part).map Field.key).Nodup := by simp
  unlike : ∀ key : Key, ∀ field ∈ fields key.part, field.key ≠ key.name := by simp
  sound : ∀ part ∈ sections, part.Sound := by simp
  apart : (sections.map Section.name).Nodup := by simp
  elsewhere : ∀ part ∈ sections, part.name ∉ partNames := by simp

variable (settings : Settings) (keys : Finset Key) (unknown : Unknown) (leftOut : List String)

def known (part : String) : List Field :=
  (Key.all.filter fun key => key.part = part ∧ key ∈ keys).map fun key =>
    fieldFor key.name (settings.value key)

def draftPart (part : String) : Section :=
  ⟨part, settings.known keys part ++ unknown.fields part⟩

def draft : List Section :=
  (partNames.filter (· ∉ leftOut)).map (settings.draftPart keys unknown) ++ unknown.sections

variable {settings keys unknown leftOut}

theorem mem_known {part : String} {field : Field} : field ∈ settings.known keys part ↔
    ∃ key ∈ keys, key.part = part ∧ fieldFor key.name (settings.value key) = field := by
  simp only [known, List.mem_map, List.mem_filter, decide_eq_true_eq]
  constructor
  · rintro ⟨key, ⟨_, inside, given⟩, made⟩
    exact ⟨key, given, inside, made⟩
  · rintro ⟨key, given, inside, made⟩
    exact ⟨key, ⟨key.mem_all, inside, given⟩, made⟩

theorem known_different (part : String) : ((settings.known keys part).map Field.key).Nodup := by
  have listed : Key.all.Nodup := by decide
  have chosen := listed.filter fun key => decide (key.part = part ∧ key ∈ keys)
  rw [known, List.map_map]
  apply List.Nodup.map_on _ chosen
  intro first member second member' same
  simp only [List.mem_filter, decide_eq_true_eq] at member member'
  simp only [Function.comp_apply, fieldFor_key] at same
  exact Key.told (member.2.1.trans member'.2.1.symm) same

theorem draftPart_different (part : String) :
    ((settings.draftPart keys unknown part).fields.map Field.key).Nodup := by
  rw [draftPart, List.map_append]
  apply (known_different part).append (unknown.different part)
  intro name ours theirs
  obtain ⟨field, member, rfl⟩ := List.mem_map.mp ours
  obtain ⟨other, member', same⟩ := List.mem_map.mp theirs
  obtain ⟨key, _, rfl, rfl⟩ := mem_known.mp member
  rw [fieldFor_key] at same
  exact unknown.unlike key other member' same

theorem draftPart_sound (fits : settings.Fits keys) {part : String} (inside : part ∈ partNames) :
    (settings.draftPart keys unknown part).Sound := by
  have named : Toml.Bare part := by
    have all : ∀ part ∈ partNames, Toml.Bare part := by decide
    exact all part inside
  apply sound_of_readable named _ (draftPart_different part)
  intro field member
  rcases List.mem_append.mp member with ours | theirs
  · obtain ⟨key, given, _, rfl⟩ := mem_known.mp ours
    exact readable_fieldFor key.bare_name (number_small fits given)
  · exact unknown.readable part field theirs

theorem draft_sound (fits : settings.Fits keys) :
    ∀ part ∈ settings.draft keys unknown leftOut, part.Sound := by
  intro part member
  rcases List.mem_append.mp member with ours | theirs
  · obtain ⟨name, listed, rfl⟩ := List.mem_map.mp ours
    exact draftPart_sound fits (List.mem_filter.mp listed).1
  · exact unknown.sound part theirs

theorem draft_names : (settings.draft keys unknown leftOut).map Section.name =
    partNames.filter (· ∉ leftOut) ++ unknown.sections.map Section.name := by
  simp [draft, draftPart, Function.comp_def]

theorem draft_different : ((settings.draft keys unknown leftOut).map Section.name).Nodup := by
  have listed : partNames.Nodup := by decide
  rw [draft_names]
  apply (listed.filter _).append unknown.apart
  intro name ours theirs
  obtain ⟨part, member, rfl⟩ := List.mem_map.mp theirs
  exact unknown.elsewhere part member (List.mem_filter.mp ours).1

end documents

section tables
open Toml (Table)

variable (settings : Settings) (keys : Finset Key) (unknown : Unknown) (leftOut : List String)

def draftTable : Table := ⟨.header, (settings.draft keys unknown leftOut).map Section.entry⟩

variable {settings keys unknown leftOut}

theorem entries_names (parts : List Section) :
    (parts.map Section.entry).map Prod.fst = parts.map Section.name := by
  rw [List.map_map]
  rfl

theorem find_draft {part : String} (inside : part ∈ partNames) (stays : part ∉ leftOut) :
    (settings.draftTable keys unknown leftOut).find? part =
      some (settings.draftPart keys unknown part).entry.2 := by
  apply Toml.find_of_mem .header
  · rw [entries_names]
    exact draft_different
  · have listed : part ∈ partNames.filter (· ∉ leftOut) :=
      List.mem_filter.mpr ⟨inside, decide_eq_true stays⟩
    exact List.mem_map_of_mem (List.mem_append_left _ (List.mem_map_of_mem listed))

theorem find_leftOut {part : String} (inside : part ∈ partNames) (gone : part ∈ leftOut) :
    (settings.draftTable keys unknown leftOut).find? part = none := by
  apply Toml.find_none .header
  intro member
  rw [entries_names, draft_names] at member
  rcases List.mem_append.mp member with ours | theirs
  · exact of_decide_eq_true (List.mem_filter.mp ours).2 gone
  · obtain ⟨other, listed, rfl⟩ := List.mem_map.mp theirs
    exact unknown.elsewhere other listed inside

theorem fieldsOf_draft {part : String} (inside : part ∈ partNames) (stays : part ∉ leftOut) :
    fieldsOf (settings.draftTable keys unknown leftOut) part =
      (settings.draftPart keys unknown part).fields.map fun field => (field.key, field.node) := by
  rw [fieldsOf, find_draft inside stays]
  rfl

theorem fieldsOf_leftOut {part : String} (inside : part ∈ partNames) (gone : part ∈ leftOut) :
    fieldsOf (settings.draftTable keys unknown leftOut) part = [] := by
  rw [fieldsOf, find_leftOut inside gone]

theorem draft_gives (stay : ∀ key ∈ keys, key.part ∉ leftOut) :
    Gives (settings.draftTable keys unknown leftOut) keys settings := by
  constructor
  case tables =>
    intro key node found
    by_cases gone : key.part ∈ leftOut
    · rw [find_leftOut key.part_mem gone] at found
      cases found
    · rw [find_draft key.part_mem gone] at found
      cases found
      exact ⟨_, _, rfl⟩
  case given =>
    intro key given
    rw [fieldsOf_draft key.part_mem (stay key given)]
    refine ⟨_, ?_, fieldFor_spelt key.name (settings.value key)⟩
    apply Toml.find_of_mem .header
    · rw [List.map_map]
      exact draftPart_different key.part
    · have ours : fieldFor key.name (settings.value key) ∈ settings.known keys key.part :=
        mem_known.mpr ⟨key, given, rfl, rfl⟩
      have entry := List.mem_map_of_mem (f := fun field => (field.key, field.node))
        (List.mem_append_left (unknown.fields key.part) ours)
      rwa [fieldFor_key] at entry
  case missing =>
    intro key absent
    by_cases gone : key.part ∈ leftOut
    · rw [fieldsOf_leftOut key.part_mem gone]
      rfl
    · rw [fieldsOf_draft key.part_mem gone]
      apply Toml.find_none .header
      rw [List.map_map]
      intro member
      obtain ⟨field, listed, same⟩ := List.mem_map.mp member
      rcases List.mem_append.mp listed with ours | theirs
      · obtain ⟨other, given, inside, rfl⟩ := mem_known.mp ours
        rw [Function.comp_apply, fieldFor_key] at same
        exact absent (Key.told inside same ▸ given)
      · exact unknown.unlike key field theirs same

end tables

section loading

structure LoadsAs (text : String) (settings : Settings) : Prop where
  parsed : parse text = some settings
  loaded : ∀ (disk : Disk) (path : String), disk.read path = .ok text.toUTF8 →
    load disk path = .ok settings

theorem loads_given {text : String} {table : Toml.Table} {keys : Finset Key} {settings : Settings}
    (stands : Toml.parse text = some table) (gives : Gives table keys settings) :
    LoadsAs text (settings.restrict keys) := by
  have parsed : parse text = some (settings.restrict keys) := by
    rw [parse, stands, given_bind]
    exact ofTable_given gives
  constructor
  · exact parsed
  · intro disk path read
    rw [load_of_read read]
    exact decode_text parsed

/-- A document that gives some of the keys is loaded as the settings that have the defaults under
all others. They are the same however the document is written, whatever unknown keys it has, and
whether a section without a key is empty or left out. -/
theorem missing_keys_default (settings : Settings) (keys : Finset Key) :
    ∃ loaded : Settings,
      (∀ key, loaded.value key =
        if key ∈ keys then settings.value key else ({} : Settings).value key) ∧
      (∀ text table, Toml.parse text = some table → Gives table keys settings →
        LoadsAs text loaded) ∧
      (settings.Fits keys → ∀ (unknown : Unknown) (leftOut : List String),
        (∀ key ∈ keys, key.part ∉ leftOut) →
        LoadsAs (String.ofList (Toml.document (settings.draft keys unknown leftOut))) loaded) := by
  refine ⟨settings.restrict keys, value_restrict settings keys, ?_, ?_⟩
  · intro text table stands gives
    exact loads_given stands gives
  · intro fits unknown leftOut stay
    have stands := Toml.parse_document (settings.draft keys unknown leftOut) (draft_sound fits)
      draft_different
    exact loads_given stands (draft_gives stay)

def oddUnknown : Unknown where
  fields part := if part = "cycle" then [textField "exponents" "x"] else []
  sections := [⟨"strange", []⟩]
  readable part field member := by
    by_cases inside : part = "cycle"
    · rw [if_pos inside, List.mem_singleton] at member
      subst member
      exact readable_text (by decide) _
    · rw [if_neg inside] at member
      cases member
  different part := by
    by_cases inside : part = "cycle" <;> simp [inside]
  unlike key field member := by
    cases key <;> simp_all [Key.part, Key.name, textField]
  sound := by
    have empty : (Section.mk "strange" []).Sound :=
      sound_of_readable (by decide) (by simp) List.nodup_nil
    simpa using empty
  elsewhere := by decide

def bracesTable : Toml.Table :=
  ⟨.header, [("cycle", .table .braces [("exponent", .integer 8)])]⟩

theorem braces_gives : Gives bracesTable {.exponent} { cycle := { exponent := 8 } } := by
  constructor
  case tables =>
    intro key node found
    cases key <;> cases found <;> exact ⟨_, _, rfl⟩
  case given =>
    intro key given
    cases Finset.mem_singleton.mp given
    exact ⟨_, rfl, .number 8⟩
  case missing =>
    intro key absent
    cases key
    case exponent => exact absurd (Finset.mem_singleton_self _) absent
    all_goals rfl

theorem missing_keys_default_odd :
    LoadsAs "[cycle]\nexponent = 8\nexponents = \"x\"\n\n[output]\n\n[strange]\n"
      { cycle := { exponent := 8 } } ∧
    LoadsAs "cycle = \x7b'exponent' = 0b1000\x7d" { cycle := { exponent := 8 } } := by
  obtain ⟨loaded, values, tables, drafts⟩ :=
    missing_keys_default { cycle := { exponent := 8 } } {.exponent}
  have same : loaded = { cycle := { exponent := 8 } } := by
    apply value_ext
    intro key
    rw [values key]
    cases key <;> rfl
  subst same
  have sections := drafts (fun _ => by decide) oddUnknown ["target", "ilp"] (by decide)
  have text : String.ofList (Toml.document (draft { cycle := { exponent := 8 } } {.exponent}
      oddUnknown ["target", "ilp"])) =
      "[cycle]\nexponent = 8\nexponents = \"x\"\n\n[output]\n\n[strange]\n" := by decide
  rw [text] at sections
  exact ⟨sections, tables _ bracesTable rfl braces_gives⟩

end loading

end Microbench.Settings
