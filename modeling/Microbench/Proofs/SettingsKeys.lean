import Mathlib.Data.Finset.Basic
import Microbench.Proofs.SavedSettings
/-!
Settings, key by key.

There are fourteen keys in four sections. A document gives some of them and has whatever else it
likes. Each key is looked up by itself and a missing one takes its default, and a section that is
missing altogether is read as one that has nothing in it.
-/
namespace Microbench.Settings
open Toml (Node)

inductive Key where
  | architecture
  | accumulators
  | exponent
  | cycleSymbolStart
  | fileStart
  | extension
  | header
  | cycleHeaderFile
  | maxWidth
  | unroll
  | multiplySymbolStart
  | asmFile
  | multiplyHeaderFile
  | directory
deriving DecidableEq

namespace Key

def part : Key → String
  | architecture | accumulators => "target"
  | exponent | cycleSymbolStart | fileStart | extension | header | cycleHeaderFile => "cycle"
  | maxWidth | unroll | multiplySymbolStart | asmFile | multiplyHeaderFile => "ilp"
  | directory => "output"

def name : Key → String
  | architecture => "arch"
  | accumulators => "accumulators"
  | exponent => "exponent"
  | cycleSymbolStart | multiplySymbolStart => "symbol_prefix"
  | fileStart => "file_prefix"
  | extension => "extension"
  | header => "header"
  | cycleHeaderFile | multiplyHeaderFile => "header_file"
  | maxWidth => "max_width"
  | unroll => "unroll"
  | asmFile => "asm_file"
  | directory => "dir"

end Key

inductive Value where
  | architecture (architecture : Architecture)
  | regs (regs : List Reg)
  | number (number : Nat)
  | text (text : String)
  | flag (flag : Bool)
deriving DecidableEq

def value (settings : Settings) : Key → Value
  | .architecture => .architecture settings.target.architecture
  | .accumulators => .regs settings.target.accumulators
  | .exponent => .number settings.cycle.exponent.toNat
  | .cycleSymbolStart => .text settings.cycle.symbolStart
  | .fileStart => .text settings.cycle.fileStart
  | .extension => .text settings.cycle.extension
  | .header => .flag settings.cycle.header
  | .cycleHeaderFile => .text settings.cycle.headerFile
  | .maxWidth => .number settings.multiply.maxWidth.toNat
  | .unroll => .number settings.multiply.unroll.toNat
  | .multiplySymbolStart => .text settings.multiply.symbolStart
  | .asmFile => .text settings.multiply.asmFile
  | .multiplyHeaderFile => .text settings.multiply.headerFile
  | .directory => .text settings.output.directory

inductive Value.SpeltAs : Value → Node → Prop where
  | architecture {name : String} {architecture : Architecture}
      (known : Architecture.ofName? name = some architecture) :
      SpeltAs (.architecture architecture) (.text name)
  | regs (regs : List Reg) : SpeltAs (.regs regs) (.array (regs.map fun reg => .integer reg.number.val))
  | number (number : Nat) : SpeltAs (.number number) (.integer number)
  | text (text : String) : SpeltAs (.text text) (.text text)
  | flag (flag : Bool) : SpeltAs (.flag flag) (.boolean flag)

def fieldsOf (table : Toml.Table) (part : String) : List (String × Node) :=
  match table.find? part with
  | some (.table _ entries) => entries
  | _ => []

/-- A document gives certain keys the values that they have in settings, and no others of the
fourteen. A section that it has is a table. -/
structure Gives (table : Toml.Table) (keys : Finset Key) (settings : Settings) : Prop where
  tables : ∀ key : Key, ∀ node, table.find? key.part = some node →
    ∃ origin entries, node = .table origin entries
  given : ∀ key ∈ keys, ∃ node, (fieldsOf table key.part).lookup key.name = some node ∧
    (settings.value key).SpeltAs node
  missing : ∀ key ∉ keys, (fieldsOf table key.part).lookup key.name = none

section choosing

def choose {α : Type} (keys : Finset Key) (key : Key) (given default : α) : α :=
  if key ∈ keys then given else default

/-- Settings that agree with given ones on certain keys and with the defaults on all others. -/
def restrict (settings : Settings) (keys : Finset Key) : Settings :=
  let { target, cycle, multiply, output } := settings
  let default : Settings := {}
  { target :=
      { architecture := choose keys .architecture target.architecture default.target.architecture
        accumulators := choose keys .accumulators target.accumulators default.target.accumulators }
    cycle :=
      { exponent := choose keys .exponent cycle.exponent default.cycle.exponent
        symbolStart := choose keys .cycleSymbolStart cycle.symbolStart default.cycle.symbolStart
        fileStart := choose keys .fileStart cycle.fileStart default.cycle.fileStart
        extension := choose keys .extension cycle.extension default.cycle.extension
        header := choose keys .header cycle.header default.cycle.header
        headerFile := choose keys .cycleHeaderFile cycle.headerFile default.cycle.headerFile }
    multiply :=
      { maxWidth := choose keys .maxWidth multiply.maxWidth default.multiply.maxWidth
        unroll := choose keys .unroll multiply.unroll default.multiply.unroll
        symbolStart :=
          choose keys .multiplySymbolStart multiply.symbolStart default.multiply.symbolStart
        asmFile := choose keys .asmFile multiply.asmFile default.multiply.asmFile
        headerFile :=
          choose keys .multiplyHeaderFile multiply.headerFile default.multiply.headerFile }
    output :=
      { directory := choose keys .directory output.directory default.output.directory } }

theorem value_restrict (settings : Settings) (keys : Finset Key) (key : Key) :
    (settings.restrict keys).value key =
    if key ∈ keys then settings.value key else ({} : Settings).value key := by
  by_cases given : key ∈ keys
  · rw [if_pos given]
    cases key <;> simp only [restrict, value, choose, if_pos given]
  · rw [if_neg given]
    cases key <;> simp only [restrict, value, choose, if_neg given]

/-- Settings are the values under the fourteen keys. -/
theorem value_ext {first second : Settings} (same : ∀ key, first.value key = second.value key) :
    first = second := by
  obtain ⟨⟨_, _⟩, ⟨_, _, _, _, _, _⟩, ⟨_, _, _, _, _⟩, ⟨_⟩⟩ := first
  obtain ⟨⟨_, _⟩, ⟨_, _, _, _, _, _⟩, ⟨_, _, _, _, _⟩, ⟨_⟩⟩ := second
  cases same .architecture
  cases same .accumulators
  cases same .cycleSymbolStart
  cases same .fileStart
  cases same .extension
  cases same .header
  cases same .cycleHeaderFile
  cases same .multiplySymbolStart
  cases same .asmFile
  cases same .multiplyHeaderFile
  cases same .directory
  have exponent := UInt32.toNat_inj.mp (Value.number.inj (same .exponent))
  have unroll := UInt32.toNat_inj.mp (Value.number.inj (same .unroll))
  have maxWidth := UInt64.toNat_inj.mp (Value.number.inj (same .maxWidth))
  simp_all

end choosing

section reading

theorem decodeArchitecture_spelt {architecture : Architecture} {node : Node}
    (spelt : (Value.architecture architecture).SpeltAs node) :
    decodeArchitecture node = some architecture := by
  cases spelt with
  | architecture known => exact known

theorem decodeRegs_spelt {regs : List Reg} {node : Node} (spelt : (Value.regs regs).SpeltAs node) :
    decodeRegs node = some regs := by
  cases spelt with
  | regs => exact decodeRegs_written regs

theorem decodeWord_spelt {word : UInt32} {node : Node} (spelt : (Value.number word.toNat).SpeltAs node) :
    decodeWord node = some word := by
  cases spelt with
  | number => exact decodeWord_written word

theorem decodeLongWord_spelt {word : UInt64} {node : Node}
    (spelt : (Value.number word.toNat).SpeltAs node) : decodeLongWord node = some word := by
  cases spelt with
  | number => exact decodeLongWord_written word

theorem decodeText_spelt {text : String} {node : Node} (spelt : (Value.text text).SpeltAs node) :
    decodeText node = some text := by
  cases spelt with
  | text => rfl

theorem decodeFlag_spelt {flag : Bool} {node : Node} (spelt : (Value.flag flag).SpeltAs node) :
    decodeFlag node = some flag := by
  cases spelt with
  | flag => rfl

variable {table : Toml.Table} {keys : Finset Key} {settings : Settings}
  (gives : Gives table keys settings)

include gives

/-- One field of a section, whether the document gives it or not. -/
theorem read_field {α : Type} (key : Key) (place : Nat) {decode : Node → Option α}
    {wanted : α} (default : α)
    (decodes : ∀ node, (settings.value key).SpeltAs node → decode node = some wanted) :
    (Fields.named (fieldsOf table key.part)).read place key.name decode default =
      some (choose keys key wanted default) := by
  rw [Fields.read, Fields.find?, choose]
  by_cases given : key ∈ keys
  · obtain ⟨node, found, spelt⟩ := gives.given key given
    rw [found, if_pos given]
    exact decodes node spelt
  · rw [gives.missing key given, if_neg given]

/-- A section that is missing is read as an empty one. -/
theorem read_section {α : Type} (key : Key) (place : Nat) {decode : Node → Option α} {default wanted : α}
    (empty : decode (.table .header []) = some default)
    (decodes : ∀ origin, decode (.table origin (fieldsOf table key.part)) = some wanted) :
    (Fields.named table.entries).read place key.part decode default = some wanted := by
  rw [Fields.read, Fields.find?]
  cases found : table.find? key.part with
  | none =>
      have absent : table.entries.lookup key.part = none := found
      have nothing : fieldsOf table key.part = [] := by rw [fieldsOf, found]
      have same := decodes .header
      rw [nothing, empty] at same
      rw [absent, same]
  | some node =>
      obtain ⟨origin, entries, rfl⟩ := gives.tables key node found
      have present : table.entries.lookup key.part = some (.table origin entries) := found
      have fields : fieldsOf table key.part = entries := by rw [fieldsOf, found]
      rw [present, ← fields]
      exact decodes origin

theorem decodeTarget_given (origin : Toml.Origin) : decodeTarget (.table origin
    (fieldsOf table "target")) = some (settings.restrict keys).target := by
  have architecture := read_field gives .architecture 0 .mips32 fun _ => decodeArchitecture_spelt
  have accumulators := read_field gives .accumulators 1 [] fun _ => decodeRegs_spelt
  simp only [Key.part, Key.name] at architecture accumulators
  simp only [decodeTarget, Fields.ofNode?, given_bind, architecture, accumulators]
  rfl

theorem decodeCycle_given (origin : Toml.Origin) : decodeCycle (.table origin
    (fieldsOf table "cycle")) = some (settings.restrict keys).cycle := by
  let default : CycleSettings := {}
  have exponent := read_field gives .exponent 0 default.exponent fun _ => decodeWord_spelt
  have symbolStart :=
    read_field gives .cycleSymbolStart 1 default.symbolStart fun _ => decodeText_spelt
  have fileStart := read_field gives .fileStart 2 default.fileStart fun _ => decodeText_spelt
  have extension := read_field gives .extension 3 default.extension fun _ => decodeText_spelt
  have header := read_field gives .header 4 default.header fun _ => decodeFlag_spelt
  have headerFile :=
    read_field gives .cycleHeaderFile 5 default.headerFile fun _ => decodeText_spelt
  simp only [Key.part, Key.name, default] at exponent symbolStart fileStart extension header headerFile
  simp only [decodeCycle, Fields.ofNode?, given_bind, exponent, symbolStart, fileStart, extension,
    header, headerFile]
  rfl

theorem decodeMultiply_given (origin : Toml.Origin) : decodeMultiply (.table origin
    (fieldsOf table "ilp")) = some (settings.restrict keys).multiply := by
  let default : MultiplySettings := {}
  have maxWidth := read_field gives .maxWidth 0 default.maxWidth fun _ => decodeLongWord_spelt
  have unroll := read_field gives .unroll 1 default.unroll fun _ => decodeWord_spelt
  have symbolStart :=
    read_field gives .multiplySymbolStart 2 default.symbolStart fun _ => decodeText_spelt
  have asmFile := read_field gives .asmFile 3 default.asmFile fun _ => decodeText_spelt
  have headerFile :=
    read_field gives .multiplyHeaderFile 4 default.headerFile fun _ => decodeText_spelt
  simp only [Key.part, Key.name, default] at maxWidth unroll symbolStart asmFile headerFile
  simp only [decodeMultiply, Fields.ofNode?, given_bind, maxWidth, unroll, symbolStart, asmFile,
    headerFile]
  rfl

theorem decodeOutput_given (origin : Toml.Origin) : decodeOutput (.table origin
    (fieldsOf table "output")) = some (settings.restrict keys).output := by
  let default : OutputSettings := {}
  have directory := read_field gives .directory 0 default.directory fun _ => decodeText_spelt
  simp only [Key.part, Key.name, default] at directory
  simp only [decodeOutput, Fields.ofNode?, given_bind, directory]
  rfl

/-- A table that gives some keys is read as settings with the defaults under all others. -/
theorem ofTable_given : ofTable table = some (settings.restrict keys) := by
  have target := read_section gives .architecture 0
    (show decodeTarget (.table .header []) = some {} from rfl) (decodeTarget_given gives)
  have cycle := read_section gives .exponent 1
    (show decodeCycle (.table .header []) = some {} from rfl) (decodeCycle_given gives)
  have multiply := read_section gives .maxWidth 2
    (show decodeMultiply (.table .header []) = some {} from rfl) (decodeMultiply_given gives)
  have output := read_section gives .directory 3
    (show decodeOutput (.table .header []) = some {} from rfl) (decodeOutput_given gives)
  simp only [Key.part] at target cycle multiply output
  simp only [ofTable, given_bind, target, cycle, multiply, output]
  rfl

end reading

end Microbench.Settings
