import Microbench.Settings.Basic
import Microbench.Toml.Document
/-! Settings as a TOML document. Reading takes every key that is missing from the defaults and
passes over keys it does not know. -/
namespace Microbench

namespace Settings

section reading

open Toml (Node)

inductive Fields where
  | named (entries : List (String × Node))
  | placed (items : List Node)

/-- A section is a table, or an array with the values in their order. A moment has no keys
that a section knows. -/
def Fields.ofNode? : Node → Option Fields
  | .table _ entries => some (.named entries)
  | .array items => some (.placed items)
  | .tables items => some (.placed items)
  | .moment => some (.named [])
  | _ => none

def Fields.find? (place : Nat) (key : String) : Fields → Option Node
  | .named entries => entries.lookup key
  | .placed items => items[place]?

def Fields.read {α : Type} (fields : Fields) (place : Nat) (key : String)
    (decode : Node → Option α) (default : α) : Option α :=
  match fields.find? place key with
  | some node => decode node
  | none => some default

def decodeText : Node → Option String
  | .text text => some text
  | _ => none

def decodeFlag : Node → Option Bool
  | .boolean value => some value
  | _ => none

def decodeBelow (bound : Nat) : Node → Option Nat
  | .integer value => if 0 ≤ value && value < bound then some value.toNat else none
  | _ => none

def decodeWord (node : Node) : Option UInt32 := (decodeBelow UInt32.size node).map UInt32.ofNat

def decodeLongWord (node : Node) : Option UInt64 := (decodeBelow UInt64.size node).map UInt64.ofNat

def decodeReg (node : Node) : Option Reg := (decodeBelow 256 node).map Reg.ofNat

def decodeRegs : Node → Option (List Reg)
  | .array items => items.mapM decodeReg
  | .tables items => items.mapM decodeReg
  | _ => none

def isHollow : Node → Bool
  | .table _ [] | .array [] | .tables [] => true
  | _ => false

/-- An architecture's name, or a table with the name as its only key and nothing beside it. -/
def decodeArchitecture : Node → Option Architecture
  | .text name => Architecture.ofName? name
  | .table _ [(name, content)] => if isHollow content then Architecture.ofName? name else none
  | _ => none

def decodeTarget (node : Node) : Option TargetSettings := do
  let fields ← Fields.ofNode? node
  return { architecture := ← fields.read 0 "arch" decodeArchitecture .mips32
           accumulators := ← fields.read 1 "accumulators" decodeRegs [] }

def decodeCycle (node : Node) : Option CycleSettings := do
  let fields ← Fields.ofNode? node
  let default : CycleSettings := {}
  return { exponent := ← fields.read 0 "exponent" decodeWord default.exponent
           symbolStart := ← fields.read 1 "symbol_prefix" decodeText default.symbolStart
           fileStart := ← fields.read 2 "file_prefix" decodeText default.fileStart
           extension := ← fields.read 3 "extension" decodeText default.extension
           header := ← fields.read 4 "header" decodeFlag default.header
           headerFile := ← fields.read 5 "header_file" decodeText default.headerFile }

def decodeMultiply (node : Node) : Option MultiplySettings := do
  let fields ← Fields.ofNode? node
  let default : MultiplySettings := {}
  return { maxWidth := ← fields.read 0 "max_width" decodeLongWord default.maxWidth
           unroll := ← fields.read 1 "unroll" decodeWord default.unroll
           symbolStart := ← fields.read 2 "symbol_prefix" decodeText default.symbolStart
           asmFile := ← fields.read 3 "asm_file" decodeText default.asmFile
           headerFile := ← fields.read 4 "header_file" decodeText default.headerFile }

def decodeOutput (node : Node) : Option OutputSettings := do
  let fields ← Fields.ofNode? node
  return { directory := ← fields.read 0 "dir" decodeText { : OutputSettings }.directory }

def ofTable (table : Toml.Table) : Option Settings := do
  let fields := Fields.named table.entries
  return { target := ← fields.read 0 "target" decodeTarget {}
           cycle := ← fields.read 1 "cycle" decodeCycle {}
           multiply := ← fields.read 2 "ilp" decodeMultiply {}
           output := ← fields.read 3 "output" decodeOutput {} }

def parse (text : String) : Option Settings := do ofTable (← Toml.parse text)

end reading

section writing

def writeText (text : String) : String := String.ofList (Toml.Quoted.write text.toList)

def writeFlag (flag : Bool) : String := if flag then "true" else "false"

/-- Two and more registers stand on a line each. -/
def writeRegs : List Reg → String
  | [] => "[]"
  | [reg] => "[" ++ reg.digits ++ "]"
  | regs => "[\n" ++ String.join (regs.map fun reg => "    " ++ reg.digits ++ ",\n") ++ "]"

def writePair (key value : String) : String := key ++ " = " ++ value ++ "\n"

def writeSection (name : String) (pairs : List (String × String)) : String :=
  "[" ++ name ++ "]\n" ++ String.join (pairs.map fun (key, value) => writePair key value)

def write (settings : Settings) : String :=
  let { target, cycle, multiply, output } := settings
  "\n".intercalate
    [writeSection "target"
      [("arch", writeText target.architecture.name),
        ("accumulators", writeRegs target.accumulators)],
    writeSection "cycle"
      [("exponent", toString cycle.exponent.toNat),
        ("symbol_prefix", writeText cycle.symbolStart),
        ("file_prefix", writeText cycle.fileStart),
        ("extension", writeText cycle.extension),
        ("header", writeFlag cycle.header),
        ("header_file", writeText cycle.headerFile)],
    writeSection "ilp"
      [("max_width", toString multiply.maxWidth.toNat),
        ("unroll", toString multiply.unroll.toNat),
        ("symbol_prefix", writeText multiply.symbolStart),
        ("asm_file", writeText multiply.asmFile),
        ("header_file", writeText multiply.headerFile)],
    writeSection "output" [("dir", writeText output.directory)]]

inductive WriteFault where
  /-- A document holds signed words only. -/
  | widthTooLarge
  /-- A text has too many quotes of one kind in a row. Writing it is no error but a panic, and this
  case stands for the panic. -/
  | tooManyQuotes
deriving DecidableEq

def texts (settings : Settings) : List String :=
  let { cycle, multiply, output, .. } := settings
  [cycle.symbolStart, cycle.fileStart, cycle.extension, cycle.headerFile,
    multiply.symbolStart, multiply.asmFile, multiply.headerFile, output.directory]

/-- What keeps settings from having a document. Numbers are looked at before texts. -/
def writeFault? (settings : Settings) : Option WriteFault :=
  if 0x8000000000000000 ≤ settings.multiply.maxWidth.toNat then some .widthTooLarge
  else if settings.texts.all fun text => Toml.Quoted.isWritable text.toList then none
  else some .tooManyQuotes

def write? (settings : Settings) : Except WriteFault String :=
  match settings.writeFault? with
  | some fault => .error fault
  | none => .ok settings.write

end writing

end Settings

end Microbench
