import Microbench.AArch64.Instruction
import Microbench.Mips.Instruction
import Microbench.Text.Blank
/-! Statements of an assembly source: label definitions, directives and instructions, each with
one text. `split` finds the mnemonic and the operands in such a text again. -/
namespace Microbench

inductive TypeMark where
  | atSign
  | percent
deriving DecidableEq

def TypeMark.text : TypeMark → String
  | .atSign => "@"
  | .percent => "%"

inductive Directive where
  | textSection
  | align (power : Nat)
  | global (name : String)
  | entry (name : String)
  | endEntry (name : String)
  | functionType (name : String) (mark : TypeMark)
  | set (mode : String)
  | size (name : String)
deriving DecidableEq

def Directive.text : Directive → String
  | .textSection => ".text"
  | .align power => ".align " ++ toString power
  | .global name => ".globl " ++ name
  | .entry name => ".ent " ++ name
  | .endEntry name => ".end " ++ name
  | .functionType name mark => ".type " ++ name ++ ", " ++ mark.text ++ "function"
  | .set mode => ".set " ++ mode
  | .size name => ".size " ++ name ++ ", .-" ++ name

inductive Statement where
  | label (name : String)
  | directive (line : Directive)
  | mips (instruction : Mips.Instruction)
  | aarch64 (instruction : AArch64.Instruction)
  | verbatim (line : String)
deriving DecidableEq

namespace Statement

def text : Statement → String
  | .label name => name ++ ":"
  | .directive line => line.text
  | .mips instruction => instruction.text
  | .aarch64 instruction => instruction.text
  | .verbatim line => line

structure Parts where
  mnemonic : String
  operands : List String
deriving DecidableEq

/-- The first word, and what stands between the commas after it. Empty operands are
dropped, so a trailing comma or two in a row leave no trace. -/
def split (line : String) : Parts :=
  let trimmed := Text.trim line.toList
  let operands := ((Text.pieces ',' (Text.fromBlank trimmed)).map Text.trim).filter
    fun operand => !operand.isEmpty
  ⟨String.ofList (Text.untilBlank trimmed), operands.map String.ofList⟩

def startsWithOneOf (mnemonics : List String) (line : String) : Bool :=
  mnemonics.contains (String.ofList (Text.firstWord line.toList))

end Statement

end Microbench
