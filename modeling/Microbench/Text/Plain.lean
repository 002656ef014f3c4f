/-! Text for a reader that is no terminal: control sequences are left out, and so is every
control character that is not white space. White space inside a sequence is shown and
suspends it up to the next character that is not shown. -/
namespace Microbench.Text

def isLayout (c : Char) : Bool :=
  c.toNat == 0x09 || c.toNat == 0x0A || c.toNat == 0x0C || c.toNat == 0x0D

def isShown (c : Char) : Bool :=
  isLayout c || (0x20 ≤ c.toNat && c.toNat ≤ 0x7E) || 0x80 ≤ c.toNat

/-- Whether the string terminator is among the bytes of a character. A control string is read
byte by byte and ends there. -/
def holdsTerminator (c : Char) : Bool := (String.utf8EncodeChar c).contains 0x9C

inductive Mode where
  | text
  | escape
  | escapeTail
  | control
  | device
  | deviceParameters
  | deviceTail
  | string
  | command
deriving DecidableEq

namespace Mode

/-- Where the character behind this one stands. Cancel and substitute end every sequence, and
an escape character begins a new one. -/
def after (mode : Mode) (c : Char) : Mode :=
  if c.toNat == 0x18 || c.toNat == 0x1A then .text
  else if c.toNat == 0x1B then .escape
  else match mode with
  | .text => .text
  | .escape =>
    if ' ' ≤ c && c ≤ '/' then .escapeTail
    else if c == '[' then .control
    else if c == ']' then .command
    else if c == 'P' then .device
    else if c == 'X' || c == '^' || c == '_' then .string
    else if '0' ≤ c && c ≤ '~' then .text
    else .escape
  | .escapeTail => if '0' ≤ c && c ≤ '~' then .text else .escapeTail
  | .control => if '@' ≤ c && c ≤ '~' then .text else .control
  | .device =>
    if ' ' ≤ c && c ≤ '/' then .deviceTail
    else if '0' ≤ c && c ≤ '?' then .deviceParameters
    else if '@' ≤ c && c ≤ '~' then .string
    else .device
  | .deviceParameters =>
    if ' ' ≤ c && c ≤ '/' then .deviceTail
    else if '<' ≤ c && c ≤ '~' then .string
    else .deviceParameters
  | .deviceTail => if '0' ≤ c && c ≤ '~' then .string else .deviceTail
  | .string => if holdsTerminator c then .text else .string
  | .command => if c.toNat == 0x07 then .text else .command

/-- Whether a shown character is shown here. A sequence lets white space through, the strings
that some sequences carry do not. -/
def shows (mode : Mode) (c : Char) : Bool :=
  match mode with
  | .text => true
  | .escape | .escapeTail | .control => isLayout c
  | _ => false

end Mode

/-- Leaves out what is not for a plain reader. The flag says that the sequence is suspended,
which a character beyond ASCII turns into its end. -/
def plainFrom : Mode → Bool → List Char → List Char
  | _, _, [] => []
  | mode, suspended, c :: rest =>
    if isShown c && (suspended || mode.shows c) then
      c :: plainFrom (if c.toNat < 0x80 then mode else .text) true rest
    else plainFrom (mode.after c) false rest

def plain (text : List Char) : List Char := plainFrom .text false text

end Microbench.Text
