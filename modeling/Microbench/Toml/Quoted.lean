import Microbench.Toml.Gap
/-! The four written forms of a TOML string, read and written. `Quoted.write` takes the
plainest form that a text fits, and escapes only when nothing else will do. -/
namespace Microbench.Toml.Quoted

section reading

def hexDigit? (c : Char) : Option Nat :=
  if '0' ≤ c && c ≤ '9' then some (c.toNat - '0'.toNat)
  else if 'a' ≤ c && c ≤ 'f' then some (c.toNat - 'a'.toNat + 10)
  else if 'A' ≤ c && c ≤ 'F' then some (c.toNat - 'A'.toNat + 10)
  else none

def codePoint? (digits : List Char) : Option Char := do
  let code ← digits.foldlM (fun code c => (hexDigit? c).map (code * 16 + ·)) 0
  if code.isValidChar then some (Char.ofNat code) else none

def escaped? : Char → Option Char
  | 'b' => some '\x08'
  | 't' => some '\t'
  | 'n' => some '\n'
  | 'f' => some '\x0c'
  | 'r' => some '\r'
  | '"' => some '"'
  | '\\' => some '\\'
  | _ => none

def before (c : Char) (read : Option (List Char × List Char)) : Option (List Char × List Char) :=
  read.map fun (text, rest) => (c :: text, rest)

def basic : Reader (List Char)
  | '"' :: rest => some ([], rest)
  | '\\' :: 'u' :: a :: b :: c :: d :: rest => do before (← codePoint? [a, b, c, d]) (basic rest)
  | '\\' :: 'U' :: a :: b :: c :: d :: e :: f :: g :: h :: rest => do
    before (← codePoint? [a, b, c, d, e, f, g, h]) (basic rest)
  | '\\' :: letter :: rest => do before (← escaped? letter) (basic rest)
  | c :: rest => if isPlain c then before c (basic rest) else none
  | [] => none

def literal : Reader (List Char)
  | '\'' :: rest => some ([], rest)
  | c :: rest => if isPlain c then before c (literal rest) else none
  | [] => none

/-- The text of a basic string in triple quotes. One or two quotes may stand anywhere, also
before the closing three. A backslash at the end of a line takes the line end with it and
all spaces and line ends that follow; the flag says that these are being skipped. -/
def tripleBasic : Bool → Reader (List Char)
  | _, '"' :: '"' :: '"' :: '"' :: '"' :: rest => some (['"', '"'], rest)
  | _, '"' :: '"' :: '"' :: '"' :: rest => some (['"'], rest)
  | _, '"' :: '"' :: '"' :: rest => some ([], rest)
  | _, '"' :: rest => before '"' (tripleBasic false rest)
  | skipping, '\r' :: '\n' :: rest =>
    if skipping then tripleBasic true rest else before '\n' (tripleBasic false rest)
  | skipping, '\n' :: rest =>
    if skipping then tripleBasic true rest else before '\n' (tripleBasic false rest)
  | _, '\\' :: 'u' :: a :: b :: c :: d :: rest => do
    before (← codePoint? [a, b, c, d]) (tripleBasic false rest)
  | _, '\\' :: 'U' :: a :: b :: c :: d :: e :: f :: g :: h :: rest => do
    before (← codePoint? [a, b, c, d, e, f, g, h]) (tripleBasic false rest)
  | _, '\\' :: c :: rest =>
    match escaped? c with
    | some escaped => before escaped (tripleBasic false rest)
    | none => if (lineEnd? (skipSpaces (c :: rest))).isSome then tripleBasic true rest else none
  | skipping, c :: rest =>
    if skipping && isSpace c then tripleBasic true rest
    else if isPlain c then before c (tripleBasic false rest) else none
  | _, [] => none

def tripleLiteral : Reader (List Char)
  | '\'' :: '\'' :: '\'' :: '\'' :: '\'' :: rest => some (['\'', '\''], rest)
  | '\'' :: '\'' :: '\'' :: '\'' :: rest => some (['\''], rest)
  | '\'' :: '\'' :: '\'' :: rest => some ([], rest)
  | '\r' :: '\n' :: rest => before '\n' (tripleLiteral rest)
  | '\n' :: rest => before '\n' (tripleLiteral rest)
  | c :: rest => if isPlain c then before c (tripleLiteral rest) else none
  | [] => none

def afterOpening (text : List Char) : List Char := (lineEnd? text).getD text

def read : Reader (List Char)
  | '"' :: '"' :: '"' :: rest => tripleBasic false (afterOpening rest)
  | '"' :: rest => basic rest
  | '\'' :: '\'' :: '\'' :: rest => tripleLiteral (afterOpening rest)
  | '\'' :: rest => literal rest
  | _ => none

def readOneLine : Reader (List Char)
  | '"' :: rest => basic rest
  | '\'' :: rest => literal rest
  | _ => none

end reading

section writing

def needsEscape (c : Char) : Bool := c != '\n' && !isPlain c

def upperHexDigit (value : Nat) : Char :=
  if value < 10 then Char.ofNat ('0'.toNat + value) else Char.ofNat ('A'.toNat + value - 10)

/-- The escape for a character, if it has or needs one: tab and the backslash do though
they may also stand for themselves elsewhere. -/
def escape? (c : Char) : Option (List Char) :=
  if c = '\x08' then some ['\\', 'b']
  else if c = '\t' then some ['\\', 't']
  else if c = '\x0c' then some ['\\', 'f']
  else if c = '\r' then some ['\\', 'r']
  else if c = '\\' then some ['\\', '\\']
  else if needsEscape c then
    some ['\\', 'u', '0', '0', upperHexDigit (c.toNat / 16), upperHexDigit (c.toNat % 16)]
  else none

/-- A text with escapes, for one line or for triple quotes. A quote is escaped when it
would be one too many in a row; the count starts anew behind every escape. -/
def escapeAll (lines : Bool) : Nat → List Char → List Char
  | _, [] => []
  | quotes, c :: rest =>
    if c = '"' then
      if lines && quotes < 2 then c :: escapeAll lines (quotes + 1) rest
      else '\\' :: '"' :: escapeAll lines 0 rest
    else if c = '\n' then
      if lines then c :: escapeAll lines 0 rest else '\\' :: 'n' :: escapeAll lines 0 rest
    else match escape? c with
      | some escape => escape ++ escapeAll lines 0 rest
      | none => c :: escapeAll lines 0 rest

def longestRun (wanted : Char) : Nat → List Char → Nat
  | run, [] => run
  | run, c :: rest =>
    if c = wanted then longestRun wanted (run + 1) rest
    else max run (longestRun wanted 0 rest)

/-- The longest run of quotes of one kind that a written text may have. -/
def runLimit : Nat := 255

def isWritable (text : List Char) : Bool :=
  longestRun '"' 0 text ≤ runLimit && longestRun '\'' 0 text ≤ runLimit

inductive Form where
  | basic
  | literal
  | tripleBasic
  | tripleLiteral
deriving DecidableEq

def formOf (text : List Char) : Form :=
  let codes := text.any needsEscape
  let newline := text.contains '\n'
  let backslash := text.contains '\\'
  let double := longestRun '"' 0 text
  let single := longestRun '\'' 0 text
  if !codes && !backslash && double = 0 && !newline then .basic
  else if !codes && single = 0 && !newline then .literal
  else if !codes && !backslash && double ≤ 2 then .tripleBasic
  else if !codes && single ≤ 2 then .tripleLiteral
  else if newline then .tripleBasic
  else .basic

def opening (text : List Char) : List Char := if text.contains '\n' then ['\n'] else []

def write (text : List Char) : List Char :=
  match formOf text with
  | .basic => ['"'] ++ escapeAll false 0 text ++ ['"']
  | .literal => ['\''] ++ text ++ ['\'']
  | .tripleBasic =>
    ['"', '"', '"'] ++ opening text ++ escapeAll true 0 text ++ ['"', '"', '"']
  | .tripleLiteral => ['\'', '\'', '\''] ++ opening text ++ text ++ ['\'', '\'', '\'']

end writing

end Microbench.Toml.Quoted
