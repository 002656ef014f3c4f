import Microbench.Toml.Quoted
/-! Numbers, dates and times of TOML. Only integers have a value that anything here uses; of
floats and moments the form is checked, and that they are within range. -/
namespace Microbench.Toml.Number

def isDigit (c : Char) : Bool := '0' ≤ c && c ≤ '9'

def moreDigits (isDigit : Char → Bool) : List Char → List Char × List Char
  | '_' :: c :: rest =>
    if isDigit c then
      let (digits, others) := moreDigits isDigit rest
      (c :: digits, others)
    else ([], '_' :: c :: rest)
  | c :: rest =>
    if isDigit c then
      let (digits, others) := moreDigits isDigit rest
      (c :: digits, others)
    else ([], c :: rest)
  | [] => ([], [])

def digits (isDigit : Char → Bool) : Reader (List Char)
  | c :: rest =>
    if isDigit c then
      let (digits, others) := moreDigits isDigit rest
      some (c :: digits, others)
    else none
  | [] => none

def decimalDigits : Reader (List Char)
  | '0' :: rest => some (['0'], rest)
  | text => digits isDigit text

def digitValue (c : Char) : Nat := (Quoted.hexDigit? c).getD 0

def ofDigits (base : Nat) (digits : List Char) : Nat :=
  digits.foldl (fun value c => value * base + digitValue c) 0

/-- A sign, if there is one; true for minus. -/
def sign : List Char → Bool × List Char
  | '+' :: rest => (false, rest)
  | '-' :: rest => (true, rest)
  | text => (false, text)

def inRange (value : Int) : Option Int :=
  if -0x8000000000000000 ≤ value && value < 0x8000000000000000 then some value else none

def isHexDigit (c : Char) : Bool := (Quoted.hexDigit? c).isSome

def isOctalDigit (c : Char) : Bool := '0' ≤ c && c ≤ '7'

def isBinaryDigit (c : Char) : Bool := c == '0' || c == '1'

def based (isDigit : Char → Bool) (base : Nat) (text : List Char) : Option (Int × List Char) := do
  let (found, rest) ← digits isDigit text
  return (← inRange (ofDigits base found), rest)

def integer : Reader Int
  | '0' :: 'x' :: rest => based isHexDigit 16 rest
  | '0' :: 'o' :: rest => based isOctalDigit 8 rest
  | '0' :: 'b' :: rest => based isBinaryDigit 2 rest
  | text => do
    let (negative, text) := sign text
    let (found, rest) ← decimalDigits text
    let magnitude := (ofDigits 10 found : Int)
    return (← inRange (if negative then -magnitude else magnitude), rest)

section floats

def fraction (text : List Char) : Option (List Char × List Char) := do
  digits isDigit (← expect '.' text)

def exponent : Reader Int
  | c :: rest => do
    if c = 'e' || c = 'E' then
      let (negative, rest) := sign rest
      let (found, rest) ← digits isDigit rest
      let magnitude := (ofDigits 10 found : Int)
      return (if negative then -magnitude else magnitude, rest)
    else none
  | [] => none

/-- The least magnitude that rounds to infinity: half a step beyond the largest double. -/
def overflowBound : Nat := 1 <<< 1024 - 1 <<< 970

/-- Whether digits times a power of ten reach the bound. Powers so large or so small that
the digits cannot make up for them are not computed. -/
def overflows (digits : List Char) (power : Int) : Bool :=
  let mantissa := ofDigits 10 digits
  if mantissa = 0 then false
  else if 400 < power then true
  else if power + digits.length < 300 then false
  else if 0 ≤ power then overflowBound ≤ mantissa * Nat.pow 10 power.toNat
  else overflowBound * Nat.pow 10 (-power).toNat ≤ mantissa

def special (text : List Char) : Option (List Char) :=
  match (sign text).2 with
  | 'i' :: 'n' :: 'f' :: rest => some rest
  | 'n' :: 'a' :: 'n' :: rest => some rest
  | _ => none

def decimalFloat (text : List Char) : Option (List Char) := do
  let (negative, text) := sign text
  let (whole, text) ← decimalDigits text
  let point := fraction text
  let (behind, afterPoint) := point.getD ([], text)
  let letter := exponent afterPoint
  let (power, rest) := letter.getD (0, afterPoint)
  if point.isNone && letter.isNone then none
  else if !negative && overflows (whole ++ behind) (power - behind.length) then none
  else some rest

def float (text : List Char) : Option (List Char) :=
  match decimalFloat text with
  | some rest => some rest
  | none => special text

end floats

section moments

def fixedDigits : Nat → Reader Nat
  | count, text =>
    let found := text.take count
    if found.length = count && found.all isDigit then some (ofDigits 10 found, text.drop count)
    else none

def twoDigits (least most : Nat) (text : List Char) : Option (Nat × List Char) := do
  let (value, rest) ← fixedDigits 2 text
  if least ≤ value && value ≤ most then some (value, rest) else none

def isLeapYear (year : Nat) : Bool := year % 4 == 0 && (year % 100 != 0 || year % 400 == 0)

def daysInMonth (year month : Nat) : Nat :=
  if month = 2 then (if isLeapYear year then 29 else 28)
  else if month = 4 || month = 6 || month = 9 || month = 11 then 30
  else 31

def date (text : List Char) : Option (List Char) := do
  let (year, rest) ← fixedDigits 4 text
  let (month, rest) ← twoDigits 1 12 (← expect '-' rest)
  let (_, rest) ← twoDigits 1 (daysInMonth year month) (← expect '-' rest)
  return rest

def time (text : List Char) : Option (List Char) := do
  let (_, rest) ← twoDigits 0 23 text
  let (_, rest) ← twoDigits 0 59 (← expect ':' rest)
  let (_, rest) ← twoDigits 0 60 (← expect ':' rest)
  match rest with
  | '.' :: behind =>
    match behind.takeWhile isDigit with
    | [] => none
    | _ => return behind.dropWhile isDigit
  | _ => return rest

def offset : List Char → Option (List Char)
  | 'Z' :: rest | 'z' :: rest => some rest
  | c :: rest => do
    if c = '+' || c = '-' then
      let (_, rest) ← twoDigits 0 23 rest
      let (_, rest) ← twoDigits 0 59 (← expect ':' rest)
      return rest
    else none
  | [] => none

def timeAfterDate : List Char → Option (List Char)
  | c :: rest => do
    if c = 'T' || c = 't' || c = ' ' then
      let rest ← time rest
      return (offset rest).getD rest
    else none
  | [] => none

def moment (text : List Char) : Option (List Char) :=
  match date text with
  | some rest => some ((timeAfterDate rest).getD rest)
  | none => time text

end moments

end Microbench.Toml.Number
