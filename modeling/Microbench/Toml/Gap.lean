/-! What stands between the words of a TOML document: blanks, line ends and comments. -/
namespace Microbench.Toml

abbrev Reader (α : Type) := List Char → Option (α × List Char)

def isSpace (c : Char) : Bool := c == ' ' || c == '\t'

def skipSpaces (text : List Char) : List Char := text.dropWhile isSpace

/-- A character that comments and strings may hold as it stands: a tab, or anything that is
no ASCII control character. -/
def isPlain (c : Char) : Bool := c == '\t' || (0x20 ≤ c.toNat && c.toNat != 0x7F)

def lineEnd? : List Char → Option (List Char)
  | '\n' :: rest => some rest
  | '\r' :: '\n' :: rest => some rest
  | _ => none

def skipComment : List Char → List Char
  | '#' :: rest => rest.dropWhile isPlain
  | text => text

def restOfLine? (text : List Char) : Option (List Char) :=
  match skipComment (skipSpaces text) with
  | [] => some []
  | rest => lineEnd? rest

/-- Skips spaces, line ends and comments. The flag says whether a comment is open. -/
def skipGapFrom : Bool → List Char → List Char
  | _, [] => []
  | _, '\n' :: rest => skipGapFrom false rest
  | inside, '\r' :: '\n' :: rest => skipGapFrom inside ('\n' :: rest)
  | true, c :: rest => if isPlain c then skipGapFrom true rest else c :: rest
  | false, '#' :: rest => skipGapFrom true rest
  | false, c :: rest => if isSpace c then skipGapFrom false rest else c :: rest

def skipGap (text : List Char) : List Char := skipGapFrom false text

def expect (wanted : Char) : List Char → Option (List Char)
  | c :: rest => if c = wanted then some rest else none
  | [] => none

end Microbench.Toml
