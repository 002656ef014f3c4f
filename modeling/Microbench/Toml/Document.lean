import Microbench.Toml.Node
import Microbench.Toml.Number
/-! TOML documents, read in two steps. The first knows nothing of tables and gives the pairs
and headers in order; the second, `assemble`, puts them together. -/
namespace Microbench.Toml

section values

def isBareKeyChar (c : Char) : Bool :=
  ('a' ≤ c && c ≤ 'z') || ('A' ≤ c && c ≤ 'Z') || ('0' ≤ c && c ≤ '9') || c == '-' || c == '_'

def asText : List Char × List Char → String × List Char
  | (text, rest) => (String.ofList text, rest)

def asTextNode : List Char × List Char → Node × List Char
  | (text, rest) => (.text (String.ofList text), rest)

def simpleKey : Reader String
  | '"' :: rest => (Quoted.readOneLine ('"' :: rest)).map asText
  | '\'' :: rest => (Quoted.readOneLine ('\'' :: rest)).map asText
  | text =>
    match text.takeWhile isBareKeyChar with
    | [] => none
    | found => some (String.ofList found, text.dropWhile isBareKeyChar)

def keyParts : Nat → Reader (List String)
  | 0, _ => none
  | fuel + 1, text => do
    let (part, rest) ← simpleKey (skipSpaces text)
    match skipSpaces rest with
    | '.' :: rest => do
      let (parts, rest) ← keyParts fuel rest
      return (part :: parts, rest)
    | rest => return ([part], rest)

def nestingLimit : Nat := 80

def key (text : List Char) : Option (List String × List Char) := keyParts (nestingLimit - 1) text

def pair (value : Reader Node) (text : List Char) : Option (Pair × List Char) := do
  let (parts, rest) ← key text
  let rest ← expect '=' rest
  let (node, rest) ← value (skipSpaces rest)
  let last ← parts.getLast?
  return (⟨parts.dropLast, last, node⟩, rest)

def items (value : Reader Node) : Nat → Reader (List Node)
  | 0, _ => none
  | fuel + 1, text =>
    match skipGap text with
    | ']' :: rest => some ([], rest)
    | text => do
      let (node, rest) ← value text
      match skipGap rest with
      | ',' :: rest => do
        let (nodes, rest) ← items value fuel rest
        return (node :: nodes, rest)
      | ']' :: rest => return ([node], rest)
      | _ => none

def pairs (value : Reader Node) : Nat → Reader (List Pair)
  | 0, _ => none
  | fuel + 1, text => do
    let (first, rest) ← pair value text
    match skipSpaces rest with
    | ',' :: rest => do
      let (others, rest) ← pairs value fuel rest
      return (first :: others, rest)
    | '}' :: rest => return ([first], rest)
    | _ => none

def numberLike (text : List Char) : Option (Node × List Char) :=
  match Number.moment text with
  | some rest => some (.moment, rest)
  | none =>
    match Number.float text with
    | some rest => some (.float, rest)
    | none => (Number.integer text).map fun (value, rest) => (.integer value, rest)

def value : Nat → Reader Node
  | depth, '[' :: rest =>
    match depth with
    | 0 => none
    | depth + 1 =>
      (items (value depth) (rest.length + 1) rest).map fun (nodes, rest) => (.array nodes, rest)
  | depth, '{' :: rest =>
    match depth with
    | 0 => none
    | depth + 1 =>
      match skipSpaces rest with
      | '}' :: rest => some (.table .braces [], rest)
      | text => do
        let (found, rest) ← pairs (value depth) (text.length + 1) text
        return (← bracesOf found, rest)
  | _, 't' :: 'r' :: 'u' :: 'e' :: rest => some (.boolean true, rest)
  | _, 'f' :: 'a' :: 'l' :: 's' :: 'e' :: rest => some (.boolean false, rest)
  | _, '"' :: rest => (Quoted.read ('"' :: rest)).map asTextNode
  | _, '\'' :: rest => (Quoted.read ('\'' :: rest)).map asTextNode
  | _, text => numberLike text

end values

section lines

inductive Line where
  | pair (pair : Pair)
  | header (path : List String) (repeated : Bool)

def header (repeated : Bool) (text : List Char) : Option (Line × List Char) := do
  let (path, rest) ← key text
  let rest ← expect ']' rest
  let rest ← if repeated then expect ']' rest else some rest
  return (.header path repeated, rest)

def line : Reader Line
  | '[' :: '[' :: rest => header true rest
  | '[' :: rest => header false rest
  | text => (pair (value (nestingLimit - 1)) text).map fun (pair, rest) => (.pair pair, rest)

/-- The lines of a document. Each takes up a character, so there are no more of them. -/
def lines : Nat → List Char → Option (List Line)
  | 0, _ => none
  | fuel + 1, text =>
    match skipSpaces text with
    | [] => some []
    | '#' :: rest => do lines fuel (← restOfLine? ('#' :: rest))
    | text =>
      match lineEnd? text with
      | some rest => lines fuel rest
      | none => do
        let (first, rest) ← line text
        let others ← lines fuel (← restOfLine? rest)
        return first :: others

def blocks : List Line → List Pair × List Block
  | [] => ([], [])
  | .pair pair :: rest =>
    let (pairs, others) := blocks rest
    (pair :: pairs, others)
  | .header path repeated :: rest =>
    let (pairs, others) := blocks rest
    ([], ⟨path, repeated, pairs⟩ :: others)

end lines

def withoutMark : List Char → List Char
  | '\ufeff' :: rest => rest
  | text => text

def parse (text : String) : Option Table := do
  let chars := withoutMark text.toList
  let found ← lines (chars.length + 1) chars
  let (pairs, blocks) := blocks found
  assemble pairs blocks

end Microbench.Toml
