import Microbench.Text.Blank
/-! Paths as text: names between slashes. `segments` keeps every name, since whoever follows the
path passes through each of them; `ancestors` climbs by the path as it is written. -/
namespace Microbench.Path

def isAbsolute (path : String) : Bool := path.toList.head? == some '/'

def endsInSlash (path : String) : Bool := path.toList.getLast? == some '/'

def pieces (path : String) : List String := (Text.pieces '/' path.toList).map String.ofList

def segments (path : String) : List String := (pieces path).filter fun name => !name.isEmpty

def absolute (names : List String) : String := "/" ++ "/".intercalate names

def join (directory path : String) : String :=
  if isAbsolute path then path
  else if directory.isEmpty || endsInSlash directory then directory ++ path
  else directory ++ "/" ++ path

def isIdle (piece : String) : Bool := piece.isEmpty || piece == "."

def ofPieces (first : String) (behind : List String) : String :=
  if first.isEmpty && behind.isEmpty then "/" else "/".intercalate (first :: behind)

/-- The pieces behind the first one are given from the last to the first. -/
def shorter (first : String) : List String → List String
  | [] => []
  | piece :: before =>
    if isIdle piece then shorter first before
    else ofPieces first (before.dropWhile isIdle).reverse :: shorter first before

/-- The path, then what is left of it as parts are dropped from its end: an absolute path
ends at the root, any other at the empty path. -/
def ancestors (path : String) : List String :=
  match pieces path with
  | [] => [path]
  | first :: behind =>
    path :: shorter first behind.reverse ++ (if first.isEmpty then [] else [""])

def isBare (path : String) : Bool :=
  path.isEmpty || (isAbsolute path && (segments path).all (· == "."))

def directory (path : String) : String :=
  match (ancestors path).tail with
  | above :: _ => if above.isEmpty then "." else above
  | [] => "."

/-- A climb begins at the path itself, as it is written. -/
theorem head_ancestors (path : String) : (ancestors path).head? = some path := by
  unfold ancestors
  split <;> rfl

end Microbench.Path
