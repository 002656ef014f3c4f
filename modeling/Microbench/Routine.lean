import Microbench.Layout
import Microbench.Target
/-! A generated function and a file of them, both kept as statements. -/
namespace Microbench

structure Routine where
  name : String
  statements : List Statement
  preserved : List Reg
deriving DecidableEq

namespace Routine

def lines (routine : Routine) : List String := routine.statements.map Statement.text

def localLabels (routine : Routine) : List String :=
  let entry := routine.name ++ ":"
  (routine.lines.filter fun line => Text.endsInColon line.toList && line != entry).map
    fun line => String.ofList (Text.dropColons line.toList)

def render (routine : Routine) : String := Indent.appendLines {} "" routine.lines

end Routine

structure Listing where
  header : List Statement := []
  routines : List Routine := []
deriving DecidableEq

namespace Listing

def empty (target : Target) : Listing := { header := target.fileHeader }

def push (listing : Listing) (routine : Routine) : Listing :=
  { listing with routines := listing.routines ++ [routine] }

def render (listing : Listing) : String :=
  listing.routines.foldl
    (fun written routine => Indent.appendLines {} (written ++ "\n") routine.lines)
    (Indent.appendLines {} "" (listing.header.map Statement.text))

end Listing

end Microbench
