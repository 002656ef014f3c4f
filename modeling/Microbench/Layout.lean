import Microbench.Text.Blank
/-! How lines are set out in a file: one that ends in a colon stands at the margin, every other
is indented. -/
namespace Microbench

structure Indent where
  width : Nat := 8
  tabs : Bool := true
deriving DecidableEq

namespace Indent

def text (indent : Indent) : String :=
  if indent.tabs then "\t" else String.ofList (List.replicate indent.width ' ')

def line (indent : Indent) (text : String) : String :=
  if Text.endsInColon text.toList then text ++ "\n" else indent.text ++ text ++ "\n"

def appendLines (indent : Indent) (written : String) (lines : List String) : String :=
  lines.foldl (fun written text => written ++ indent.line text) written

/-- As many spaces as this are more than a text can hold. -/
def widthLimit : Nat := 0x8000000000000000

def fits (indent : Indent) (lines : List String) : Bool :=
  indent.tabs || indent.width < widthLimit || lines.all fun text => Text.endsInColon text.toList

def appendLines? (indent : Indent) (written : String) (lines : List String) : Option String :=
  if indent.fits lines then some (indent.appendLines written lines) else none

theorem append_lines_cons (indent : Indent) (written first : String) (rest : List String) :
    indent.appendLines written (first :: rest) =
      indent.appendLines (written ++ indent.line first) rest := rfl

end Indent

end Microbench
