import Microbench.Layout
/-! A C header that declares functions `int (int)` and a table of pointers to them, with `NULL`
in the empty slots. -/
namespace Microbench

structure FunctionTable where
  guard : String
  countMacro : String
  typedefName : String
  tableName : String
  entries : List (Option String) := []
deriving DecidableEq

namespace FunctionTable

def push (table : FunctionTable) (entry : Option String) : FunctionTable :=
  { table with entries := table.entries ++ [entry] }

def size (table : FunctionTable) : Nat := table.entries.length

def initialisers : List (Option String) → List String
  | [] => []
  | [last] => [last.getD "NULL"]
  | entry :: rest => (entry.getD "NULL" ++ ",") :: initialisers rest

def declaration (symbol : String) : String := "int " ++ symbol ++ "(int x);\n"

def render (table : FunctionTable) : String :=
  let declarations := String.join ((table.entries.filterMap id).map declaration)
  "#ifndef " ++ table.guard ++ "\n" ++
  "#define " ++ table.guard ++ "\n" ++
  "#include <stddef.h>\n" ++
  "#define " ++ table.countMacro ++ " " ++ toString table.size ++ "\n" ++
  "typedef int (*" ++ table.typedefName ++ ")(int x);\n" ++
  declarations ++
  "static const " ++ table.typedefName ++ " " ++ table.tableName ++ "[" ++ table.countMacro ++
    "] = \x7b\n" ++
  Indent.appendLines {} "" (initialisers table.entries) ++
  "\x7d;\n" ++
  "#endif\n"

end FunctionTable

end Microbench
