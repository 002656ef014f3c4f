/-!
The tree that a TOML document stands for, and how a table takes a new entry.

A table remembers how it came about, because that decides who may still add to it: a
table with a header of its own or in braces is complete, one that only a longer path
implied can be filled in later.
-/
namespace Microbench.Toml

inductive Origin where
  /-- It has a header of its own, or is the whole document. -/
  | header
  /-- A longer header implied it. -/
  | implied
  /-- A dotted key implied it. -/
  | dotted
  /-- It stands in braces. -/
  | braces
  /-- A dotted key inside braces implied it. -/
  | dottedInBraces
deriving DecidableEq

inductive Node where
  | text (text : String)
  | integer (value : Int)
  | float
  | boolean (value : Bool)
  | moment
  | array (items : List Node)
  | table (origin : Origin) (entries : List (String × Node))
  /-- The tables under repeated headers in double brackets. -/
  | tables (items : List Node)

structure Table where
  origin : Origin
  entries : List (String × Node)

namespace Table

def node (table : Table) : Node := .table table.origin table.entries

def find? (table : Table) (key : String) : Option Node := table.entries.lookup key

def put (table : Table) (key : String) (node : Node) : Table :=
  if (table.entries.lookup key).isSome then
    { table with entries := table.entries.map fun entry =>
        if entry.1 = key then (key, node) else entry }
  else { table with entries := table.entries ++ [(key, node)] }

end Table

/-- A way to follow paths: the origin of tables made on the way, and the origins of tables
that may be entered. -/
structure Access where
  makes : Origin
  enters : List Origin

namespace Access

def ofHeader : Access := ⟨.implied, [.header, .implied, .dotted]⟩

def ofDottedKey : Access := ⟨.dotted, [.implied, .dotted]⟩

def inBraces : Access := ⟨.dottedInBraces, [.dottedInBraces]⟩

end Access

/-- Changes the table at the end of a path. A path through repeated tables leads to the
last of them. -/
def update? (access : Access) (change : Table → Option Table) : List String → Table → Option Table
  | [], table => change table
  | key :: path, table =>
    match (table.find? key).getD (.table access.makes []) with
    | .table origin entries =>
      if origin ∈ access.enters then
        (update? access change path ⟨origin, entries⟩).map fun changed => table.put key changed.node
      else none
    | .tables items =>
      match items.getLast? with
      | some (.table origin entries) =>
        (update? access change path ⟨origin, entries⟩).map fun changed =>
          table.put key (.tables (items.dropLast ++ [changed.node]))
      | _ => none
    | _ => none

/-- A key with its value. The keys before the last one of a dotted key are the path. -/
structure Pair where
  path : List String
  key : String
  value : Node

/-- Adds a pair. A key is given once, and a table is filled either by dotted keys or
directly, not both ways. -/
def addPair (access : Access) (table : Table) (pair : Pair) : Option Table :=
  update? access (fun table =>
    if decide (table.origin = access.makes) = pair.path.isEmpty then none
    else if (table.find? pair.key).isSome then none
    else some (table.put pair.key pair.value)) pair.path table

def addPairs (access : Access) (table : Table) (pairs : List Pair) : Option Table :=
  pairs.foldlM (addPair access) table

def bracesOf (pairs : List Pair) : Option Node :=
  (addPairs .inBraces ⟨.braces, []⟩ pairs).map Table.node

structure Block where
  path : List String
  repeated : Bool
  pairs : List Pair

def openTable (parent : Table) (key : String) (pairs : List Pair) : Option Table :=
  match parent.find? key with
  | none => addPairs .ofDottedKey ⟨.header, []⟩ pairs
  | some (.table .implied entries) => addPairs .ofDottedKey ⟨.header, entries⟩ pairs
  | some _ => none

def openElement (parent : Table) (key : String) (pairs : List Pair) : Option Node :=
  match parent.find? key with
  | none => (addPairs .ofDottedKey ⟨.header, []⟩ pairs).map fun table => .tables [table.node]
  | some (.tables items) =>
    (addPairs .ofDottedKey ⟨.header, []⟩ pairs).map fun table => .tables (items ++ [table.node])
  | some _ => none

def addBlock (root : Table) (block : Block) : Option Table :=
  match block.path.getLast? with
  | none => none
  | some key =>
    update? .ofHeader (fun parent =>
      if block.repeated then (openElement parent key block.pairs).map (parent.put key)
      else (openTable parent key block.pairs).map fun table => parent.put key table.node)
      block.path.dropLast root

def assemble (pairs : List Pair) (blocks : List Block) : Option Table := do
  let root ← addPairs .ofDottedKey ⟨.header, []⟩ pairs
  blocks.foldlM addBlock root

end Microbench.Toml
