import Microbench.FileTree.Basic
import Microbench.FileTree.Path
/-!
What a process can do to a tree of files from its working directory.

A path is followed name by name, so `a/..` needs a directory `a`. An operation of several
steps can stop halfway, and then gives the tree as it is at that point.
-/
namespace Microbench

inductive PathFault where
  | notFound
  | notDirectory
  | alreadyThere
  | isDirectory
  | nameTooLong
  | nulByte
  | busy
deriving DecidableEq

def PathFault.message : PathFault → String
  | .notFound => "No such file or directory (os error 2)"
  | .notDirectory => "Not a directory (os error 20)"
  | .alreadyThere => "File exists (os error 17)"
  | .isDirectory => "Is a directory (os error 21)"
  | .nameTooLong => "File name too long (os error 36)"
  | .nulByte => "file name contained an unexpected NUL byte"
  | .busy => "Device or resource busy (os error 16)"

structure Disk where
  tree : FileTree := {}
  working : Place := []

namespace Disk

def nameLimit : Nat := 255

def pathLimit : Nat := 4096

def checkText (path : String) : Except PathFault Unit :=
  if path.toList.contains '\x00' then .error .nulByte
  else if path.isEmpty then .error .notFound
  else if pathLimit ≤ path.utf8ByteSize then .error .nameTooLong
  else .ok ()

def start (disk : Disk) (path : String) : Place :=
  if Path.isAbsolute path then [] else disk.working

def requireDirectory (tree : FileTree) (place : Place) : Except PathFault Unit :=
  match tree.get? place with
  | some .directory => .ok ()
  | some (.file _) => .error .notDirectory
  | none => .error .notFound

def walk (tree : FileTree) : Place → List String → Except PathFault Place
  | place, [] => .ok place
  | place, name :: rest => do
    requireDirectory tree place
    if name = "." then walk tree place rest
    else if name = ".." then walk tree place.dropLast rest
    else if nameLimit < name.utf8ByteSize then .error .nameTooLong
    else if (tree.get? (place ++ [name])).isNone then .error .notFound
    else walk tree (place ++ [name]) rest

/-- The place that a path leads to. A slash at the end asks for a directory. -/
def locate (disk : Disk) (path : String) : Except PathFault Place := do
  checkText path
  let place ← walk disk.tree (disk.start path) (Path.segments path)
  if Path.endsInSlash path then requireDirectory disk.tree place
  return place

def isThere (disk : Disk) (path : String) : Bool := (disk.locate path).toOption.isSome

def isDirectory (disk : Disk) (path : String) : Bool :=
  match disk.locate path with
  | .ok place => disk.tree.isDirectory place
  | .error _ => false

/-- Where a path would put a new entry: its directory, and its last name unless that only
points at the directory or its parent. -/
def target (disk : Disk) (path : String) : Except PathFault (Place × Option String) := do
  checkText path
  match (Path.segments path).getLast? with
  | none => return ([], none)
  | some last =>
    let parent ← walk disk.tree (disk.start path) (Path.segments path).dropLast
    requireDirectory disk.tree parent
    return (parent, if last = "." || last = ".." then none else some last)

def checkName (name : String) : Except PathFault Unit :=
  if nameLimit < name.utf8ByteSize then .error .nameTooLong else .ok ()

def makeDirectory (disk : Disk) (path : String) : Except PathFault Disk := do
  match ← disk.target path with
  | (_, none) => .error .alreadyThere
  | (parent, some name) =>
    checkName name
    if (disk.tree.get? (parent ++ [name])).isSome then .error .alreadyThere
    return { disk with tree := disk.tree.put (parent ++ [name]) .directory }

/-- Makes directories from a list whose later members lie above the earlier ones: the first
that can be made or is there, and then those before it. -/
def makeFirst (disk : Disk) : List String → Disk × Option PathFault
  | [] => (disk, none)
  | path :: above =>
    match disk.makeDirectory path with
    | .ok made => (made, none)
    | .error .notFound =>
      match makeFirst disk above with
      | (made, some fault) => (made, some fault)
      | (made, none) =>
        match made.makeDirectory path with
        | .ok made => (made, none)
        | .error fault =>
          if fault = .alreadyThere && made.isDirectory path then (made, none)
          else (made, some fault)
    | .error fault =>
      if fault = .alreadyThere && disk.isDirectory path then (disk, none)
      else (disk, some fault)

def makeDirectories (disk : Disk) (path : String) : Disk × Option PathFault :=
  disk.makeFirst ((Path.ancestors path).filter fun above => !Path.isBare above)

def fullPath (disk : Disk) (path : String) : String := Path.join (Path.absolute disk.working) path

/-- Opens a new file in a directory, under a name that nothing there has. The file is known
by its full path, so that path must not be too long. -/
def createDraft (disk : Disk) (directory : String) : Except PathFault (Disk × Place) := do
  let parent ← disk.locate directory
  requireDirectory disk.tree parent
  let name := disk.tree.freshName parent
  checkText (Path.join (disk.fullPath directory) name)
  return ({ disk with tree := disk.tree.put (parent ++ [name]) (.file ByteArray.empty) },
    parent ++ [name])

def moveFile (disk : Disk) (source : Place) (path : String) : Except PathFault Disk := do
  match ← disk.target path, disk.tree.get? source with
  | (parent, some name), some (.file content) =>
    if Path.endsInSlash path then .error .notDirectory
    checkName name
    if disk.tree.isDirectory (parent ++ [name]) then .error .isDirectory
    return { disk with tree := (disk.tree.erase source).put (parent ++ [name]) (.file content) }
  | (_, some _), _ => .error .notFound
  | (_, none), _ => .error .busy

/-- Writes a file in three steps: the content goes to a draft beside the path, and the
draft is moved over what may be there. A draft that cannot be moved is taken away again. -/
def replaceFile (disk : Disk) (path content : String) : Disk × Option PathFault :=
  match disk.createDraft (Path.directory path) with
  | .error fault => (disk, some fault)
  | .ok (opened, draft) =>
    let written := { opened with tree := opened.tree.put draft (.file content.toUTF8) }
    match written.moveFile draft path with
    | .ok moved => (moved, none)
    | .error fault => ({ written with tree := written.tree.erase draft }, some fault)

def overwrite (disk : Disk) (path content : String) : Except PathFault Disk := do
  match ← disk.target path with
  | (_, none) => .error .isDirectory
  | (parent, some name) =>
    if Path.endsInSlash path then .error .isDirectory
    checkName name
    if disk.tree.isDirectory (parent ++ [name]) then .error .isDirectory
    return { disk with tree := disk.tree.put (parent ++ [name]) (.file content.toUTF8) }

def read (disk : Disk) (path : String) : Except PathFault ByteArray := do
  match disk.tree.get? (← disk.locate path) with
  | some (.file content) => return content
  | some .directory => .error .isDirectory
  | none => .error .notFound

end Disk

end Microbench
