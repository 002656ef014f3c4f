import Microbench.Run.Program
/-! The programs on the files of this machine. The first argument names the program, the others
are its command line; what to do is all in the plan of a run. -/
namespace Microbench.Run

def complain (context cause : String) : IO UInt32 := do
  IO.eprintln ("Error: " ++ context ++ "\n\nCaused by:\n    " ++ cause)
  return 1

def cause (error : IO.Error) : String :=
  match error with
  | .noFileOrDirectory .. => PathFault.notFound.message
  | .alreadyExists .. => PathFault.alreadyThere.message
  | .resourceBusy .. => PathFault.busy.message
  | .inappropriateType _ 20 _ => PathFault.notDirectory.message
  | .inappropriateType _ 21 _ => PathFault.isDirectory.message
  | .invalidArgument _ 36 _ => PathFault.nameTooLong.message
  | _ => toString error

def isThere (path : String) : IO Bool := do
  match ← (IO.FS.Handle.mk path .read).toBaseIO with
  | .ok _ => return true
  | .error (.permissionDenied ..) => return true
  | .error _ => return false

def isDirectory (path : String) : IO Bool := do
  match ← (IO.FS.Handle.mk (path ++ "/.") .read).toBaseIO with
  | .ok _ => return true
  | .error _ => return false

def firstThere : List String → IO (Option String)
  | [] => return none
  | path :: rest => do if ← isThere path then return some path else firstThere rest

def loadSettings (path : String) : IO (Except String Settings) := do
  if ← isThere path then
    match ← (IO.FS.readBinFile path).toBaseIO with
    | .ok content => return (Settings.decode content).mapError SettingsError.message
    | .error error => return .error (readFailure (cause error))
  else return .error (SettingsError.notFound path).message

def resolveSettings : Option String → IO (Except String Settings)
  | some path => loadSettings path
  | none => do
    match ← firstThere (Settings.candidates (← IO.currentDir).toString) with
    | some path => loadSettings path
    | none => return .ok {}

def chance : IO UInt64 := do
  return (← IO.getRandomBytes 8).foldl (fun word byte => word * 256 + byte.toUInt64) 0

def makeDirectory (path : String) : IO Unit := do
  try IO.FS.createDir path
  catch error => if ← isDirectory path then return () else throw error

def makeFirst : List String → IO Unit
  | [] => return ()
  | path :: above => do
    match ← (makeDirectory path).toBaseIO with
    | .ok _ => return ()
    | .error (.noFileOrDirectory ..) =>
      makeFirst above
      makeDirectory path
    | .error error => throw error

def makeDirectories (path : String) : IO Unit :=
  makeFirst ((Path.ancestors path).filter fun above => !Path.isBare above)

/-- Writes a file beside its place and moves it there, so that no half of it is ever seen. -/
def replaceFile (path content : String) : IO Unit := do
  let directory := Path.join (← IO.currentDir).toString (Path.directory path)
  let draft := Path.join directory (FileTree.draftName ((← chance).toNat % 900000))
  try
    IO.FS.writeFile draft content
    IO.FS.rename draft path
  catch error =>
    discard (IO.FS.removeFile draft).toBaseIO
    throw error

def report (verbose : Bool) (message : Message) : IO Unit :=
  if message.isHeard verbose then IO.eprintln message.printed else return ()

def carryOut (verbose : Bool) : List Step → IO UInt32
  | [] => return 0
  | .say message :: rest => do
    report verbose message
    carryOut verbose rest
  | .makeDirectory path :: rest => do
    match ← (makeDirectories path).toBaseIO with
    | .ok _ => carryOut verbose rest
    | .error error => complain (directoryFailure path) (cause error)
  | .write path content :: rest => do
    match ← (replaceFile path content).toBaseIO with
    | .ok _ =>
      report verbose (wrote path content)
      carryOut verbose rest
    | .error error => complain (fileFailure path) (ioFailure (cause error))
  | .fail error :: _ => complain error.context error.cause

def runProgram (program : Program) (arguments : List String) : IO UInt32 := do
  match program.read arguments with
  | .error .usage =>
    IO.eprintln ("error: wrong arguments\n\n" ++ program.usage)
    return 2
  | .error .help =>
    IO.println program.usage
    return 0
  | .error .version =>
    IO.print (program.output .version)
    return 0
  | .ok request =>
    match ← resolveSettings request.shared.settings with
    | .error cause => complain settingsFailure cause
    | .ok found =>
      match request.plan found (← chance) with
      | .error error => complain error.context error.cause
      | .ok steps => carryOut request.shared.verbose steps

end Microbench.Run

open Microbench.Run in
def main (arguments : List String) : IO UInt32 := do
  let name :: rest := arguments
    | do
      IO.eprintln "error: no program named"
      return 2
  match [Program.cycles, .multiplies].find? (·.name == name) with
  | some program => runProgram program rest
  | none =>
    IO.eprintln ("error: no program is called " ++ name)
    return 2
