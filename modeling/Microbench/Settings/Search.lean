import Microbench.FileTree.Access
import Microbench.Settings.Document
/-! Finding, loading and saving settings. The search stops at the first settings file that is
there, even if it cannot be read: a file further out never takes its place. -/
namespace Microbench

inductive SettingsError where
  | notFound (path : String)
  | unusable (fault : PathFault)
  | notText
  | malformed
  | unwritable (fault : Settings.WriteFault)
deriving DecidableEq

def readFailure (cause : String) : String := "Failed to read config file: " ++ cause

/-- The wording of an error. What exactly is malformed or cannot be written is not told. For a
text with too many quotes there is no error to word: the program panics, and the wording of a
document that cannot be written stands for the panic. -/
def SettingsError.message : SettingsError → String
  | .notFound path => "Config file not found: " ++ path
  | .unusable fault => readFailure fault.message
  | .notText => readFailure "stream did not contain valid UTF-8"
  | .malformed => "Failed to parse config"
  | .unwritable _ => "Failed to serialize config"

namespace Settings

def fileName : String := "ubgen.toml"

def decode (content : ByteArray) : Except SettingsError Settings :=
  match String.fromUTF8? content with
  | none => .error .notText
  | some text =>
    match parse text with
    | none => .error .malformed
    | some settings => .ok settings

def load (disk : Disk) (path : String) : Except SettingsError Settings :=
  if disk.isThere path then
    match disk.read path with
    | .ok content => decode content
    | .error fault => .error (.unusable fault)
  else .error (.notFound path)

def candidates (directory : String) : List String :=
  (Path.ancestors directory).map fun above => Path.join above fileName

def find (disk : Disk) (directory : String) : Except SettingsError Settings :=
  match (candidates directory).find? disk.isThere with
  | some path => load disk path
  | none => .ok {}

def findFromWorking (disk : Disk) : Except SettingsError Settings :=
  find disk (Path.absolute disk.working)

def resolve (disk : Disk) : Option String → Except SettingsError Settings
  | some path => load disk path
  | none => findFromWorking disk

def save (settings : Settings) (disk : Disk) (path : String) : Except SettingsError Disk :=
  match settings.write? with
  | .error fault => .error (.unwritable fault)
  | .ok content =>
    match disk.overwrite path content with
    | .ok changed => .ok changed
    | .error fault => .error (.unusable fault)

end Settings

end Microbench
