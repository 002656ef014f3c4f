import Microbench.CommandLine.Arguments
import Microbench.Settings.Search
/-! What a run is going to do, before it does anything: a list of steps, made only when all
parameters are in order. -/
namespace Microbench.Run

open CommandLine

inductive RunError where
  | settings (error : SettingsError)
  | exponent (error : GenerationError)
  | target (fault : PoolFault)
  | parameters (error : GenerationError)
  | functions (error : GenerationError)
  | cycle (size : Nat) (error : GenerationError)
  | directory (path : String) (fault : PathFault)
  | file (path : String) (fault : PathFault)
deriving DecidableEq

def settingsFailure : String := "Failed to load config"

def directoryFailure (path : String) : String := "Failed to create output directory " ++ path

def fileFailure (path : String) : String := "Failed to write " ++ path

def ioFailure (cause : String) : String := "IO error: " ++ cause

def RunError.context : RunError → String
  | .settings _ => settingsFailure
  | .exponent _ => "Invalid exponent"
  | .target _ => "Invalid target configuration"
  | .parameters _ => "Invalid ILP parameters"
  | .functions _ => "Failed to generate ILP functions"
  | .cycle size _ => "Failed to generate cycle of size " ++ toString size
  | .directory path _ => directoryFailure path
  | .file path _ => fileFailure path

def RunError.cause : RunError → String
  | .settings error => error.message
  | .exponent error | .parameters error | .functions error | .cycle _ error => error.message
  | .target fault => (GenerationError.pool fault).message
  | .directory _ fault => fault.message
  | .file _ fault => ioFailure fault.message

inductive Step where
  | say (message : Message)
  | makeDirectory (path : String)
  | write (path content : String)
  | fail (error : RunError)

section cycles

def cycleFiles (family : CycleFamily) (settings : Settings) : List Nat → Random.Stream → List Step
  | [], _ => []
  | size :: rest, stream =>
    match family.generate size stream with
    | (.error error, _) => [.fail (.cycle size error)]
    | (.ok routine, remaining) =>
      .say (family.announcement routine) ::
      .write (Path.join settings.output.directory (settings.cycle.fileName size))
        (family.listing routine).render ::
      cycleFiles family settings rest remaining

/-- The plan for cycle routines under settings that hold all that was given. The seed is
told when it was given; otherwise it comes from outside. -/
def cyclePlan (settings : Settings) (seed : Option UInt64) (chance : UInt64) :
    Except RunError (List Step) := do
  let sizes ← (sizesForExponent settings.cycle.exponent.toNat).mapError .exponent
  let target ← settings.buildTarget.mapError .target
  let family : CycleFamily := ⟨target, settings.cycle.symbolStart⟩
  let directory := settings.output.directory
  let told := match seed with
    | some seed => [Step.say ⟨.debug, "btb_cycle", s!"Using seed {seed.toNat}"⟩]
    | none => []
  let header := if settings.cycle.header then
      [Step.write (Path.join directory settings.cycle.headerFile) (family.table sizes).render]
    else []
  let first := sizes.head?.getD 0
  let last := sizes.getLast?.getD 0
  return told ++ [.makeDirectory directory] ++
    cycleFiles family settings sizes (Random.Stream.ofSeed (seed.getD chance)) ++ header ++
    [.say ⟨.info, "btb_cycle",
      s!"Generated {sizes.length} cycle routines for {target.name} (sizes {first}..={last})"⟩]

end cycles

section multiplies

def multiplyPlan (settings : Settings) : Except RunError (List Step) := do
  let target ← settings.buildTarget.mapError .target
  let family ← (MultiplyFamily.create target settings.multiply.maxWidth.toNat
    settings.multiply.unroll.toNat settings.multiply.symbolStart).mapError .parameters
  let production := family.produce
  let told := production.messages.map Step.say
  let directory := settings.output.directory
  match production.listing with
  | .error error => return told ++ [.fail (.functions error)]
  | .ok listing =>
    return told ++
      [.makeDirectory directory,
        .write (Path.join directory settings.multiply.asmFile) listing.render,
        .write (Path.join directory settings.multiply.headerFile) family.table.render,
        .say ⟨.info, "ilp_gen",
          s!"Generated {family.maxWidth} ILP functions for {target.name} (unroll {family.unroll})"⟩]

end multiplies

def wrote (path content : String) : Message :=
  ⟨.info, "ubgen::codegen::output", s!"Wrote {path} ({content.utf8ByteSize} bytes)"⟩

structure Progress where
  disk : Disk
  messages : List Message
  error : Option RunError

def perform : List Step → Disk → Progress
  | [], disk => ⟨disk, [], none⟩
  | .say message :: rest, disk =>
    let later := perform rest disk
    { later with messages := message :: later.messages }
  | .makeDirectory path :: rest, disk =>
    match disk.makeDirectories path with
    | (made, none) => perform rest made
    | (made, some fault) => ⟨made, [], some (.directory path fault)⟩
  | .write path content :: rest, disk =>
    match disk.replaceFile path content with
    | (written, none) =>
      let later := perform rest written
      { later with messages := wrote path content :: later.messages }
    | (left, some fault) => ⟨left, [], some (.file path fault)⟩
  | .fail error :: _, disk => ⟨disk, [], some error⟩

end Microbench.Run
