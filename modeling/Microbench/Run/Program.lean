import Microbench.Run.Plan
/-! The two programs as functions of their arguments and the tree of files they find. -/
namespace Microbench.Run

open CommandLine

inductive Program where
  | cycles
  | multiplies
deriving DecidableEq

def Program.name : Program → String
  | .cycles => "btb-cycle"
  | .multiplies => "ilp-gen"

def version : String := "0.1.0"

inductive Ending where
  | done
  | failed (error : RunError)
  | stopped (stop : Stop)
deriving DecidableEq

def Ending.exitCode : Ending → Nat
  | .done => 0
  | .failed _ => 1
  | .stopped .usage => 2
  | .stopped _ => 0

inductive Request where
  | cycles (given : CycleArguments)
  | multiplies (given : MultiplyArguments)
deriving DecidableEq

def Program.read (program : Program) (arguments : List String) : Except Stop Request :=
  match program with
  | .cycles => (CycleArguments.read arguments).map .cycles
  | .multiplies => (MultiplyArguments.read arguments).map .multiplies

def Request.shared : Request → Shared
  | .cycles given => given.shared
  | .multiplies given => given.shared

def Request.plan (found : Settings) (chance : UInt64) : Request → Except RunError (List Step)
  | .cycles given => cyclePlan (given.override found) given.seed chance
  | .multiplies given => multiplyPlan (given.override found)

def Program.usage : Program → String
  | .cycles => "Usage: btb-cycle [-o DIR] [-t TARGET] [-c FILE] [-v] [--seed SEED] [--header] " ++
      "[EXPONENT]"
  | .multiplies => "Usage: ilp-gen [-o DIR] [-t TARGET] [-c FILE] [-v] [-k WIDTH] [-u UNROLL]"

/-- What a run prints. The text of the help is no part of this. -/
def Program.output (program : Program) : Stop → String
  | .version => program.name ++ " " ++ version ++ "\n"
  | _ => ""

structure Outcome where
  ending : Ending
  disk : Disk
  messages : List Message
  output : String

def Program.run (program : Program) (arguments : List String) (disk : Disk) (chance : UInt64) :
    Outcome :=
  match program.read arguments with
  | .error stop => ⟨.stopped stop, disk, [], program.output stop⟩
  | .ok request =>
    match Settings.resolve disk request.shared.settings with
    | .error error => ⟨.failed (.settings error), disk, [], ""⟩
    | .ok found =>
      match request.plan found chance with
      | .error error => ⟨.failed error, disk, [], ""⟩
      | .ok steps =>
        let progress := perform steps disk
        let ending := match progress.error with
          | none => Ending.done
          | some error => .failed error
        let heard := progress.messages.filter (Message.isHeard request.shared.verbose)
        ⟨ending, progress.disk, heard, ""⟩

end Microbench.Run
