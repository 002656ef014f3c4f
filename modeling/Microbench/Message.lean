import Microbench.Text.Plain
/-! What a run reports while it works. Each message names the part of the program that speaks.
-/
namespace Microbench

inductive Level where
  | debug
  | info
deriving DecidableEq

def Level.name : Level → String
  | .debug => "DEBUG"
  | .info => "INFO"

structure Message where
  level : Level
  speaker : String
  text : String
deriving DecidableEq

namespace Message

def line (message : Message) : String :=
  message.level.name ++ " " ++ message.speaker ++ ": " ++ message.text

/-- The message as it is printed where no terminal reads it. Lines of the text behind the first
one are indented by four, so that a record begins only at the margin. -/
def printed (message : Message) : String :=
  let hanging := message.line.toList.flatMap fun c => if c = '\n' then "\n    ".toList else [c]
  String.ofList (Text.plain hanging)

def isHeard (verbose : Bool) (message : Message) : Bool :=
  verbose || message.level = .info

end Message

end Microbench
