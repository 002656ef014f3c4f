/-!
Reading a command line by a table of options, from left to right into a record.

The first argument that is wrong, or that asks for help or the version, decides. An option
takes its value from the same argument (`--name=value`, `-nvalue`, `-n=value`) or from the
next one, unless that looks like an option itself.
-/
namespace Microbench.CommandLine

inductive Stop where
  | usage
  | help
  | version
deriving DecidableEq

/-- What an option does to the record of what was given. Giving a thing twice, or giving a
value that cannot be read, has no result. -/
inductive Action (α : Type) where
  | flag (set : α → Option α)
  | value (set : String → α → Option α)
  | stop (stop : Stop)

structure Switch (α : Type) where
  long : String
  short : Option Char
  action : Action α

structure OptionTable (α : Type) where
  switches : List (Switch α)
  positional : String → α → Option α

inductive Reading (α : Type) where
  | done (given : α)
  | awaiting (set : String → Option α)

namespace OptionTable

variable {α : Type}

def orUsage : Option α → Except Stop α
  | some given => .ok given
  | none => .error .usage

def looksLikeOption (argument : String) : Bool :=
  argument.toList.head? == some '-' && argument != "-"

def readLong (options : OptionTable α) (text : List Char) (given : α) : Except Stop (Reading α) :=
  let name := String.ofList (text.takeWhile (· != '='))
  let attached := match text.dropWhile (· != '=') with
    | _ :: value => some (String.ofList value)
    | [] => none
  match options.switches.find? (·.long == name) with
  | none => .error .usage
  | some switch =>
    match switch.action, attached with
    | .flag set, none => (orUsage (set given)).map .done
    | .stop stop, none => .error stop
    | .value set, some value => (orUsage (set value given)).map .done
    | .value set, none => .ok (.awaiting (set · given))
    | _, some _ => .error .usage

/-- Short options, behind their dash. The first that takes a value takes the rest. -/
def readShort (options : OptionTable α) : List Char → α → Except Stop (Reading α)
  | [], given => .ok (.done given)
  | name :: rest, given =>
    match options.switches.find? (·.short == some name) with
    | none => .error .usage
    | some switch =>
      match switch.action with
      | .stop stop => .error stop
      | .flag set =>
        match set given with
        | some given => readShort options rest given
        | none => .error .usage
      | .value set =>
        match rest with
        | [] => .ok (.awaiting (set · given))
        | '=' :: value => (orUsage (set (String.ofList value) given)).map .done
        | value => (orUsage (set (String.ofList value) given)).map .done

def readArgument (options : OptionTable α) (argument : String) (given : α) :
    Except Stop (Reading α) :=
  match argument.toList with
  | '-' :: '-' :: text => readLong options text given
  | ['-'] => (orUsage (options.positional argument given)).map .done
  | '-' :: text => readShort options text given
  | _ => (orUsage (options.positional argument given)).map .done

def readPositionals (options : OptionTable α) : List String → α → Except Stop α
  | [], given => .ok given
  | argument :: rest, given =>
    match options.positional argument given with
    | some given => readPositionals options rest given
    | none => .error .usage

def read (options : OptionTable α) : List String → α → Except Stop α
  | [], given => .ok given
  | "--" :: rest, given => readPositionals options rest given
  | argument :: rest, given =>
    match readArgument options argument given with
    | .error stop => .error stop
    | .ok (.done given) => read options rest given
    | .ok (.awaiting set) =>
      match rest with
      | [] => .error .usage
      | value :: rest =>
        if looksLikeOption value then .error .usage
        else match set value with
          | some given => read options rest given
          | none => .error .usage

end OptionTable

section numbers

def digits? (text : List Char) : Option Nat :=
  if !text.isEmpty && text.all Char.isDigit then
    some (text.foldl (fun value c => value * 10 + (c.toNat - '0'.toNat)) 0)
  else none

def below (bound value : Nat) : Option Nat := if value < bound then some value else none

def unsigned? (bound : Nat) (text : String) : Option Nat := do
  match text.toList with
  | '+' :: rest => below bound (← digits? rest)
  | rest => below bound (← digits? rest)

/-- As `unsigned?`, but nought may have a minus sign too. -/
def signedBelow? (bound : Nat) (text : String) : Option Nat := do
  match text.toList with
  | '-' :: rest => below 1 (← digits? rest)
  | _ => unsigned? bound text

end numbers

end Microbench.CommandLine
