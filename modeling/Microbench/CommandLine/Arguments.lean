import Microbench.CommandLine.Options
import Microbench.Settings.Basic
/-! What the two programs can be told, and how that overrides the settings. -/
namespace Microbench.CommandLine

def once {α β : Type} (held : Option β) (value : Option β) (keep : β → α) : Option α :=
  if held.isSome then none else value.map keep

def filled (text : String) : Option String := if text.isEmpty then none else some text

def architecture? (name : String) : Option Architecture := (Architecture.parse name).toOption

def helpAndVersion (α : Type) : List (Switch α) :=
  [⟨"help", some 'h', .stop .help⟩, ⟨"version", some 'V', .stop .version⟩]

structure Shared where
  directory : Option String := none
  architecture : Option Architecture := none
  settings : Option String := none
  verbose : Bool := false
deriving DecidableEq

namespace Shared

def switches {α : Type} (get : α → Shared) (put : Shared → α → α) : List (Switch α) :=
  [⟨"output-dir", some 'o', .value fun text given =>
      once (get given).directory (filled text) fun path =>
        put { get given with directory := some path } given⟩,
    ⟨"target", some 't', .value fun text given =>
      once (get given).architecture (architecture? text) fun architecture =>
        put { get given with architecture := some architecture } given⟩,
    ⟨"config", some 'c', .value fun text given =>
      once (get given).settings (filled text) fun path =>
        put { get given with settings := some path } given⟩,
    ⟨"verbose", some 'v', .flag fun given =>
      if (get given).verbose then none else some (put { get given with verbose := true } given)⟩]

def override (shared : Shared) (settings : Settings) : Settings :=
  { settings with
    target := { settings.target with
      architecture := shared.architecture.getD settings.target.architecture }
    output := { settings.output with
      directory := shared.directory.getD settings.output.directory } }

end Shared

structure CycleArguments where
  shared : Shared := {}
  exponent : Option Nat := none
  seed : Option UInt64 := none
  header : Bool := false
deriving DecidableEq

namespace CycleArguments

def options : OptionTable CycleArguments where
  switches :=
    Shared.switches (·.shared) (fun shared given => { given with shared }) ++
    [⟨"seed", none, .value fun text given =>
        once given.seed ((unsigned? UInt64.size text).map UInt64.ofNat) fun seed =>
          { given with seed := some seed }⟩,
      ⟨"header", none, .flag fun given =>
        if given.header then none else some { given with header := true }⟩] ++
    helpAndVersion CycleArguments
  positional text given :=
    once given.exponent (signedBelow? UInt32.size text) fun exponent =>
      { given with exponent := some exponent }

def read (arguments : List String) : Except Stop CycleArguments := options.read arguments {}

def override (given : CycleArguments) (settings : Settings) : Settings :=
  let settings := given.shared.override settings
  { settings with
    cycle := { settings.cycle with
      exponent := (given.exponent.map UInt32.ofNat).getD settings.cycle.exponent
      header := given.header || settings.cycle.header } }

end CycleArguments

structure MultiplyArguments where
  shared : Shared := {}
  maxWidth : Option UInt64 := none
  unroll : Option UInt32 := none
deriving DecidableEq

namespace MultiplyArguments

def options : OptionTable MultiplyArguments where
  switches :=
    Shared.switches (·.shared) (fun shared given => { given with shared }) ++
    [⟨"max-width", some 'k', .value fun text given =>
        once given.maxWidth ((unsigned? UInt64.size text).map UInt64.ofNat) fun width =>
          { given with maxWidth := some width }⟩,
      ⟨"unroll", some 'u', .value fun text given =>
        once given.unroll ((signedBelow? UInt32.size text).map UInt32.ofNat) fun unroll =>
          { given with unroll := some unroll }⟩] ++
    helpAndVersion MultiplyArguments
  positional _ _ := none

def read (arguments : List String) : Except Stop MultiplyArguments := options.read arguments {}

def override (given : MultiplyArguments) (settings : Settings) : Settings :=
  let settings := given.shared.override settings
  { settings with
    multiply := { settings.multiply with
      maxWidth := given.maxWidth.getD settings.multiply.maxWidth
      unroll := given.unroll.getD settings.multiply.unroll } }

end MultiplyArguments

end Microbench.CommandLine
