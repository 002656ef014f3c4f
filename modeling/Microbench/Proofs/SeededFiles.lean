import Microbench.Proofs.ChainReader
import Microbench.Proofs.RunOutputs
/-!
What a seed decides.

Chains are drawn for sizes in turn, all from one stream. A refused size draws nothing, and what a
draw leaves of the stream does not depend on the target or the names. So the files for some sizes
show the same chains whatever they are written for, refused sizes can be left out, and more sizes
at the end change none of the files before them.
-/
namespace Microbench

namespace Random

variable {α β : Type} (draw : Nat → Stream → α × Stream)

/-- What is drawn for sizes in turn, all from one stream, and what is left of it. -/
def inTurn : List Nat → Stream → List α × Stream
  | [], stream => ([], stream)
  | size :: rest, stream =>
    let first := draw size stream
    let others := inTurn rest first.2
    (first.1 :: others.1, others.2)

theorem inTurn_append (front back : List Nat) (stream : Stream) :
    (inTurn draw (front ++ back) stream).1 =
      (inTurn draw front stream).1 ++ (inTurn draw back (inTurn draw front stream).2).1 := by
  induction front generalizing stream with
  | nil => rfl
  | cons size front ih => exact congrArg (List.cons _) (ih (draw size stream).2)

/-- Sizes that draw nothing can be left out of the turn. -/
theorem inTurn_filter (keep : Nat → Bool) (kept : α → Bool)
    (marks : ∀ size stream, kept (draw size stream).1 = keep size)
    (spares : ∀ size stream, keep size = false → (draw size stream).2 = stream)
    (sizes : List Nat) (stream : Stream) :
    (inTurn draw (sizes.filter keep) stream).1 = (inTurn draw sizes stream).1.filter kept := by
  induction sizes generalizing stream with
  | nil => rfl
  | cons size rest ih =>
      have mark := marks size stream
      rw [inTurn]
      cases wanted : keep size with
      | true =>
          rw [wanted] at mark
          rw [List.filter_cons_of_pos wanted, List.filter_cons_of_pos mark, inTurn, ih]
      | false =>
          rw [wanted] at mark
          rw [List.filter_cons_of_neg (by simp [wanted]), List.filter_cons_of_neg (by simp [mark]),
            ih, spares size stream wanted]

theorem inTurn_each (holds : Nat → α → Prop)
    (each : ∀ size stream, holds size (draw size stream).1) (sizes : List Nat) (stream : Stream) :
    List.Forall₂ holds sizes (inTurn draw sizes stream).1 := by
  induction sizes generalizing stream with
  | nil => exact .nil
  | cons size rest ih => exact .cons (each size stream) (ih (draw size stream).2)

/-- Draws that leave the same of every stream stay in step. -/
theorem inTurn_related (other : Nat → Stream → β × Stream) (related : α → β → Prop)
    (each : ∀ size stream, related (draw size stream).1 (other size stream).1)
    (step : ∀ size stream, (draw size stream).2 = (other size stream).2)
    (sizes : List Nat) (stream : Stream) :
    List.Forall₂ related (inTurn draw sizes stream).1 (inTurn other sizes stream).1 := by
  induction sizes generalizing stream with
  | nil => exact .nil
  | cons size rest ih =>
      refine .cons (each size stream) ?_
      rw [← step size stream]
      exact ih (draw size stream).2

end Random

def Chain.inTurn (sizes : List Nat) (stream : Random.Stream) : List (Except Chain.Refusal Chain) :=
  (Random.inTurn Chain.random sizes stream).1

namespace CycleFamily

def drawFile (family : CycleFamily) (size : Nat) (stream : Random.Stream) :
    Except GenerationError Listing × Random.Stream :=
  let drawn := family.generate size stream
  (drawn.1.map family.listing, drawn.2)

def drawFiles (family : CycleFamily) (sizes : List Nat) (stream : Random.Stream) :
    List (Except GenerationError Listing) :=
  (Random.inTurn family.drawFile sizes stream).1

/-- A draw reports its refusal, or it gives a file with one routine, in whose lines a reader finds
the successor of every label. -/
def Shows (family : CycleFamily) :
    Except Chain.Refusal Chain → Except GenerationError Listing → Prop
  | .error refusal, file => file = .error (.ofRefusal refusal)
  | .ok chain, file => ∃ routine, file = .ok ⟨family.target.fileHeader, [routine]⟩ ∧
      routine.name = family.symbol chain.size ∧ ∀ label, label < chain.size →
        family.target.leadsTo? routine.lines (cycleLabel label) =
          some (cycleLabel (chain.next label))

section draws

variable (family : CycleFamily) (size : Nat) (stream : Random.Stream)

theorem generate_refused (fault : SizeFault) (refused : sizeFault? size = some fault) :
    family.generate size stream = (.error (.size fault), stream) := by
  rw [generate, Chain.random_refused size stream fault refused]
  rfl

theorem drawFile_step : (Chain.random size stream).2 = (family.drawFile size stream).2 := by
  cases found : sizeFault? size with
  | some fault =>
      rw [drawFile, family.generate_refused size stream fault found,
        Chain.random_refused size stream fault found]
  | none =>
      obtain ⟨chain, rest, drawn, _, _, made⟩ := family.generated_over_random size found stream
      rw [drawFile, drawn, made]

theorem drawFile_shows :
    family.Shows (Chain.random size stream).1 (family.drawFile size stream).1 := by
  cases found : sizeFault? size with
  | some fault =>
      rw [drawFile, family.generate_refused size stream fault found,
        Chain.random_refused size stream fault found]
      rfl
  | none =>
      obtain ⟨chain, rest, drawn, full, _, made⟩ := family.generated_over_random size found stream
      rw [drawFile, drawn, made]
      exact ⟨_, rfl, full ▸ rfl, family.statements_lead chain⟩

theorem drawFile_marks :
    (family.drawFile size stream).1.toOption.isSome = (sizeFault? size).isNone := by
  cases found : sizeFault? size with
  | some fault =>
      rw [drawFile, family.generate_refused size stream fault found]
      rfl
  | none =>
      obtain ⟨chain, rest, _, _, _, made⟩ := family.generated_over_random size found stream
      rw [drawFile, made]
      rfl

theorem drawFile_spares (refused : (sizeFault? size).isNone = false) :
    (family.drawFile size stream).2 = stream := by
  obtain ⟨fault, found⟩ := Option.isSome_iff_exists.mp (Option.isNone_eq_false_iff.mp refused)
  rw [drawFile, family.generate_refused size stream fault found]

end draws

section files

variable (family : CycleFamily) (stream : Random.Stream)

theorem drawFiles_append (front back : List Nat) :
    family.drawFiles front stream <+: family.drawFiles (front ++ back) stream :=
  ⟨_, (Random.inTurn_append family.drawFile front back stream).symm⟩

/-- The files of accepted sizes are the listings of the routines that are drawn for them. -/
theorem draws_drawFiles {stream : Random.Stream} {sizes : List Nat} {routines : List Routine}
    (draws : family.Draws stream sizes routines) :
    family.drawFiles sizes stream = routines.map fun routine => .ok (family.listing routine) := by
  induction draws with
  | nil stream => rfl
  | @cons stream rest size routine sizes routines first others ih =>
      have file : family.drawFile size stream = (.ok (family.listing routine), rest) := by
        rw [drawFile, first]
        rfl
      rw [List.map_cons, ← ih, drawFiles, Random.inTurn, file]
      rfl

theorem listings_injective : Function.Injective fun routine : Routine =>
    (.ok (family.listing routine) : Except GenerationError Listing) := by
  intro first second same
  have routines := congrArg Listing.routines (Except.ok.inj same)
  exact List.singleton_inj.mp routines

theorem draws_unique {stream : Random.Stream} {sizes : List Nat} {first second : List Routine}
    (draws : family.Draws stream sizes first) (again : family.Draws stream sizes second) :
    first = second := by
  apply List.map_injective_iff.mpr family.listings_injective
  exact (family.draws_drawFiles draws).symm.trans (family.draws_drawFiles again)

theorem draws_length {stream : Random.Stream} {sizes : List Nat} {routines : List Routine}
    (draws : family.Draws stream sizes routines) : sizes.length = routines.length := by
  induction draws with
  | nil stream => rfl
  | cons first others ih => exact congrArg (· + 1) ih

/-- The routines of the first sizes are the same ones, and so are their files. -/
theorem files_begin_alike (name : Nat → String) {stream : Random.Stream} {sizes later : List Nat}
    {routines all : List Routine} (draws : family.Draws stream sizes routines)
    (longer : family.Draws stream (sizes ++ later) all) : ∃ more,
      family.files name (sizes ++ later) all = family.files name sizes routines ++ more := by
  obtain ⟨_, begins⟩ := family.drawFiles_append stream sizes later
  rw [family.draws_drawFiles draws, family.draws_drawFiles longer] at begins
  obtain ⟨first, rest, rfl, same, _⟩ := List.map_eq_append_iff.mp begins.symm
  have equal := List.map_injective_iff.mpr family.listings_injective same
  rw [files, files, equal, List.zipWith_append (family.draws_length draws)]
  exact ⟨_, rfl⟩

theorem files_names (name : Nat → String) {stream : Random.Stream} {sizes : List Nat}
    {routines : List Routine} (draws : family.Draws stream sizes routines) :
    (family.files name sizes routines).map Prod.fst = sizes.map name := by
  induction draws with
  | nil stream => rfl
  | cons first others ih => exact congrArg (List.cons _) ih

end files

end CycleFamily

namespace Run
open CommandLine

def withExponent (settings : Settings) (exponent : UInt32) : Settings :=
  { settings with cycle := { settings.cycle with exponent } }

/-- A run of the program for cycle routines that was understood and whose parameters are in order. -/
structure CycleRun where
  arguments : List String
  disk : Disk
  chance : UInt64
  given : CycleArguments
  found : Settings
  understood : Program.cycles.read arguments = .ok (.cycles given)
  resolved : Settings.resolve disk given.shared.settings = .ok found
  inOrder : Request.InOrder found (.cycles given)

namespace CycleRun

def settings (run : CycleRun) : Settings := run.given.override run.found

def outcome (run : CycleRun) : Outcome := Program.cycles.run run.arguments run.disk run.chance

def Promises (run : CycleRun) (directory : String) (files : List (String × String)) : Prop :=
  Request.Promises run.found run.chance directory files (.cycles run.given)

structure Extends (short long : CycleRun) : Prop where
  seeded : ∃ seed, short.given.seed = some seed ∧ long.given.seed = some seed
  settings : long.settings = withExponent short.settings long.settings.cycle.exponent
  larger : short.settings.cycle.exponent ≤ long.settings.cycle.exponent

/-- A file that a successful run was asked for is complete in the end, unless one of the files
that come later leads to its place. -/
def Keeps (run : CycleRun) (directory : String) (file : String × String)
    (late : List (String × String)) : Prop :=
  run.outcome.ending.exitCode = 0 →
    (∀ later ∈ late, run.outcome.disk.locate (Path.join directory later.1) ≠
      run.outcome.disk.locate (Path.join directory file.1)) →
    run.outcome.disk.read (Path.join directory file.1) = .ok file.2.toUTF8

structure Shares (short long : CycleRun) (directory : String)
    (files more more' : List (String × String)) : Prop where
  named : files.map Prod.fst =
    ((List.range' 2 (short.settings.cycle.exponent.toNat - 1)).map (2 ^ ·)).map
      short.settings.cycle.fileName
  first : short.Promises directory (files ++ more)
  second : long.Promises directory (files ++ more')
  kept : ∀ early file late, files = early ++ file :: late →
    short.Keeps directory file (late ++ more) ∧ long.Keeps directory file (late ++ more')

variable (run : CycleRun)

theorem promises_iff (directory : String) (files : List (String × String)) :
    run.Promises directory files ↔
      let exponent := run.settings.cycle.exponent.toNat
      let sizes := (List.range' 2 (exponent - 1)).map (2 ^ ·)
      directory = run.settings.output.directory ∧ (2 ≤ exponent ∧ exponent ≤ 20) ∧
      ∃ target routines, run.settings.buildTarget = .ok target ∧
        let family : CycleFamily := ⟨target, run.settings.cycle.symbolStart⟩
        family.Draws (Random.Stream.ofSeed (run.given.seed.getD run.chance)) sizes routines ∧
        files = family.files run.settings.cycle.fileName sizes routines ++
          if run.settings.cycle.header then
            [(run.settings.cycle.headerFile, (family.table sizes).render)]
          else [] := Iff.rfl

theorem promises_named {directory : String} {files : List (String × String)}
    (promises : run.Promises directory files) : directory = run.settings.output.directory ∧
      files.map Prod.fst =
        ((List.range' 2 (run.settings.cycle.exponent.toNat - 1)).map (2 ^ ·)).map
            run.settings.cycle.fileName ++
          if run.settings.cycle.header then [run.settings.cycle.headerFile] else [] := by
  obtain ⟨placed, _, target, routines, _, draws, rfl⟩ := (run.promises_iff _ _).mp promises
  refine ⟨placed, ?_⟩
  rw [List.map_append, CycleFamily.files_names _ _ draws]
  split <;> rfl

theorem promises_unique {directory directory' : String} {files files' : List (String × String)}
    (promises : run.Promises directory files) (again : run.Promises directory' files') :
    directory = directory' ∧ files = files' := by
  obtain ⟨rfl, _, target, routines, built, draws, rfl⟩ := (run.promises_iff _ _).mp promises
  obtain ⟨rfl, _, target', routines', built', draws', rfl⟩ := (run.promises_iff _ _).mp again
  cases built.symm.trans built'
  cases CycleFamily.draws_unique _ draws draws'
  exact ⟨rfl, rfl⟩

theorem keeps {directory : String} {early late : List (String × String)} {file : String × String}
    (promises : run.Promises directory (early ++ file :: late)) :
    run.Keeps directory file late := by
  intro succeeded alone
  rcases run_done succeeded with ⟨stop, stopped, _⟩ |
    ⟨request, found, place, files, understood, resolved, promised, leaves⟩
  · rw [run.understood] at stopped
    cases stopped
  · cases run.understood.symm.trans understood
    cases run.resolved.symm.trans resolved
    obtain ⟨rfl, rfl⟩ := run.promises_unique promises promised
    exact placed_alone leaves early file late rfl alone

theorem sizes_extend {small large : Nat} (order : small ≤ large) : ∃ more,
    (List.range' 2 (large - 1)).map (2 ^ ·) = (List.range' 2 (small - 1)).map (2 ^ ·) ++ more := by
  have count : large - 1 = small - 1 + (large - 1 - (small - 1)) := by omega
  rw [count, ← List.range'_append_1, List.map_append]
  exact ⟨_, rfl⟩

theorem extends_shares (short long : CycleRun) (further : short.Extends long) :
    ∃ directory files more more', short.Shares long directory files more more' := by
  obtain ⟨⟨seed, seeded, seeded'⟩, settings, larger⟩ := further
  obtain ⟨_, directory, files, _, promises, _⟩ :=
    plan_of_inOrder _ short.found short.chance short.inOrder
  obtain ⟨_, directory', files', _, promises', _⟩ :=
    plan_of_inOrder _ long.found long.chance long.inOrder
  obtain ⟨placed, _, target, routines, built, draws, listed⟩ := (short.promises_iff _ _).mp promises
  have second := (long.promises_iff _ _).mp promises'
  obtain ⟨later, extended⟩ := sizes_extend (UInt32.le_iff_toNat_le.mp larger)
  -- the second run has the settings of the first, with more sizes behind those of the first
  rw [settings, seeded'] at second
  simp only [withExponent, extended] at second
  obtain ⟨placed', _, target', all, built', draws', listed'⟩ := second
  cases built.symm.trans built'
  rw [seeded] at draws
  obtain ⟨more, begins⟩ :=
    CycleFamily.files_begin_alike _ short.settings.cycle.fileName draws draws'
  have named := CycleFamily.files_names _ short.settings.cycle.fileName draws
  generalize CycleFamily.files _ _ _ routines = shared at listed begins named
  replace listed' := listed'.trans ((congrArg (· ++ _) begins).trans (List.append_assoc ..))
  rw [listed, placed] at promises
  rw [listed', placed'] at promises'
  refine ⟨_, shared, _, _, named, promises, promises', ?_⟩
  intro early file late split
  rw [split, List.append_assoc, List.cons_append] at promises promises'
  exact ⟨short.keeps promises, long.keeps promises'⟩

end CycleRun

end Run

section agreement

theorem inTurn_accepted (sizes : List Nat) (stream : Random.Stream) :
    List.Forall₂ (fun size result => match sizeFault? size with
      | none => ∃ chain, result = .ok chain ∧ chain.size = size ∧ chain.SingleCycle
      | some fault => result = .error (.size fault)) sizes (Chain.inTurn sizes stream) := by
  apply Random.inTurn_each
  intro size stream
  split
  · next accepted =>
      obtain ⟨chain, made, full, follows⟩ :=
        Chain.ofSwaps_follows size (Random.drawSwaps size stream).1 accepted
      rw [Chain.random_drawn size stream accepted]
      exact ⟨chain, made, full, Chain.single_of_follows chain _ follows⟩
  · next fault refused => rw [Chain.random_refused size stream fault refused]

/-- The chains that are drawn for sizes in turn depend on the seed and the sizes only, and every
family of routines shows them in its files. Leaving out the refused sizes leaves out their errors
and nothing else, and more sizes add files at the end. So two runs with one seed and one
configuration are asked for the same files of all sizes that both of them have. -/
theorem seeded_files_agree (seed : UInt64) (sizes : List Nat) :
    (List.Forall₂ (fun size result => match sizeFault? size with
      | none => ∃ chain, result = .ok chain ∧ chain.size = size ∧ chain.SingleCycle
      | some fault => result = .error (.size fault)) sizes (Chain.inTurn sizes (.ofSeed seed))) ∧
    (∀ family : CycleFamily,
      List.Forall₂ family.Shows (Chain.inTurn sizes (.ofSeed seed))
        (family.drawFiles sizes (.ofSeed seed)) ∧
      family.drawFiles (sizes.filter fun size => (sizeFault? size).isNone) (.ofSeed seed) =
        (family.drawFiles sizes (.ofSeed seed)).filter (·.toOption.isSome) ∧
      ∀ more, family.drawFiles sizes (.ofSeed seed) <+:
        family.drawFiles (sizes ++ more) (.ofSeed seed)) ∧
    ∀ short long : Run.CycleRun, short.Extends long →
      ∃ directory files more more', short.Shares long directory files more more' := by
  refine ⟨inTurn_accepted sizes _, fun family => ⟨?_, ?_, ?_⟩, Run.CycleRun.extends_shares⟩
  · exact Random.inTurn_related Chain.random family.drawFile family.Shows family.drawFile_shows
      family.drawFile_step sizes _
  · exact Random.inTurn_filter family.drawFile _ _ family.drawFile_marks family.drawFile_spares
      sizes _
  · exact family.drawFiles_append _ sizes

def seededRun (exponent : String) (power : Nat)
    (understood : Run.Program.cycles.read [exponent, "--seed", "1"] =
      .ok (.cycles { exponent := some power, seed := some 1 }))
    (bounded : 2 ≤ (UInt32.ofNat power).toNat ∧ (UInt32.ofNat power).toNat ≤ 20) :
    Run.CycleRun where
  arguments := [exponent, "--seed", "1"]
  disk := {}
  chance := 0
  given := { exponent := some power, seed := some 1 }
  found := {}
  understood := understood
  resolved := show Settings.resolve {} none = .ok {} by decide
  inOrder := ⟨bounded, (Target.build_withPool .mips32 none (Target.stock .mips32) rfl).2⟩

/-- The file of size 4 is the same whether or not one of size 8 comes behind it. -/
theorem seeded_files_agree_small :
    let short := seededRun "2" 2 (by decide) (by decide)
    let long := seededRun "3" 3 (by decide) (by decide)
    short.Extends long ∧ ∃ text, short.outcome.disk.read "./cycle_4.s" = .ok text ∧
      long.outcome.disk.read "./cycle_4.s" = .ok text := by
  intro short long
  have further : short.Extends long := ⟨⟨1, rfl, rfl⟩, rfl, by decide⟩
  obtain ⟨_, _, agree⟩ := seeded_files_agree 1 [4]
  obtain ⟨directory, files, more, more', shares⟩ := agree short long further
  obtain ⟨⟨_, text⟩, rfl, name⟩ := List.map_eq_singleton_iff.mp shares.named
  obtain rfl : _ = "cycle_4.s" := name
  obtain ⟨rfl, first⟩ := short.promises_named shares.first
  obtain ⟨_, second⟩ := long.promises_named shares.second
  rw [List.map_append, List.map_singleton] at first second
  obtain rfl := List.map_eq_nil_iff.mp (List.append_cancel_left first)
  have behind : more'.map Prod.fst = ["cycle_8.s"] := List.append_cancel_left second
  obtain ⟨⟨_, other⟩, rfl, rfl⟩ := List.map_eq_singleton_iff.mp behind
  obtain ⟨complete, complete'⟩ := shares.kept [] ("cycle_4.s", text) [] rfl
  have path : Path.join "." "cycle_4.s" = "./cycle_4.s" := by decide
  have apart : long.outcome.disk.locate (Path.join "." "cycle_8.s") ≠
      long.outcome.disk.locate (Path.join "." "cycle_4.s") := by decide +kernel
  refine ⟨further, text.toUTF8, ?_, ?_⟩
  · rw [← path]
    exact complete (by decide +kernel) (by simp)
  · rw [← path]
    apply complete' (by decide +kernel)
    intro later member
    rw [List.mem_singleton.mp member]
    exact apart

end agreement

end Microbench
