import Microbench.Proofs.Plans
import Microbench.Run.Program
/-!
A run looks at its parameters before it touches a file.

Settings that cannot be found or read, an exponent, a pool, a width or an unroll factor out of
bounds end a run with the files as they were. Parameters that pass are all that the generators
ask for, so whatever fails later is an operation on files.
-/
namespace Microbench.Run
open CommandLine

def RunError.IsRefusal : RunError → Prop
  | .settings _ | .exponent _ | .target _ | .parameters _ => True
  | _ => False

def largestUnroll : Architecture → Nat
  | .mips32 => 32768
  | .aarch64 => 4095

/-- Whether the parameters of a run are within their bounds. Each is taken from the options
where they give it, and from the settings otherwise; the pool comes from the settings and
belongs to the architecture of the run. -/
def Request.InOrder (found : Settings) : Request → Prop
  | .cycles given =>
    let architecture := given.shared.architecture.getD found.target.architecture
    let exponent := ((given.exponent.map UInt32.ofNat).getD found.cycle.exponent).toNat
    (2 ≤ exponent ∧ exponent ≤ 20) ∧
      architecture.Accepts (found.target.pool?.getD architecture.stockAbi.accumulators)
  | .multiplies given =>
    let architecture := given.shared.architecture.getD found.target.architecture
    let pool := found.target.pool?.getD architecture.stockAbi.accumulators
    let width := (given.maxWidth.getD found.multiply.maxWidth).toNat
    let unroll := (given.unroll.getD found.multiply.unroll).toNat
    architecture.Accepts pool ∧ (1 ≤ unroll ∧ unroll ≤ largestUnroll architecture) ∧
      1 ≤ width ∧ width ≤ pool.length

/-- The files that a run is asked for, under their names in the directory that they go to.
Whatever an option does not give is taken from the settings, and a seed that is not given from
chance. -/
def Request.Promises (found : Settings) (chance : UInt64) (directory : String)
    (files : List (String × String)) : Request → Prop
  | .cycles given =>
    let architecture := given.shared.architecture.getD found.target.architecture
    let exponent := ((given.exponent.map UInt32.ofNat).getD found.cycle.exponent).toNat
    let sizes := (List.range' 2 (exponent - 1)).map (2 ^ ·)
    directory = given.shared.directory.getD found.output.directory ∧
    (2 ≤ exponent ∧ exponent ≤ 20) ∧
    ∃ target routines, Target.build architecture found.target.pool? = .ok target ∧
      let family : CycleFamily := ⟨target, found.cycle.symbolStart⟩
      family.Draws (Random.Stream.ofSeed (given.seed.getD chance)) sizes routines ∧
      files = family.files
          (fun size => found.cycle.fileStart ++ toString size ++ "." ++ found.cycle.extension)
          sizes routines ++
        if given.header || found.cycle.header then
          [(found.cycle.headerFile, (family.table sizes).render)]
        else []
  | .multiplies given =>
    let architecture := given.shared.architecture.getD found.target.architecture
    let width := (given.maxWidth.getD found.multiply.maxWidth).toNat
    let unroll := (given.unroll.getD found.multiply.unroll).toNat
    directory = given.shared.directory.getD found.output.directory ∧
    ∃ target listing, Target.build architecture found.target.pool? = .ok target ∧
      let family : MultiplyFamily := ⟨target, width, unroll, found.multiply.symbolStart⟩
      family.produce.listing = .ok listing ∧
      files = [(found.multiply.asmFile, listing.render),
        (found.multiply.headerFile, family.table.render)]

section plans

theorem buildTarget_cases (settings : Settings) :
    let architecture := settings.target.architecture
    let pool := settings.target.pool?.getD architecture.stockAbi.accumulators
    architecture.Accepts pool ∧ settings.buildTarget = .ok (Target.withPool architecture pool) ∨
      ¬ architecture.Accepts pool ∧ ∃ fault, settings.buildTarget = .error fault := by
  intro architecture pool
  by_cases accepted : architecture.Accepts pool
  · exact .inl ⟨accepted, Target.build_of_accepts architecture settings.target.pool? accepted⟩
  · cases built : settings.buildTarget with
    | error fault => exact .inr ⟨accepted, fault, rfl⟩
    | ok target => exact absurd (Target.build_withPool _ _ target built).2 accepted

theorem shape_error_none_iff (architecture : Architecture) (pool : List Reg) (width unroll : Nat) :
    Shape.error? ⟨width, unroll⟩ (Target.withPool architecture pool) = none ↔
      (1 ≤ unroll ∧ unroll ≤ largestUnroll architecture) ∧ 1 ≤ width ∧ width ≤ pool.length := by
  have bound : (Target.withPool architecture pool).maxDecrement = largestUnroll architecture := by
    cases architecture <;> rfl
  constructor
  · intro accepted
    have bounds := MultiplyFamily.shape_bounds accepted
    rwa [bound] at bounds
  · rintro ⟨⟨unrolled, encoded⟩, least, wide⟩
    rw [← bound] at encoded
    have few : width ≤ (Target.withPool architecture pool).abi.maxWidth := wide
    simp [Shape.error?, Nat.not_lt.mpr unrolled, Nat.not_lt.mpr encoded, Nat.not_lt.mpr least,
      Nat.not_lt.mpr few]

theorem cyclePlan_refused (settings : Settings) (seed : Option UInt64) (chance : UInt64)
    (refused : ¬ ((2 ≤ settings.cycle.exponent.toNat ∧ settings.cycle.exponent.toNat ≤ 20) ∧
      settings.target.architecture.Accepts
        (settings.target.pool?.getD settings.target.architecture.stockAbi.accumulators))) :
    ∃ error, cyclePlan settings seed chance = .error error ∧ error.IsRefusal := by
  cases sized : sizesForExponent settings.cycle.exponent.toNat with
  | error fault => exact ⟨.exponent fault, by simp [cyclePlan, sized, Except.mapError, bind,
      Except.bind], trivial⟩
  | ok sizes =>
      rcases buildTarget_cases settings with ⟨accepted, _⟩ | ⟨_, fault, built⟩
      · exact absurd ⟨((sizesForExponent_iff _ _).mp sized).1, accepted⟩ refused
      · exact ⟨.target fault, by simp [cyclePlan, sized, built, Except.mapError, bind,
          Except.bind], trivial⟩

theorem multiplyPlan_refused (settings : Settings)
    (refused : ¬ (settings.target.architecture.Accepts
        (settings.target.pool?.getD settings.target.architecture.stockAbi.accumulators) ∧
      (1 ≤ settings.multiply.unroll.toNat ∧
        settings.multiply.unroll.toNat ≤ largestUnroll settings.target.architecture) ∧
      1 ≤ settings.multiply.maxWidth.toNat ∧ settings.multiply.maxWidth.toNat ≤
        (settings.target.pool?.getD settings.target.architecture.stockAbi.accumulators).length)) :
    ∃ error, multiplyPlan settings = .error error ∧ error.IsRefusal := by
  rcases buildTarget_cases settings with ⟨accepted, built⟩ | ⟨_, fault, built⟩
  · cases shaped : Shape.error? ⟨settings.multiply.maxWidth.toNat,
        settings.multiply.unroll.toNat⟩ (Target.withPool settings.target.architecture
          (settings.target.pool?.getD settings.target.architecture.stockAbi.accumulators)) with
    | none => exact absurd ⟨accepted, (shape_error_none_iff _ _ _ _).mp shaped⟩ refused
    | some error => exact ⟨.parameters error, by simp [multiplyPlan, built, MultiplyFamily.create,
        shaped, Except.mapError, bind, Except.bind], trivial⟩
  · exact ⟨.target fault, by simp [multiplyPlan, built, Except.mapError, bind, Except.bind], trivial⟩

theorem plan_refused (request : Request) (found : Settings) (chance : UInt64)
    (refused : ¬ request.InOrder found) :
    ∃ error, request.plan found chance = .error error ∧ error.IsRefusal := by
  cases request with
  | cycles given => exact cyclePlan_refused (given.override found) given.seed chance refused
  | multiplies given => exact multiplyPlan_refused (given.override found) refused

theorem plan_of_inOrder (request : Request) (found : Settings) (chance : UInt64)
    (inOrder : request.InOrder found) :
    ∃ steps directory files, request.plan found chance = .ok steps ∧
      request.Promises found chance directory files ∧ Plans steps directory files := by
  cases request with
  | cycles given =>
      obtain ⟨bounded, accepted⟩ := inOrder
      have built := Target.build_of_accepts _ _ accepted
      obtain ⟨steps, routines, planned, drawn, plans⟩ := cyclePlan_plans (given.override found)
        given.seed chance ((sizesForExponent_iff _ _).mpr ⟨bounded, rfl⟩) built
      exact ⟨steps, _, _, planned, ⟨rfl, bounded, _, routines, built, drawn, rfl⟩, plans⟩
  | multiplies given =>
      obtain ⟨accepted, shaped⟩ := inOrder
      have built := Target.build_of_accepts _ _ accepted
      obtain ⟨steps, listing, planned, produced, plans⟩ :=
        multiplyPlan_plans (given.override found) built ((shape_error_none_iff _ _ _ _).mpr shaped)
      exact ⟨steps, _, _, planned, ⟨rfl, _, listing, built, produced, rfl⟩, plans⟩

end plans

section runs

variable {program : Program} {arguments : List String} {disk : Disk} {chance : UInt64}
  {request : Request} (understood : program.read arguments = .ok request)

include understood

theorem run_unresolved {error : SettingsError}
    (resolved : Settings.resolve disk request.shared.settings = .error error) :
    program.run arguments disk chance = ⟨.failed (.settings error), disk, [], ""⟩ := by
  simp only [Program.run, understood, resolved]

variable {found : Settings} (resolved : Settings.resolve disk request.shared.settings = .ok found)

include resolved

theorem run_refused {error : RunError} (planned : request.plan found chance = .error error) :
    program.run arguments disk chance = ⟨.failed error, disk, [], ""⟩ := by
  simp only [Program.run, understood, resolved, planned]

theorem run_planned {steps : List Step} (planned : request.plan found chance = .ok steps) :
    (program.run arguments disk chance).disk = (perform steps disk).disk ∧
      (program.run arguments disk chance).ending =
        ((perform steps disk).error.map Ending.failed).getD .done := by
  simp only [Program.run, understood, resolved, planned, true_and]
  cases (perform steps disk).error <;> rfl

omit resolved

variable (disk chance) in
/-- A run is refused with the disk as it was, or it takes the steps of a sound plan. -/
theorem run_cases : (∃ error, error.IsRefusal ∧
      program.run arguments disk chance = ⟨.failed error, disk, [], ""⟩) ∨
    ∃ found steps directory files, Settings.resolve disk request.shared.settings = .ok found ∧
      request.Promises found chance directory files ∧ Plans steps directory files ∧
      (program.run arguments disk chance).disk = (perform steps disk).disk ∧
      (program.run arguments disk chance).ending =
        ((perform steps disk).error.map Ending.failed).getD .done := by
  cases resolved : Settings.resolve disk request.shared.settings with
  | error error => exact .inl ⟨.settings error, trivial, run_unresolved understood resolved⟩
  | ok found =>
      by_cases inOrder : request.InOrder found
      · obtain ⟨steps, directory, files, planned, promises, plans⟩ :=
          plan_of_inOrder request found chance inOrder
        exact .inr ⟨found, steps, directory, files, rfl, promises, plans,
          run_planned understood resolved planned⟩
      · obtain ⟨error, planned, refusal⟩ := plan_refused request found chance inOrder
        exact .inl ⟨error, refusal, run_refused understood resolved planned⟩

end runs

section checks

/-- A run with unusable settings or a parameter out of bounds fails and leaves the disk as it
was. Otherwise its plan has a step for every file, and the run succeeds or fails for what it
meets on the disk. -/
theorem checks_precede_changes (program : Program) (arguments : List String) (disk : Disk)
    (chance : UInt64) (request : Request) (understood : program.read arguments = .ok request) :
    (∀ error, (program.run arguments disk chance).ending = .failed error → error.IsRefusal →
      (program.run arguments disk chance).disk = disk) ∧
    (∀ error, Settings.resolve disk request.shared.settings = .error error →
      (program.run arguments disk chance).ending = .failed (.settings error)) ∧
    ∀ found, Settings.resolve disk request.shared.settings = .ok found →
      (¬ request.InOrder found → ∃ error, error.IsRefusal ∧
        (program.run arguments disk chance).ending = .failed error) ∧
      (request.InOrder found →
        (∃ steps, request.plan found chance = .ok steps ∧ ∀ error, Step.fail error ∉ steps) ∧
        ((program.run arguments disk chance).ending = .done ∨
          ∃ error, error.IsFileFault ∧
            (program.run arguments disk chance).ending = .failed error)) := by
  refine ⟨?_, ?_, ?_⟩
  · intro error ended refusal
    rcases run_cases disk chance understood with
      ⟨_, _, outcome⟩ | ⟨_, steps, _, _, _, _, plans, _, ending⟩
    · rw [outcome]
    · rw [ended] at ending
      cases failed : (perform steps disk).error with
      | none => simp [failed] at ending
      | some stopped =>
          simp only [failed, Option.map_some, Option.getD_some, Ending.failed.injEq] at ending
          subst ending
          obtain ⟨_, _, rfl | rfl⟩ := perform_fileFault steps disk error plans.sound failed <;>
            exact refusal.elim
  · intro error resolved
    rw [run_unresolved understood resolved]
  · intro found resolved
    constructor
    · intro disorder
      obtain ⟨error, planned, refusal⟩ := plan_refused request found chance disorder
      exact ⟨error, refusal, by rw [run_refused understood resolved planned]⟩
    · intro inOrder
      obtain ⟨steps, _, _, planned, _, plans⟩ := plan_of_inOrder request found chance inOrder
      obtain ⟨_, ending⟩ := run_planned understood resolved planned
      refine ⟨⟨steps, planned, plans.sound⟩, ?_⟩
      cases failed : (perform steps disk).error with
      | none => exact .inl (by rw [ending, failed]; rfl)
      | some error =>
          exact .inr ⟨error, perform_fileFault steps disk error plans.sound failed, by
            rw [ending, failed]; rfl⟩

theorem checks_precede_changes_wide :
    Program.multiplies.read ["-k", "99"] = .ok (.multiplies { maxWidth := some 99 }) ∧
    (∃ error, error.IsRefusal ∧
      (Program.multiplies.run ["-k", "99"] {} 0).ending = .failed error) ∧
    (Program.multiplies.run ["-k", "99"] {} 0).disk = {} := by
  have understood : Program.multiplies.read ["-k", "99"] =
      .ok (.multiplies { maxWidth := some 99 }) := by decide
  have resolved : Settings.resolve {} none = .ok {} := by decide
  have disorder : ¬ Request.InOrder {} (.multiplies { maxWidth := some 99 }) := by
    rintro ⟨_, _, _, wide⟩
    exact absurd wide (by decide)
  obtain ⟨spares, _, checked⟩ := checks_precede_changes .multiplies ["-k", "99"] {} 0 _ understood
  obtain ⟨error, refusal, ended⟩ := (checked {} resolved).1 disorder
  exact ⟨understood, ⟨error, refusal, ended⟩, spares error ended refusal⟩

end checks

end Microbench.Run
