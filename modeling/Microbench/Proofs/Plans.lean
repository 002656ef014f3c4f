import Microbench.Proofs.Headers
import Microbench.Proofs.RunSteps
/-!
Plans are complete.

A plan is made when the parameters are in order and not otherwise. What was checked then is
all that generating the files can ask for, so no step of a plan stands for a file that could
not be generated. All files of a plan go to one directory, which is made before them.
-/
namespace Microbench

namespace CycleFamily

/-- One stream is drawn from for every size in turn. The routine of a size begins where that of
the size before has left off. -/
inductive Draws (family : CycleFamily) : Random.Stream → List Nat → List Routine → Prop where
  | nil (stream : Random.Stream) : Draws family stream [] []
  | cons {stream rest : Random.Stream} {size : Nat} {routine : Routine} {sizes : List Nat}
      {routines : List Routine} (first : family.generate size stream = (.ok routine, rest))
      (others : Draws family rest sizes routines) :
      Draws family stream (size :: sizes) (routine :: routines)

theorem draws_of_accepted (family : CycleFamily) (sizes : List Nat)
    (accepted : ∀ size ∈ sizes, sizeFault? size = none) (stream : Random.Stream) :
    ∃ routines, family.Draws stream sizes routines := by
  induction sizes generalizing stream with
  | nil => exact ⟨[], .nil stream⟩
  | cons size rest ih =>
      obtain ⟨routine, made, _⟩ :=
        family.generated size (accepted size List.mem_cons_self) stream
      obtain ⟨routines, others⟩ := ih
        (fun later member => accepted later (List.mem_cons_of_mem size member))
        (family.generate size stream).2
      exact ⟨routine :: routines, .cons (Prod.ext made rfl) others⟩

def files (family : CycleFamily) (name : Nat → String) (sizes : List Nat)
    (routines : List Routine) : List (String × String) :=
  sizes.zipWith (fun size routine => (name size, (family.listing routine).render)) routines

end CycleFamily

/-- The sizes that are allowed are the powers of two from 4 on, in their order. -/
theorem sizesForExponent_iff (exponent : Nat) (sizes : List Nat) :
    sizesForExponent exponent = .ok sizes ↔ (2 ≤ exponent ∧ exponent ≤ 20) ∧
      sizes = (List.range' 2 (exponent - 1)).map (2 ^ ·) := by
  have powers : (fun power => 1 <<< power) = fun power => 2 ^ power :=
    funext fun power => Nat.one_shiftLeft power
  have count : exponent + 1 - minExponent = exponent - 1 := by rw [minExponent]; omega
  unfold sizesForExponent sizesUpTo?
  rw [powers, count, minExponent, maxExponent]
  by_cases within : 2 ≤ exponent ∧ exponent ≤ 20
  · simp [within, eq_comm]
  · have refused : (decide (2 ≤ exponent) && decide (exponent ≤ 20)) = false := by
      simpa using within
    simp [refused, within]

theorem sizes_accepted {exponent : Nat} {sizes : List Nat}
    (allowed : sizesForExponent exponent = .ok sizes) :
    ∀ size ∈ sizes, sizeFault? size = none := by
  intro size member
  obtain ⟨bounded, _, powers⟩ := CycleFamily.sizes_powers exponent sizes allowed
  obtain ⟨power, least, most, rfl⟩ := (powers size).mp member
  exact (Chain.accepted_iff_power _).mpr ⟨power, least, Nat.le_trans most bounded, rfl⟩

namespace MultiplyFamily
open Target

theorem listing_produced (architecture : Architecture) (pool : List Reg) (maxWidth unroll : Nat)
    (start : String) (accepted : architecture.Accepts pool)
    (shaped : Shape.error? ⟨maxWidth, unroll⟩ (withPool architecture pool) = none) :
    ∃ listing, (⟨withPool architecture pool, maxWidth, unroll, start⟩ :
      MultiplyFamily).produce.listing = .ok listing := by
  let family : MultiplyFamily := ⟨withPool architecture pool, maxWidth, unroll, start⟩
  obtain ⟨made, complete, _⟩ := routines_complete family (fun _ _ => True) family.widths (by
    intro width member
    obtain ⟨least, most⟩ := List.mem_range'_1.mp member
    have narrower : width ≤ maxWidth := Nat.lt_succ_iff.mp (Nat.one_add maxWidth ▸ most)
    obtain ⟨routine, found, _⟩ := routine_loops architecture pool maxWidth unroll width start
      accepted (shape_narrower shaped least narrower)
    exact ⟨routine, found, trivial⟩)
  exact ⟨⟨family.target.fileHeader, made.map Prod.snd⟩, by simp only [family, produce, complete]⟩

end MultiplyFamily

namespace Run

def placed (directory : String) (files : List (String × String)) : List (String × String) :=
  files.map fun file => (Path.join directory file.1, file.2)

structure Plans (steps : List Step) (directory : String) (files : List (String × String)) :
    Prop where
  sound : ∀ error, Step.fail error ∉ steps
  directories : directories steps = [directory]
  outputs : outputs steps = placed directory files

section cycles

theorem cycleFiles_drawn (family : CycleFamily) (settings : Settings) {stream : Random.Stream}
    {sizes : List Nat} {routines : List Routine} (draws : family.Draws stream sizes routines) :
    (∀ error, Step.fail error ∉ cycleFiles family settings sizes stream) ∧
    directories (cycleFiles family settings sizes stream) = [] ∧
    outputs (cycleFiles family settings sizes stream) =
      placed settings.output.directory (family.files settings.cycle.fileName sizes routines) := by
  -- the steps of a size are those that its own draw stands for, and the rest of the stream goes on
  -- to the next
  induction draws with
  | nil stream => simp [cycleFiles, placed, CycleFamily.files]
  | cons first others ih =>
      obtain ⟨sound, bare, written⟩ := ih
      rw [cycleFiles, first]
      refine ⟨?_, bare, ?_⟩
      · intro error member
        simp only [List.mem_cons, reduceCtorEq, false_or] at member
        exact sound error member
      · exact congrArg (List.cons _) written

variable {settings : Settings} {target : Target}

theorem cyclePlan_steps {sizes : List Nat} (seed : Option UInt64) (chance : UInt64)
    (sized : sizesForExponent settings.cycle.exponent.toNat = .ok sizes)
    (built : settings.buildTarget = .ok target) : ∃ told closing : List Message,
      cyclePlan settings seed chance = .ok (told.map .say ++
        [.makeDirectory settings.output.directory] ++
        cycleFiles ⟨target, settings.cycle.symbolStart⟩ settings sizes
          (Random.Stream.ofSeed (seed.getD chance)) ++
        (if settings.cycle.header then
          [.write (Path.join settings.output.directory settings.cycle.headerFile)
            ((⟨target, settings.cycle.symbolStart⟩ : CycleFamily).table sizes).render]
        else []) ++ closing.map .say) := by
  -- what a plan says is left open here, as nothing is done by it
  simp only [cyclePlan, sized, built, Except.mapError, bind, Except.bind, pure, Except.pure]
  cases seed with
  | none => exact ⟨[], [_], rfl⟩
  | some seed => exact ⟨[_], [_], rfl⟩

theorem cyclePlan_plans (settings : Settings) {sizes : List Nat} (seed : Option UInt64) (chance : UInt64)
    (sized : sizesForExponent settings.cycle.exponent.toNat = .ok sizes)
    (built : settings.buildTarget = .ok target) :
    ∃ steps routines, cyclePlan settings seed chance = .ok steps ∧
      (⟨target, settings.cycle.symbolStart⟩ : CycleFamily).Draws
        (Random.Stream.ofSeed (seed.getD chance)) sizes routines ∧
      Plans steps settings.output.directory
        ((⟨target, settings.cycle.symbolStart⟩ : CycleFamily).files settings.cycle.fileName sizes
            routines ++
          if settings.cycle.header then [(settings.cycle.headerFile,
            ((⟨target, settings.cycle.symbolStart⟩ : CycleFamily).table sizes).render)]
          else []) := by
  obtain ⟨told, closing, planned⟩ := cyclePlan_steps seed chance sized built
  generalize (⟨target, settings.cycle.symbolStart⟩ : CycleFamily) = family at planned ⊢
  obtain ⟨routines, draws⟩ := family.draws_of_accepted sizes (sizes_accepted sized)
    (Random.Stream.ofSeed (seed.getD chance))
  obtain ⟨sound, bare, written⟩ := cycleFiles_drawn family settings draws
  refine ⟨_, routines, planned, draws, ?_⟩
  constructor
  case sound =>
    intro error
    cases headed : settings.cycle.header <;> simp [sound error]
  case directories =>
    cases headed : settings.cycle.header <;> simp [bare]
  case outputs =>
    cases headed : settings.cycle.header <;> simp [written, placed]

end cycles

section multiplies

theorem multiplyPlan_steps {settings : Settings} {target : Target} {family : MultiplyFamily}
    {listing : Listing} (built : settings.buildTarget = .ok target)
    (created : MultiplyFamily.create target settings.multiply.maxWidth.toNat
      settings.multiply.unroll.toNat settings.multiply.symbolStart = .ok family)
    (produced : family.produce.listing = .ok listing) : ∃ told closing : List Message,
      multiplyPlan settings = .ok (told.map .say ++
        [.makeDirectory settings.output.directory,
          .write (Path.join settings.output.directory settings.multiply.asmFile) listing.render,
          .write (Path.join settings.output.directory settings.multiply.headerFile)
            family.table.render] ++ closing.map .say) := by
  simp only [multiplyPlan, built, created, produced, Except.mapError, bind, Except.bind, pure,
    Except.pure]
  exact ⟨family.produce.messages, [_], by rw [List.append_assoc]; rfl⟩

theorem multiplyPlan_plans (settings : Settings) {target : Target}
    (built : settings.buildTarget = .ok target)
    (shaped : Shape.error? ⟨settings.multiply.maxWidth.toNat, settings.multiply.unroll.toNat⟩
      target = none) :
    ∃ steps listing, multiplyPlan settings = .ok steps ∧
      (⟨target, settings.multiply.maxWidth.toNat, settings.multiply.unroll.toNat,
        settings.multiply.symbolStart⟩ : MultiplyFamily).produce.listing = .ok listing ∧
      Plans steps settings.output.directory
        [(settings.multiply.asmFile, listing.render),
          (settings.multiply.headerFile, (⟨target, settings.multiply.maxWidth.toNat,
            settings.multiply.unroll.toNat, settings.multiply.symbolStart⟩ :
              MultiplyFamily).table.render)] := by
  obtain ⟨same, accepted⟩ := Target.build_withPool _ _ target built
  subst same
  obtain ⟨listing, produced⟩ := MultiplyFamily.listing_produced _ _ _ _
    settings.multiply.symbolStart accepted shaped
  obtain ⟨told, closing, planned⟩ := multiplyPlan_steps built
    (by rw [MultiplyFamily.create, shaped]) produced
  refine ⟨_, listing, planned, produced, ?_⟩
  constructor
  case sound => simp
  case directories => simp
  case outputs => simp [placed]

end multiplies

end Run

end Microbench
