import Microbench.Proofs.DiskChanges
import Microbench.Run.Plan
/-!
What the steps of a plan leave on a disk.

A run takes the steps of its plan from the front and stops at the first that fails. What it
leaves depends only on the steps that were taken: at every place that an output leads to
stands the last output that leads there, and everything else is as it was, but for directories
on the way to where the outputs go.
-/
namespace Microbench.Run
open Disk (Passes Opens Replaces Makes Drops)

def outputs (steps : List Step) : List (String × String) :=
  steps.filterMap fun
    | .write path content => some (path, content)
    | _ => none

def directories (steps : List Step) : List String :=
  steps.filterMap fun
    | .makeDirectory path => some path
    | _ => none

section steps

variable (first second rest : List Step) (path content : String)

@[simp] theorem outputs_nil : outputs [] = [] := rfl

@[simp] theorem directories_nil : directories [] = [] := rfl

@[simp] theorem outputs_write :
    outputs (.write path content :: rest) = (path, content) :: outputs rest := rfl

@[simp] theorem directories_write :
    directories (.write path content :: rest) = directories rest := rfl

@[simp] theorem outputs_makeDirectory :
    outputs (.makeDirectory path :: rest) = outputs rest := rfl

@[simp] theorem directories_makeDirectory :
    directories (.makeDirectory path :: rest) = path :: directories rest := rfl

@[simp] theorem outputs_append : outputs (first ++ second) = outputs first ++ outputs second :=
  List.filterMap_append

@[simp] theorem directories_append :
    directories (first ++ second) = directories first ++ directories second :=
  List.filterMap_append

@[simp] theorem outputs_say (messages : List Message) : outputs (messages.map .say) = [] := by
  simp [outputs, List.filterMap_map]

@[simp] theorem directories_say (messages : List Message) :
    directories (messages.map .say) = [] := by
  simp [directories, List.filterMap_map]

end steps

def RunError.IsFileFault (error : RunError) : Prop :=
  ∃ path fault, error = .directory path fault ∨ error = .file path fault

def Step.Does : Step → Disk → Disk → Prop
  | .say _, before, after => after = before
  | .makeDirectory path, before, after => Opens before after [path]
  | .write path content, before, after => ∃ place, Replaces before after path content.toUTF8 place
  | .fail _, _, _ => False

/-- What is left when directories were made and files written. Places are told by where paths
lead in the end. -/
structure Leaves (before after : Disk) (made : List String) (written : List (String × String)) :
    Prop where
  working : after.working = before.working
  grows : FileTree.Grows before.tree after.tree
  /-- No output has the name of a directory. -/
  file : ∀ output ∈ written, Path.endsInSlash output.1 = false
  /-- An output stands at its place unless a later one leads there. -/
  held : ∀ early path content late, written = early ++ (path, content) :: late →
    ∃ place, after.locate path = .ok place ∧ (after.tree.get? place).isSome ∧
      ((∀ later ∈ late, after.locate later.1 ≠ .ok place) →
        after.tree.get? place = some (.file content.toUTF8))
  kept : ∀ place entry, before.tree.get? place = some entry →
    (∀ output ∈ written, after.locate output.1 ≠ .ok place) →
    after.tree.get? place = some entry
  added : ∀ place, before.tree.get? place = none → after.tree.get? place ≠ none →
    (∀ output ∈ written, after.locate output.1 ≠ .ok place) →
    after.tree.get? place = some .directory ∧ ∃ path ∈ made, after.Passes path place

namespace Leaves

variable {before middle after : Disk} {made : List String} {written : List (String × String)}

theorem of_opens (opens : Opens before after made) : Leaves before after made [] := by
  constructor
  case working => exact opens.working
  case grows => exact opens.grows
  case file => simp
  case held =>
    intro early path content late split
    simp at split
  case kept => exact fun place entry found _ => opens.kept place entry found
  case added => exact fun place absent present _ => opens.added place absent present

/-- Directories that are made first are still there, and still on the way, in the end. -/
theorem after_opens {path : String} (opens : Opens before middle [path])
    (leaves : Leaves middle after made written) :
    Leaves before after (path :: made) written := by
  constructor
  case working => exact leaves.working.trans opens.working
  case grows => exact opens.grows.trans leaves.grows
  case file => exact leaves.file
  case held => exact leaves.held
  case kept =>
    exact fun place entry found elsewhere =>
      leaves.kept place entry (opens.kept place entry found) elsewhere
  case added =>
    intro place absent present elsewhere
    cases between : middle.tree.get? place with
    | none =>
        obtain ⟨directory, other, member, passes⟩ := leaves.added place between present elsewhere
        exact ⟨directory, other, List.mem_cons_of_mem path member, passes⟩
    | some entry =>
        obtain ⟨directory, other, member, passes⟩ := opens.added place absent (by simp [between])
        rw [List.mem_singleton.mp member] at passes
        exact ⟨leaves.kept place _ directory elsewhere, path, List.mem_cons_self,
          passes.of_grows leaves.working leaves.grows (by simp [directory])⟩

theorem after_replaces {path content : String} {place : Place}
    (replaces : Replaces before middle path content.toUTF8 place)
    (leaves : Leaves middle after made written) :
    Leaves before after made ((path, content) :: written) := by
  -- the place of the first output is the same in the end, so the later ones can be told from it
  have there : (middle.tree.get? place).isSome := by simp [replaces.written]
  have located : after.locate path = .ok place :=
    Disk.locate_of_grows leaves.working leaves.grows replaces.located there
  have different (other : Place) (elsewhere : ∀ output ∈ (path, content) :: written,
      after.locate output.1 ≠ .ok other) : other ≠ place := by
    rintro rfl
    exact elsewhere _ List.mem_cons_self located
  constructor
  case working => exact leaves.working.trans replaces.working
  case grows => exact replaces.grows.trans leaves.grows
  case file =>
    intro output member
    rcases List.mem_cons.mp member with rfl | member
    · exact replaces.file
    · exact leaves.file output member
  case held =>
    intro early other text late split
    cases early with
    | nil =>
        cases split
        exact ⟨place, located, leaves.grows.present place there, fun alone =>
          leaves.kept place _ replaces.written alone⟩
    | cons first early =>
        cases split
        exact leaves.held early other text late rfl
  case kept =>
    intro other entry found elsewhere
    apply leaves.kept other entry
    · rw [replaces.others other (different other elsewhere), found]
    · exact fun output member => elsewhere output (List.mem_cons_of_mem _ member)
  case added =>
    intro other absent present elsewhere
    apply leaves.added other _ present
    · exact fun output member => elsewhere output (List.mem_cons_of_mem _ member)
    · rw [replaces.others other (different other elsewhere), absent]

/-- What one more step in front adds to what the steps behind it leave. -/
theorem after_step {step : Step} (does : step.Does before middle)
    (leaves : Leaves middle after made written) :
    Leaves before after (directories [step] ++ made) (outputs [step] ++ written) := by
  cases step with
  | say message => exact does ▸ leaves
  | makeDirectory path => exact leaves.after_opens does
  | write path content =>
      obtain ⟨place, replaces⟩ := does
      exact leaves.after_replaces replaces
  | fail error => exact does.elim

end Leaves

/-- Written out because the equations that are derived from the definition take seconds to derive.
-/
theorem perform_makeDirectory (path : String) (rest : List Step) (disk : Disk) :
    perform (.makeDirectory path :: rest) disk = match disk.makeDirectories path with
      | (made, none) => perform rest made
      | (made, some fault) => ⟨made, [], some (.directory path fault)⟩ := (rfl)

theorem perform_write (path content : String) (rest : List Step) (disk : Disk) :
    perform (.write path content :: rest) disk = match disk.replaceFile path content with
      | (written, none) => let later := perform rest written
          { later with messages := wrote path content :: later.messages }
      | (left, some fault) => ⟨left, [], some (.file path fault)⟩ := (rfl)

def Step.Takes : Step → Disk → Disk → Prop
  | .say _, before, after => after = before
  | .makeDirectory path, before, after => before.makeDirectories path = (after, none)
  | .write path content, before, after => before.replaceFile path content = (after, none)
  | .fail _, _, _ => False

/-- A step that breaks off, at any of its operations and for any cause. Some directories on the way
may have been made, and a draft may have been begun and dropped. -/
def Step.Breaks : Step → Disk → Disk → Prop
  | .say _, _, _ => False
  | .makeDirectory path, before, after => Makes (Disk.lineage path) before after
  | .write path _, before, after => after = before ∨ Drops before after path
  | .fail _, before, after => after = before

theorem Step.Takes.does {step : Step} {before after : Disk} (takes : step.Takes before after) :
    step.Does before after := by
  cases step with
  | say message => exact takes
  | makeDirectory path =>
      have opens := (before.makeDirectories_makes path).opens.of_lineage
      rwa [show before.makeDirectories path = (after, none) from takes] at opens
  | write path content => exact Disk.replaceFile_done takes
  | fail error => exact takes

theorem breaks_write_same {path content : String} {before after : Disk}
    (breaks : (Step.write path content).Breaks before after) :
    after.working = before.working ∧
      ∀ place, after.tree.get? place = before.tree.get? place := by
  rcases breaks with rfl | drops
  · exact ⟨rfl, fun _ => rfl⟩
  · exact drops.same

theorem Step.Breaks.opens {step : Step} {before after : Disk} (breaks : step.Breaks before after) :
    Opens before after (directories [step]) := by
  cases step with
  | say message => exact breaks.elim
  | makeDirectory path => exact (Makes.opens breaks).of_lineage
  | write path content =>
      obtain ⟨working, same⟩ := breaks_write_same breaks
      exact ⟨working, fun place entry found => (same place).trans found,
        fun place absent present => absurd ((same place).trans absent) present⟩
  | fail error => exact Eq.symm breaks ▸ Opens.refl before _

/-- The first step of a run is taken, and the steps behind it go on from there, or it breaks off
and ends the run. -/
theorem perform_step (step : Step) (rest : List Step) (disk : Disk) :
    (∃ middle, step.Takes disk middle ∧
      (perform (step :: rest) disk).disk = (perform rest middle).disk ∧
      (perform (step :: rest) disk).error = (perform rest middle).error) ∨
    ∃ error, (error.IsFileFault ∨ step = .fail error) ∧
      (perform (step :: rest) disk).error = some error ∧
      step.Breaks disk (perform (step :: rest) disk).disk := by
  cases step with
  | say message => exact .inl ⟨disk, rfl, rfl, rfl⟩
  | makeDirectory path =>
      have makes := disk.makeDirectories_makes path
      rw [perform_makeDirectory]
      cases result : disk.makeDirectories path with
      | mk made failed =>
          rw [result] at makes
          cases failed with
          | none => exact .inl ⟨made, result, rfl, rfl⟩
          | some fault => exact .inr ⟨_, .inl ⟨path, fault, .inl rfl⟩, rfl, makes⟩
  | write path content =>
      rw [perform_write]
      cases result : disk.replaceFile path content with
      | mk written failed =>
          cases failed with
          | none => exact .inl ⟨written, result, rfl, rfl⟩
          | some fault =>
              exact .inr ⟨_, .inl ⟨path, fault, .inr rfl⟩, rfl, Disk.replaceFile_drops result⟩
  | fail error => exact .inr ⟨error, .inr rfl, rfl, rfl⟩

/-- What can be left of a disk by steps of which so many are taken in turn, to the end or up to one
that breaks off. -/
inductive CanLeave : List Step → Disk → Disk → List Step → Prop where
  | done (disk : Disk) : CanLeave [] disk disk []
  | broken {step : Step} {rest : List Step} {before after : Disk}
      (breaks : step.Breaks before after) : CanLeave (step :: rest) before after []
  | next {step : Step} {rest taken : List Step} {before middle after : Disk}
      (takes : step.Takes before middle) (onward : CanLeave rest middle after taken) :
      CanLeave (step :: rest) before after (step :: taken)

namespace CanLeave

variable {steps taken : List Step} {before after : Disk}

theorem begins (left : CanLeave steps before after taken) : taken <+: steps := by
  induction left with
  | done disk => exact List.prefix_refl _
  | broken breaks => exact List.nil_prefix
  | next takes onward ih => exact (List.prefix_cons_inj _).mpr ih

/-- What is left is what the steps that were taken leave. -/
theorem leaves (left : CanLeave steps before after taken) :
    Leaves before after (directories steps) (outputs taken) := by
  have split (step : Step) (rest : List Step) :
      directories (step :: rest) = directories [step] ++ directories rest :=
    directories_append [step] rest
  induction left with
  | done disk => exact .of_opens (.refl disk _)
  | @broken step rest before after breaks =>
      apply Leaves.of_opens
      apply breaks.opens.widen
      exact fun path member => split step rest ▸ List.mem_append_left _ member
  | @next step rest taken before middle after takes onward ih =>
      have written : outputs (step :: taken) = outputs [step] ++ outputs taken :=
        outputs_append [step] taken
      rw [split, written]
      exact ih.after_step takes.does

end CanLeave

theorem perform_canLeave (steps : List Step) (disk : Disk) : ∃ taken,
    CanLeave steps disk (perform steps disk).disk taken ∧
    ((perform steps disk).error = none → taken = steps) := by
  induction steps generalizing disk with
  | nil => exact ⟨[], .done disk, fun _ => rfl⟩
  | cons step rest ih =>
      rcases perform_step step rest disk with
        ⟨middle, takes, left, ending⟩ | ⟨error, _, ending, breaks⟩
      · obtain ⟨taken, onward, whole⟩ := ih middle
        rw [left, ending]
        exact ⟨step :: taken, .next takes onward, fun done => congrArg _ (whole done)⟩
      · refine ⟨[], .broken breaks, fun done => ?_⟩
        rw [ending] at done
        cases done

/-- A run leaves what the steps before its end leave, and all steps if it does not fail. -/
theorem perform_leaves (steps : List Step) (disk : Disk) : ∃ taken, taken <+: steps ∧
    Leaves disk (perform steps disk).disk (directories steps) (outputs taken) ∧
    ((perform steps disk).error = none → taken = steps) := by
  obtain ⟨taken, left, whole⟩ := perform_canLeave steps disk
  exact ⟨taken, left.begins, left.leaves, whole⟩

/-- A run whose steps are all operations on files can only fail for one of these. -/
theorem perform_fileFault (steps : List Step) (disk : Disk) (error : RunError)
    (sound : ∀ error, Step.fail error ∉ steps) (failed : (perform steps disk).error = some error) :
    error.IsFileFault := by
  induction steps generalizing disk with
  | nil => cases failed
  | cons step rest ih =>
      rcases perform_step step rest disk with ⟨middle, _, _, ending⟩ | ⟨_, fault, ending, _⟩
      · exact ih middle (fun error member => sound error (List.mem_cons_of_mem step member))
          (ending ▸ failed)
      · cases failed.symm.trans ending
        rcases fault with fault | rfl
        · exact fault
        · exact absurd List.mem_cons_self (sound error)

end Microbench.Run
