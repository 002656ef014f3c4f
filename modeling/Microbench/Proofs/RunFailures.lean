import Microbench.Proofs.RunOutputs
/-!
What a run leaves that breaks off.

A run ends with the first of its operations on files that fails, be it for what is on the disk or
for a cause from outside. Every file is then as it was, or it is an output that was written before
and holds its whole text. Drafts are gone, so all that is new beside the outputs are directories
on the way to theirs.
-/
namespace Microbench.Run

section endings

/-- What can be left by a run, with the outputs that it has written. It can be refused before it
does anything, whatever it was told, or go through the steps of its plan, each of them to the end
or as far as a failing operation lets it. -/
def Program.CanLeave (program : Program) (arguments : List String) (disk : Disk) (chance : UInt64)
    (after : Disk) (written : List (String × String)) : Prop :=
  after = disk ∧ written = [] ∨
    ∃ request found steps taken, program.read arguments = .ok request ∧
      Settings.resolve disk request.shared.settings = .ok found ∧
      request.plan found chance = .ok steps ∧ Run.CanLeave steps disk after taken ∧
      written = outputs taken

variable (program : Program) (arguments : List String) (disk : Disk) (chance : UInt64)

theorem run_canLeave : ∃ written,
    program.CanLeave arguments disk chance (program.run arguments disk chance).disk written := by
  cases understood : program.read arguments with
  | error stop => exact ⟨[], .inl ⟨by simp only [Program.run, understood], rfl⟩⟩
  | ok request =>
      cases resolved : Settings.resolve disk request.shared.settings with
      | error error => exact ⟨[], .inl ⟨by rw [run_unresolved understood resolved], rfl⟩⟩
      | ok found =>
          cases planned : request.plan found chance with
          | error error => exact ⟨[], .inl ⟨by rw [run_refused understood resolved planned], rfl⟩⟩
          | ok steps =>
              obtain ⟨taken, left, _⟩ := perform_canLeave steps disk
              rw [← (run_planned understood resolved planned).1] at left
              exact ⟨outputs taken, .inr ⟨request, found, steps, taken, understood, resolved,
                planned, left, rfl⟩⟩

end endings

section files

/-- No file is damaged: what stands at a place is what stood there before, unless an output leads
there, and then it is the whole text of the last one that does. Nothing else is new, drafts
included, but directories on the way along a path. -/
structure Undamaged (before after : Disk) (directory : String) (written : List (String × String)) :
    Prop where
  working : after.working = before.working
  files : ∀ place content, after.tree.get? place = some (.file content) →
    (∀ output ∈ written, after.locate output.1 ≠ .ok place) ∧
      before.tree.get? place = some (.file content) ∨
    ∃ early output late, written = early ++ output :: late ∧
      after.locate output.1 = .ok place ∧ content = output.2.toUTF8 ∧
      ∀ later ∈ late, after.locate later.1 ≠ .ok place
  complete : ∀ early output late, written = early ++ output :: late →
    (∀ later ∈ late, after.locate later.1 ≠ after.locate output.1) →
    after.read output.1 = .ok output.2.toUTF8
  kept : ∀ place entry, before.tree.get? place = some entry →
    (∀ output ∈ written, after.locate output.1 ≠ .ok place) →
    after.tree.get? place = some entry
  added : ∀ place, before.tree.get? place = none → after.tree.get? place ≠ none →
    (∀ output ∈ written, after.locate output.1 ≠ .ok place) →
    after.tree.get? place = some .directory ∧ after.Passes directory place

variable {before after : Disk} {directory : String} {written : List (String × String)}

/-- Where outputs lead to a place, one of them is the last. -/
theorem last_leading (place : Place) (leading : ∃ output ∈ written, after.locate output.1 = .ok place) :
    ∃ early output late, written = early ++ output :: late ∧ after.locate output.1 = .ok place ∧
      ∀ later ∈ late, after.locate later.1 ≠ .ok place := by
  induction written with
  | nil =>
      obtain ⟨_, member, _⟩ := leading
      cases member
  | cons first rest ih =>
      by_cases another : ∃ output ∈ rest, after.locate output.1 = .ok place
      · obtain ⟨early, output, late, rfl, leads, last⟩ := ih another
        exact ⟨first :: early, output, late, rfl, leads, last⟩
      · have last : ∀ later ∈ rest, after.locate later.1 ≠ .ok place :=
          fun later member leads => another ⟨later, member, leads⟩
        obtain ⟨output, member, leads⟩ := leading
        rcases List.mem_cons.mp member with rfl | later
        · exact ⟨[], output, rest, rfl, leads, last⟩
        · exact absurd leads (last output later)

theorem undamaged_of_leaves (leaves : Leaves before after [directory] written) :
    Undamaged before after directory written := by
  constructor
  case working => exact leaves.working
  case files =>
    intro place content found
    by_cases leading : ∃ output ∈ written, after.locate output.1 = .ok place
    · obtain ⟨early, output, late, split, leads, last⟩ := last_leading place leading
      obtain ⟨other, located, _, holds⟩ := leaves.held early output.1 output.2 late split
      cases leads.symm.trans located
      have same := found.symm.trans (holds last)
      exact .inr ⟨early, output, late, split, leads, by simpa using same, last⟩
    · have elsewhere : ∀ output ∈ written, after.locate output.1 ≠ .ok place :=
        fun output member leads => leading ⟨output, member, leads⟩
      refine .inl ⟨elsewhere, ?_⟩
      cases there : before.tree.get? place with
      | some entry => exact (leaves.kept place entry there elsewhere).symm.trans found
      | none =>
          obtain ⟨made, _⟩ := leaves.added place there (by simp [found]) elsewhere
          rw [made] at found
          cases found
  case complete =>
    intro early output late split alone
    obtain ⟨place, located, _, holds⟩ := leaves.held early output.1 output.2 late split
    exact Disk.read_of_located located (holds fun later member => located ▸ alone later member)
  case kept => exact leaves.kept
  case added =>
    intro place absent present elsewhere
    obtain ⟨made, path, member, passes⟩ := leaves.added place absent present elsewhere
    exact ⟨made, List.mem_singleton.mp member ▸ passes⟩

end files

section failures

variable (program : Program) (arguments : List String) (disk : Disk) (chance : UInt64)

/-- What a run can leave, wherever it breaks off, is the disk as it was, or the disk with the first
so many of the files that were asked for. -/
theorem canLeave_undamaged {after : Disk} {written : List (String × String)}
    (left : program.CanLeave arguments disk chance after written) :
    after = disk ∧ written = [] ∨
    ∃ request found directory files, program.read arguments = .ok request ∧
      Settings.resolve disk request.shared.settings = .ok found ∧
      request.Promises found chance directory files ∧
      written <+: placed directory files ∧ Undamaged disk after directory written := by
  rcases left with refused | ⟨request, found, steps, taken, understood, resolved, planned, left, rfl⟩
  · exact .inl refused
  · have inOrder : request.InOrder found := by
      by_contra disorder
      obtain ⟨error, refused, _⟩ := plan_refused request found chance disorder
      cases refused.symm.trans planned
    obtain ⟨_, directory, files, planned', promises, plans⟩ :=
      plan_of_inOrder request found chance inOrder
    cases planned.symm.trans planned'
    have leaves := left.leaves
    rw [plans.directories] at leaves
    refine .inr ⟨request, found, directory, files, understood, resolved, promises, ?_,
      undamaged_of_leaves leaves⟩
    rw [← plans.outputs]
    exact left.begins.filterMap _

/-- Wherever a run breaks off, it leaves no damaged file and no draft. A file is replaced as a whole
or not at all: what fails changes nothing, and what succeeds changes the entry at the path only. -/
theorem failures_spare_files :
    (∃ written, program.CanLeave arguments disk chance
      (program.run arguments disk chance).disk written) ∧
    (∀ after written, program.CanLeave arguments disk chance after written →
      after = disk ∧ written = [] ∨
      ∃ request found directory files, program.read arguments = .ok request ∧
        Settings.resolve disk request.shared.settings = .ok found ∧
        request.Promises found chance directory files ∧
        written <+: placed directory files ∧ Undamaged disk after directory written) ∧
    ∀ path content,
      (∀ left, (∃ fault, disk.replaceFile path content = (left, some fault)) ∨
          (Step.write path content).Breaks disk left →
        left.working = disk.working ∧ ∀ place, left.tree.get? place = disk.tree.get? place) ∧
      ∀ after, disk.replaceFile path content = (after, none) →
        ∃ place, Disk.Replaces disk after path content.toUTF8 place := by
  refine ⟨run_canLeave program arguments disk chance,
    fun _ _ left => canLeave_undamaged program arguments disk chance left,
    fun path content => ⟨?_, fun _ done => Disk.replaceFile_done done⟩⟩
  rintro left (⟨fault, failed⟩ | breaks)
  · have breaks : (Step.write path content).Breaks disk left := Disk.replaceFile_drops failed
    exact breaks_write_same breaks
  · exact breaks_write_same breaks

end failures

end Microbench.Run
