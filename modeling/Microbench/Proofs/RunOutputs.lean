import Microbench.Proofs.RunTexts
/-!
What a successful run leaves.

Every file that the run promises has been written by the time it ends. It is still complete then
unless a later file of the same run was written to the same place, which plain names that differ
rule out. Nothing else on the disk changes, apart from directories that are made on the way.
-/
namespace Microbench

structure Path.Plain (name : String) : Prop where
  unslashed : Path.Unslashed name
  notHere : name ≠ "."
  notUp : name ≠ ".."

instance (name : String) : Decidable (Path.Plain name) :=
  decidable_of_iff (Path.Unslashed name ∧ name ≠ "." ∧ name ≠ "..")
    ⟨fun ⟨unslashed, notHere, notUp⟩ => ⟨unslashed, notHere, notUp⟩,
      fun ⟨unslashed, notHere, notUp⟩ => ⟨unslashed, notHere, notUp⟩⟩

namespace Disk

variable {disk : Disk} {directory : String} {place : Place}

theorem located_join {name : String} (plain : Path.Plain name)
    (file : Path.endsInSlash (Path.join directory name) = false)
    (located : disk.locate (Path.join directory name) = .ok place) :
    ∃ parent, walk disk.tree (disk.start directory) (Path.segments directory) = .ok parent ∧
      place = parent ++ [name] := by
  obtain ⟨text, walked, _⟩ := (locate_iff ..).mp located
  have present : name ≠ "" := by
    rintro rfl
    rcases Path.join_nameless directory with empty | slash
    · rw [empty] at text
      cases text
    · rw [file] at slash
      cases slash
  have begun : disk.start (Path.join directory name) = disk.start directory := by
    rw [start, start, Path.isAbsolute_join directory name plain.unslashed]
  rw [Path.segments_join directory name plain.unslashed present, begun] at walked
  obtain ⟨parent, behind, last⟩ := (walk_append_iff ..).mp walked
  obtain ⟨_, moved⟩ := (walk_single_iff ..).mp last
  rcases moved with ⟨here, _⟩ | ⟨up, _⟩ | ⟨_, _, _, _, rfl⟩
  · exact absurd here plain.notHere
  · exact absurd up plain.notUp
  · exact ⟨parent, behind, rfl⟩

/-- Different plain names lead to different entries of a directory. -/
theorem name_of_located {first second : String} (plain : Path.Plain first)
    (plain' : Path.Plain second) (file : Path.endsInSlash (Path.join directory first) = false)
    (file' : Path.endsInSlash (Path.join directory second) = false)
    (located : disk.locate (Path.join directory first) = .ok place)
    (located' : disk.locate (Path.join directory second) = .ok place) : first = second := by
  obtain ⟨parent, walked, rfl⟩ := located_join plain file located
  obtain ⟨parent', walked', same⟩ := located_join plain' file' located'
  rw [walked] at walked'
  cases walked'
  exact List.singleton_inj.mp (List.append_cancel_left same)

end Disk

namespace Run

section leaving

variable {before after : Disk} {made : List String} {written : List (String × String)}

theorem Leaves.held_last (leaves : Leaves before after made written)
    (early : List (String × String)) (output : String × String) (late : List (String × String))
    (split : written = early ++ output :: late) :
    ∃ place, after.locate output.1 = .ok place ∧ ∃ last ∈ output :: late,
      after.tree.get? place = some (.file last.2.toUTF8) := by
  -- of the outputs that lead to a place the last one stands there. It is found by going on to a
  -- later one as long as there is one.
  obtain ⟨place, located, _, alone⟩ := leaves.held early output.1 output.2 late split
  by_cases another : ∃ later ∈ late, after.locate later.1 = .ok place
  · obtain ⟨later, member, same⟩ := another
    obtain ⟨front, back, parted⟩ := List.append_of_mem member
    obtain ⟨found, located', last, inside, holds⟩ :=
      leaves.held_last (early ++ output :: front) later back (by simp [split, parted])
    rw [same] at located'
    cases located'
    refine ⟨place, located, last, List.mem_cons_of_mem output ?_, holds⟩
    rw [parted]
    exact List.mem_append_right front inside
  · refine ⟨place, located, output, List.mem_cons_self, alone ?_⟩
    exact fun later member leads => another ⟨later, member, leads⟩
termination_by late.length
decreasing_by simp [parted]; omega

end leaving

section outputs

/-- What a disk holds when files were put into a directory and nothing else was done, except
that the directory may have been made. -/
structure Holds (before after : Disk) (directory : String) (files : List (String × String)) :
    Prop where
  complete : ∀ file ∈ files, after.read (Path.join directory file.1) = .ok file.2.toUTF8
  spared : ∀ place entry, before.tree.get? place = some entry →
    (∀ file ∈ files, after.locate (Path.join directory file.1) ≠ .ok place) →
    after.tree.get? place = some entry
  added : ∀ place, before.tree.get? place = none → after.tree.get? place ≠ none →
    (∀ file ∈ files, after.locate (Path.join directory file.1) ≠ .ok place) →
    after.tree.get? place = some .directory ∧ after.Passes directory place

structure PlainNames (names : List String) : Prop where
  plain : ∀ name ∈ names, Path.Plain name
  different : names.Nodup

theorem run_done {program : Program} {arguments : List String} {disk : Disk} {chance : UInt64}
    (succeeded : (program.run arguments disk chance).ending.exitCode = 0) :
    (∃ stop, program.read arguments = .error stop ∧ (stop = .help ∨ stop = .version) ∧
      (program.run arguments disk chance).disk = disk) ∨
    ∃ request found directory files, program.read arguments = .ok request ∧
      Settings.resolve disk request.shared.settings = .ok found ∧
      request.Promises found chance directory files ∧
      Leaves disk (program.run arguments disk chance).disk [directory]
        (placed directory files) := by
  cases understood : program.read arguments with
  | error stop =>
      refine .inl ⟨stop, rfl, ?_, by simp only [Program.run, understood]⟩
      cases stop with
      | usage =>
          simp only [Program.run, understood] at succeeded
          cases succeeded
      | help => exact .inl rfl
      | version => exact .inr rfl
  | ok request =>
      rcases run_cases disk chance understood with
        ⟨error, _, outcome⟩ | ⟨found, steps, directory, files, resolved, promises, plans, same, ending⟩
      · rw [outcome] at succeeded
        cases succeeded
      · obtain ⟨taken, _, leaves, whole⟩ := perform_leaves steps disk
        have finished : (perform steps disk).error = none := by
          cases failed : (perform steps disk).error with
          | none => rfl
          | some error =>
              rw [ending, failed] at succeeded
              cases succeeded
        rw [whole finished, plans.directories, plans.outputs, ← same] at leaves
        exact .inr ⟨request, found, directory, files, rfl, resolved, promises, leaves⟩

variable {before after : Disk} {directory : String} {files : List (String × String)}

theorem placed_split {early late : List (String × String)} {file : String × String}
    (split : files = early ++ file :: late) : placed directory files =
      placed directory early ++ (Path.join directory file.1, file.2) :: placed directory late := by
  rw [split, placed, List.map_append, List.map_cons]
  rfl

variable (leaves : Leaves before after [directory] (placed directory files))

include leaves

/-- The path of a file that was put into a directory holds that file or a later one. -/
theorem placed_held (early : List (String × String)) (file : String × String)
    (late : List (String × String)) (split : files = early ++ file :: late) :
    ∃ last ∈ file :: late,
      after.read (Path.join directory file.1) = .ok last.2.toUTF8 ∧
      ∃ place, after.locate (Path.join directory file.1) = .ok place := by
  obtain ⟨place, located, last, inside, holds⟩ := leaves.held_last _ _ _ (placed_split split)
  obtain ⟨origin, member, rfl⟩ : ∃ origin ∈ file :: late,
      (Path.join directory origin.1, origin.2) = last := List.mem_map.mp inside
  exact ⟨origin, member, Disk.read_of_located located holds, place, located⟩

/-- A file that was put into a directory is complete in the end, unless a later one led to its
place. -/
theorem placed_alone (early : List (String × String)) (file : String × String)
    (late : List (String × String)) (split : files = early ++ file :: late)
    (alone : ∀ later ∈ late, after.locate (Path.join directory later.1) ≠
      after.locate (Path.join directory file.1)) :
    after.read (Path.join directory file.1) = .ok file.2.toUTF8 := by
  obtain ⟨place, located, _, holds⟩ := leaves.held _ _ _ _ (placed_split split)
  refine Disk.read_of_located located (holds ?_)
  intro output member
  obtain ⟨later, inside, rfl⟩ := List.mem_map.mp member
  exact located ▸ alone later inside

theorem placed_lost (early : List (String × String)) (file : String × String)
    (late : List (String × String)) (split : files = early ++ file :: late)
    (different : files.Pairwise fun first second => first.2 ≠ second.2)
    (later : String × String) (inside : later ∈ late)
    (same : after.locate (Path.join directory later.1) =
      after.locate (Path.join directory file.1)) :
    after.read (Path.join directory file.1) ≠ .ok file.2.toUTF8 := by
  obtain ⟨front, back, parted⟩ := List.append_of_mem inside
  obtain ⟨last, member, read, _⟩ :=
    placed_held leaves (early ++ file :: front) later back (by simp [split, parted])
  have held : after.read (Path.join directory file.1) = .ok last.2.toUTF8 := by
    rw [← read, Disk.read, Disk.read, same]
  intro complete
  have texts : file.2 = last.2 :=
    String.toByteArray_inj.mp (Except.ok.inj (complete.symm.trans held))
  rw [split, parted] at different
  have behind := (List.pairwise_cons.mp (List.pairwise_append.mp different).2.1).1
  exact behind last (List.mem_append_right front member) texts

/-- Under different plain names no later file leads to the place of an earlier one. -/
theorem placed_apart (names : PlainNames (files.map Prod.fst)) (early : List (String × String))
    (file : String × String) (late : List (String × String)) (split : files = early ++ file :: late)
    (later : String × String) (inside : later ∈ late) :
    after.locate (Path.join directory later.1) ≠ after.locate (Path.join directory file.1) := by
  intro same
  obtain ⟨_, _, _, place, located⟩ := placed_held leaves early file late split
  have named (other : String × String) (member : other ∈ files) : Path.Plain other.1 ∧
      Path.endsInSlash (Path.join directory other.1) = false :=
    ⟨names.plain _ (List.mem_map_of_mem member),
      leaves.file (Path.join directory other.1, other.2) (List.mem_map_of_mem member)⟩
  have plain := named file (by simp [split])
  have plain' := named later (by simp [split, inside])
  have equal := Disk.name_of_located plain'.1 plain.1 plain'.2 plain.2 (same.trans located) located
  have different := names.different
  rw [split, List.map_append, List.map_cons] at different
  have apart := (List.nodup_cons.mp (List.nodup_append.mp different).2.1).1
  exact apart (equal ▸ List.mem_map_of_mem inside)

theorem placed_complete (names : PlainNames (files.map Prod.fst)) :
    Holds before after directory files := by
  constructor
  case complete =>
    intro file member
    obtain ⟨early, late, split⟩ := List.append_of_mem member
    exact placed_alone leaves early file late split
      (placed_apart leaves names early file late split)
  case spared =>
    intro place entry found elsewhere
    apply leaves.kept place entry found
    intro output member
    obtain ⟨file, inside, rfl⟩ := List.mem_map.mp member
    exact elsewhere file inside
  case added =>
    intro place absent present elsewhere
    obtain ⟨kind, path, member, passes⟩ := leaves.added place absent present (by
      intro output member
      obtain ⟨file, inside, rfl⟩ := List.mem_map.mp member
      exact elsewhere file inside)
    cases List.mem_singleton.mp member
    exact ⟨kind, passes⟩

end outputs

section promises

/-- Of the files that a run was asked for, those are complete when it has succeeded whose place
no later one was written to. The others are gone, and a later file of the run is in their
place. -/
theorem kept_iff_unshared (program : Program) (arguments : List String) (disk : Disk)
    (chance : UInt64) (succeeded : (program.run arguments disk chance).ending.exitCode = 0) :
    (∃ stop, program.read arguments = .error stop ∧ (stop = .help ∨ stop = .version)) ∨
    ∃ request found directory files, program.read arguments = .ok request ∧
      Settings.resolve disk request.shared.settings = .ok found ∧
      request.Promises found chance directory files ∧
      ∀ early file late, files = early ++ file :: late →
        let after := (program.run arguments disk chance).disk
        (∃ last ∈ file :: late,
          after.read (Path.join directory file.1) = .ok last.2.toUTF8) ∧
        (after.read (Path.join directory file.1) = .ok file.2.toUTF8 ↔
          ∀ later ∈ late, after.locate (Path.join directory later.1) ≠
            after.locate (Path.join directory file.1)) := by
  rcases run_done succeeded with ⟨stop, stopped, kind, _⟩ |
    ⟨request, found, directory, files, understood, resolved, promises, leaves⟩
  · exact .inl ⟨stop, stopped, kind⟩
  · refine .inr ⟨request, found, directory, files, understood, resolved, promises, ?_⟩
    intro early file late split
    obtain ⟨last, member, read, _⟩ := placed_held leaves early file late split
    refine ⟨⟨last, member, read⟩, ?_, placed_alone leaves early file late split⟩
    intro complete later inside same
    exact placed_lost leaves early file late split (texts_differ promises) later inside same complete

def oneName : Settings := { multiply := { asmFile := "out", headerFile := "out" } }

def oneNameDisk : Disk :=
  { tree := ⟨[(["ubgen.toml"],
      .file "[ilp]\nasm_file = \"out\"\nheader_file = \"out\"\n".toUTF8)]⟩ }

section shared

theorem oneName_resolved : Settings.resolve oneNameDisk none = .ok oneName := by decide +kernel

theorem oneName_succeeds :
    (Program.multiplies.run ["-k", "1"] oneNameDisk 0).ending.exitCode = 0 := by decide +kernel

theorem oneName_read : Program.multiplies.read ["-k", "1"] =
    .ok (.multiplies { maxWidth := some 1 }) := by decide

theorem oneName_promised {directory : String} {files : List (String × String)}
    (promises : (Request.multiplies { maxWidth := some 1 }).Promises oneName 0 directory files) :
    directory = "." ∧ ∃ listing header, files = [("out", listing), ("out", header)] := by
  obtain ⟨place, _, _, _, _, same⟩ := promises
  exact ⟨place, _, _, same⟩

theorem kept_iff_unshared_oneName :
    (Program.multiplies.run ["-k", "1"] oneNameDisk 0).ending.exitCode = 0 ∧
    ∃ listing header,
      (Request.multiplies { maxWidth := some 1 }).Promises oneName 0 "."
        [("out", listing), ("out", header)] ∧
      (Program.multiplies.run ["-k", "1"] oneNameDisk 0).disk.read "./out" = .ok header.toUTF8 ∧
      (Program.multiplies.run ["-k", "1"] oneNameDisk 0).disk.read "./out" ≠
        .ok listing.toUTF8 := by
  refine ⟨oneName_succeeds, ?_⟩
  rcases kept_iff_unshared .multiplies ["-k", "1"] oneNameDisk 0 oneName_succeeds with
    ⟨stop, stopped, _⟩ | ⟨request, found, directory, files, understood, resolved, promises, kept⟩
  · rw [oneName_read] at stopped
    cases stopped
  · rw [oneName_read] at understood
    cases understood
    cases oneName_resolved.symm.trans resolved
    obtain ⟨rfl, listing, header, rfl⟩ := oneName_promised promises
    have path : Path.join "." "out" = "./out" := by decide
    refine ⟨listing, header, promises, ?_, ?_⟩
    · exact path ▸ (kept [("out", listing)] ("out", header) [] rfl).2.mpr (by simp)
    · intro complete
      exact (kept [] ("out", listing) [("out", header)] rfl).2.mp (path ▸ complete) ("out", header)
        (List.mem_singleton_self _) rfl

/-- A run can succeed and leave less than it was asked for. -/
theorem success_loses_listing : ¬ ∀ (program : Program) (arguments : List String) (disk : Disk)
    (chance : UInt64) (request : Request) (found : Settings) (directory : String)
    (files : List (String × String)),
    (program.run arguments disk chance).ending.exitCode = 0 →
    program.read arguments = .ok request →
    Settings.resolve disk request.shared.settings = .ok found →
    request.Promises found chance directory files →
    ∀ file ∈ files, (program.run arguments disk chance).disk.read
      (Path.join directory file.1) = .ok file.2.toUTF8 := by
  intro complete
  rcases run_done oneName_succeeds with ⟨stop, stopped, _⟩ |
    ⟨request, found, directory, files, understood, resolved, promises, leaves⟩
  · rw [oneName_read] at stopped
    cases stopped
  · have all := complete _ _ _ _ _ _ _ _ oneName_succeeds understood resolved promises
    rw [oneName_read] at understood
    cases understood
    cases oneName_resolved.symm.trans resolved
    have different := texts_differ promises
    obtain ⟨rfl, listing, header, rfl⟩ := oneName_promised promises
    have texts := (all ("out", listing) (by simp)).symm.trans (all ("out", header) (by simp))
    exact List.pairwise_pair.mp different (String.toByteArray_inj.mp (Except.ok.inj texts))

end shared

end promises

end Run

end Microbench
