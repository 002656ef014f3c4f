import Microbench.CycleFamily
import Microbench.Proofs.HeaderReader
import Microbench.Proofs.MultiplyRoutine
import Microbench.Proofs.RandomChains
/-!
Headers declare what the assembly files define.

The functions of a file and the entries of its table are made by two loops of their own, and
the table of the multiply functions has one slot more. Every function stands in the slot of
its width, and no name is declared that is not defined.
-/
namespace Microbench

theorem symbols_single (start : String) (single : Text.SingleLine start) (numbers : List Nat) :
    ∀ name ∈ numbers.map (symbolName start), Text.SingleLine name := by
  intro name member
  obtain ⟨number, _, rfl⟩ := List.mem_map.mp member
  exact single.append (Text.SingleLine.number number)

theorem entries_some (names : List String) :
    (names.map some).filterMap id = names ∧ (names.map some).map (·.getD "NULL") = names := by
  constructor
  · rw [List.filterMap_map]
    exact List.filterMap_some
  · rw [List.map_map]
    exact List.map_id names

namespace MultiplyFamily
open Statement Target Text

def LoopsOver (target : Target) (width unroll : Nat) (routine : Routine) : Prop :=
  ∃ before body branch after cells,
    routine.lines = before ++ (loopLabel width ++ ":") :: (body ++ (branch ++ after)) ∧
    branch = (target.loopBranch target.abi.counter (loopLabel width) unroll).map Statement.text ∧
    body.mapM target.architecture.isa.cell? = some cells ∧
    RoundRobin target.architecture.isa (target.abi.accumulators.take width) target.abi.counter
      unroll cells ∧
    (target.abi.accumulators.take width).length = width ∧
    (target.abi.accumulators.take width).Nodup

section functions

variable (architecture : Architecture) (pool : List Reg) (maxWidth unroll width : Nat)
  (start : String) (accepted : architecture.Accepts pool)

include accepted in
theorem routine_loops (shaped : Shape.error? ⟨width, unroll⟩ (withPool architecture pool) = none) :
    ∃ routine, (⟨withPool architecture pool, maxWidth, unroll, start⟩ : MultiplyFamily).routine
        width = .ok routine ∧ routine.name = symbolName start width ∧
      LoopsOver (withPool architecture pool) width unroll routine := by
  obtain ⟨frame, prologue, opening, closing, made, _⟩ :=
    routine_pieces architecture pool maxWidth unroll width start accepted shaped
  have read := cells_texts architecture _ (body_fits architecture pool width accepted unroll)
  have turns := body_roundRobin (withPool architecture pool) (pool.take width) unroll
    (writable_of_taken architecture pool width accepted) architecture.writable_counter
    (apart_of_taken architecture pool width accepted)
    (accepted.distinct.sublist (List.take_sublist width pool))
  have wide : (pool.take width).length = width := by
    rw [List.length_take]
    exact Nat.min_eq_left (shape_bounds shaped).2.2
  have parted := congrArg (List.map text) (pieces_parted architecture pool unroll width frame
    prologue opening closing (symbolName start width))
  simp only [List.map_append, List.map_cons] at parted
  exact ⟨_, made, rfl, _, _, _, _, _, parted, rfl, read, turns, wide,
    accepted.distinct.sublist (List.take_sublist width pool)⟩

/-- If each function exists, none is left out and none stops the loop. -/
theorem routines_complete (family : MultiplyFamily) (holds : Nat → Routine → Prop)
    (widths : List Nat)
    (each : ∀ width ∈ widths, ∃ routine, family.routine width = .ok routine ∧ holds width routine) :
    ∃ made, family.routines widths = (made, none) ∧ made.map Prod.fst = widths ∧
      ∀ pair ∈ made, holds pair.1 pair.2 := by
  induction widths with
  | nil => exact ⟨[], rfl, rfl, by simp⟩
  | cons width rest ih =>
      obtain ⟨routine, found, own⟩ := each width List.mem_cons_self
      obtain ⟨made, others, listed, theirs⟩ := ih fun later member =>
        each later (List.mem_cons_of_mem width member)
      refine ⟨(width, routine) :: made, ?_, ?_, ?_⟩
      · rw [routines, found, others]
      · rw [List.map_cons, listed]
      · exact List.forall_mem_cons.mpr ⟨own, theirs⟩

/-- In a file the functions stand in the order of their widths, which begin at one. -/
theorem made_at (made : List (Nat × Routine)) (listed : made.map Prod.fst = List.range' 1 maxWidth)
    (least : 1 ≤ width) (most : width ≤ maxWidth) :
    ∃ routine, (width, routine) ∈ made ∧ (made.map Prod.snd)[width - 1]? = some routine := by
  have place : (made.map Prod.fst)[width - 1]? = some width := by
    rw [listed, List.getElem?_range' (show width - 1 < maxWidth by omega)]
    apply congrArg some
    omega
  rw [List.getElem?_map] at place
  obtain ⟨pair, found, rfl⟩ := Option.map_eq_some_iff.mp place
  exact ⟨pair.2, List.mem_of_getElem? found, by rw [List.getElem?_map, found, Option.map_some]⟩

end functions

section files

structure Tabulates (target : Target) (maxWidth unroll : Nat) (listing : Listing)
    (header : Declarations) : Prop where
  functions : listing.routines.length = maxWidth
  countMacro : header.countMacro = "NUM_FUNCS"
  count : header.count = maxWidth + 1
  slots : header.initialisers.length = maxWidth + 1
  sentinel : header.initialisers[0]? = some "NULL"
  slot : ∀ width, 1 ≤ width → width ≤ maxWidth → ∃ routine,
    listing.routines[width - 1]? = some routine ∧
    header.initialisers[width]? = some routine.name ∧ LoopsOver target width unroll routine
  declared : header.prototypes = listing.routines.map Routine.name
  distinct : header.prototypes.Nodup

variable (architecture : Architecture) (pool : List Reg) (maxWidth unroll : Nat) (start : String)

theorem header_read (family : MultiplyFamily) (single : SingleLine family.symbolStart) :
    Declarations.read? family.table.render = some ⟨"__funcsh__", "NUM_FUNCS", family.maxWidth + 1,
      "fn_t", family.widths.map family.symbol, "funcs",
      "NULL" :: family.widths.map family.symbol⟩ := by
  have entries : family.table.entries = none :: (family.widths.map family.symbol).map some := by
    rw [List.map_map]
    rfl
  have size : family.table.size = family.maxWidth + 1 := by
    rw [FunctionTable.size, entries, List.length_cons, List.length_map, List.length_map, widths,
      List.length_range']
  have lines : Declarations.SingleLines family.table := by
    refine ⟨(by decide : SingleLine "__funcsh__"), (by decide : SingleLine "NUM_FUNCS"),
      (by decide : SingleLine "fn_t"), (by decide : SingleLine "funcs"), ?_⟩
    intro name member
    exact symbols_single _ single family.widths name (by simpa [entries, symbol] using member)
  obtain ⟨present, shown⟩ := entries_some (family.widths.map family.symbol)
  rw [Declarations.read_render family.table lines, size, entries, List.map_cons, shown,
    List.filterMap_cons_none rfl, present]
  rfl

theorem symbols_distinct (family : MultiplyFamily) : (family.widths.map family.symbol).Nodup := by
  have distinct : family.widths.Nodup := List.nodup_range'
  apply List.pairwise_map.mpr
  exact distinct.imp fun different same => different (numbered_injective _ _ _ same)

theorem file_tabulated (accepted : architecture.Accepts pool)
    (shaped : Shape.error? ⟨maxWidth, unroll⟩ (withPool architecture pool) = none)
    (single : SingleLine start) : ∃ listing header,
      (⟨withPool architecture pool, maxWidth, unroll, start⟩ : MultiplyFamily).produce.listing =
        .ok listing ∧
      Declarations.read?
        (⟨withPool architecture pool, maxWidth, unroll, start⟩ : MultiplyFamily).table.render =
          some header ∧
      Tabulates (withPool architecture pool) maxWidth unroll listing header := by
  let family : MultiplyFamily := ⟨withPool architecture pool, maxWidth, unroll, start⟩
  obtain ⟨made, complete, listed, own⟩ := routines_complete family
    (fun width routine => routine.name = family.symbol width ∧
      LoopsOver (withPool architecture pool) width unroll routine) family.widths (by
    intro width member
    obtain ⟨least, most⟩ := List.mem_range'_1.mp member
    have narrower : width ≤ maxWidth := Nat.lt_succ_iff.mp (Nat.one_add maxWidth ▸ most)
    exact routine_loops architecture pool maxWidth unroll width start accepted
      (shape_narrower shaped least narrower))
  have names : (made.map Prod.snd).map Routine.name = family.widths.map family.symbol := by
    rw [← listed, List.map_map, List.map_map]
    exact List.map_congr_left fun pair member => (own pair member).1
  have count : made.length = maxWidth := by
    have full := congrArg List.length listed
    rwa [List.length_map, widths, List.length_range'] at full
  have produced : family.produce.listing = .ok ⟨family.target.fileHeader, made.map Prod.snd⟩ := by
    simp only [produce, complete]
  refine ⟨_, _, produced, header_read family single, ?_⟩
  constructor
  case functions => rw [List.length_map, count]
  case countMacro => rfl
  case count => rfl
  case slots => rw [List.length_cons, List.length_map, widths, List.length_range']
  case sentinel => rfl
  case slot =>
    intro width least most
    obtain ⟨routine, member, found⟩ := made_at maxWidth width made listed least most
    obtain ⟨named, loops⟩ := own (width, routine) member
    refine ⟨routine, found, ?_, loops⟩
    rw [← Nat.sub_add_cancel least, List.getElem?_cons_succ, ← names, List.getElem?_map, found]
    rfl
  case declared => exact names.symm
  case distinct => exact symbols_distinct family

end files

end MultiplyFamily

namespace CycleFamily
open Text

structure Tabulates (routines : List Routine) (header : Declarations) : Prop where
  countMacro : header.countMacro = "NUM_TESTS"
  count : header.count = routines.length
  declared : header.prototypes = routines.map Routine.name
  slots : header.initialisers = routines.map Routine.name

theorem sizes_powers (exponent : Nat) (sizes : List Nat)
    (allowed : sizesForExponent exponent = .ok sizes) : exponent ≤ 20 ∧ sizes.Pairwise (· < ·) ∧
      ∀ size, size ∈ sizes ↔ ∃ power, 2 ≤ power ∧ power ≤ exponent ∧ size = 2 ^ power := by
  unfold sizesForExponent sizesUpTo? at allowed
  split at allowed
  · next listed =>
    split at listed
    · next within =>
      cases allowed
      cases listed
      rw [Bool.and_eq_true, decide_eq_true_eq, decide_eq_true_eq] at within
      have increasing : (List.range' minExponent (exponent + 1 - minExponent)).Pairwise (· < ·) :=
        List.pairwise_lt_range'
      refine ⟨within.2, List.pairwise_map.mpr ?_, ?_⟩
      · apply increasing.imp
        intro small large order
        rw [Nat.one_shiftLeft, Nat.one_shiftLeft]
        exact Nat.pow_lt_pow_right (by decide) order
      · intro size
        rw [List.mem_map]
        constructor
        · rintro ⟨power, member, rfl⟩
          obtain ⟨least, most⟩ := List.mem_range'_1.mp member
          rw [minExponent] at least most
          exact ⟨power, least, by omega, Nat.one_shiftLeft power⟩
        · rintro ⟨power, least, most, rfl⟩
          refine ⟨power, List.mem_range'_1.mpr ?_, Nat.one_shiftLeft power⟩
          rw [minExponent]
          omega
    · cases listed
  · cases allowed

/-- The routine of an accepted size is over the very chain that is drawn for it. -/
theorem generated_over_random (family : CycleFamily) (size : Nat)
    (accepted : sizeFault? size = none) (stream : Random.Stream) : ∃ chain rest,
      Chain.random size stream = (.ok chain, rest) ∧ chain.size = size ∧ chain.SingleCycle ∧
      family.generate size stream =
        (.ok ⟨family.symbol size, family.statements chain, []⟩, rest) := by
  obtain ⟨chain, made, full, follows⟩ :=
    Chain.ofSwaps_follows size (Random.drawSwaps size stream).1 accepted
  have present := Chain.present_of_accepted accepted
  have sound := Chain.sound_of_follows chain _ follows (full ▸ present)
  have drawn : Chain.random size stream = (.ok chain, (Random.drawSwaps size stream).2) := by
    simp only [Chain.random, accepted, made]
  have emitted : family.emit chain = .ok ⟨family.symbol size, family.statements chain, []⟩ := by
    rw [emit, sound, full, if_neg (Nat.ne_of_gt present)]
  refine ⟨chain, _, drawn, full, Chain.single_of_follows chain _ follows, ?_⟩
  rw [generate, drawn]
  exact congrArg (·, _) emitted

theorem generated_over_chain (family : CycleFamily) (size : Nat)
    (accepted : sizeFault? size = none) (stream : Random.Stream) : ∃ chain : Chain,
      chain.size = size ∧ (family.generate size stream).1 =
        .ok ⟨family.symbol size, family.statements chain, []⟩ := by
  obtain ⟨chain, rest, _, full, _, made⟩ := family.generated_over_random size accepted stream
  exact ⟨chain, full, congrArg Prod.fst made⟩

theorem generated (family : CycleFamily) (size : Nat) (accepted : sizeFault? size = none)
    (stream : Random.Stream) : ∃ routine,
      (family.generate size stream).1 = .ok routine ∧ routine.name = family.symbol size := by
  obtain ⟨chain, _, made⟩ := family.generated_over_chain size accepted stream
  exact ⟨_, made, rfl⟩

theorem header_read (family : CycleFamily) (sizes : List Nat)
    (single : SingleLine family.symbolStart) :
    Declarations.read? (family.table sizes).render = some ⟨"__cyclesh__", "NUM_TESTS", sizes.length,
      "test_t", sizes.map family.symbol, "funcs", sizes.map family.symbol⟩ := by
  have entries : (family.table sizes).entries = (sizes.map family.symbol).map some := by
    rw [List.map_map]
    rfl
  have size : (family.table sizes).size = sizes.length := by
    rw [FunctionTable.size, entries, List.length_map, List.length_map]
  have lines : Declarations.SingleLines (family.table sizes) := by
    refine ⟨(by decide : SingleLine "__cyclesh__"), (by decide : SingleLine "NUM_TESTS"),
      (by decide : SingleLine "test_t"), (by decide : SingleLine "funcs"), ?_⟩
    intro name member
    exact symbols_single _ single sizes name (by simpa [entries, symbol] using member)
  obtain ⟨present, shown⟩ := entries_some (sizes.map family.symbol)
  rw [Declarations.read_render _ lines, size, entries, shown, present]
  rfl

theorem routines_generated (family : CycleFamily) (sizes : List Nat)
    (accepted : ∀ size ∈ sizes, sizeFault? size = none) (streams : Nat → Random.Stream) :
    ∃ routines : List Routine,
      sizes.map (fun size => (family.generate size (streams size)).1) = routines.map .ok ∧
      routines.map Routine.name = sizes.map family.symbol := by
  induction sizes with
  | nil => exact ⟨[], rfl, rfl⟩
  | cons size rest ih =>
      obtain ⟨routine, drawn, named⟩ :=
        generated family size (accepted size List.mem_cons_self) (streams size)
      obtain ⟨routines, others, names⟩ :=
        ih fun later member => accepted later (List.mem_cons_of_mem size member)
      refine ⟨routine :: routines, ?_, ?_⟩
      · rw [List.map_cons, List.map_cons, drawn, others]
      · rw [List.map_cons, List.map_cons, named, names]

theorem files_tabulated (family : CycleFamily) (sizes : List Nat)
    (accepted : ∀ size ∈ sizes, sizeFault? size = none) (streams : Nat → Random.Stream) :
    ∃ routines : List Routine,
      sizes.map (fun size => (family.generate size (streams size)).1.map family.listing) =
        routines.map (fun routine => .ok ⟨family.target.fileHeader, [routine]⟩) ∧
      (family.table sizes).entries = routines.map (fun routine => some routine.name) ∧
      (SingleLine family.symbolStart → ∃ header,
        Declarations.read? (family.table sizes).render = some header ∧
        Tabulates routines header) := by
  obtain ⟨routines, drawn, names⟩ := routines_generated family sizes accepted streams
  have length : sizes.length = routines.length := by
    have both := congrArg List.length names
    rw [List.length_map, List.length_map] at both
    exact both.symm
  have files := congrArg (List.map (Except.map family.listing)) drawn
  rw [List.map_map, List.map_map] at files
  refine ⟨routines, files, ?_, fun single => ⟨_, header_read family sizes single, ?_⟩⟩
  · have present := congrArg (List.map some) names
    rw [List.map_map, List.map_map] at present
    exact present.symm
  · constructor
    case countMacro => rfl
    case count => exact length
    case declared => exact names.symm
    case slots => exact names.symm

end CycleFamily

section agreement

variable (architecture : Architecture) (pool : Option (List Reg)) (target : Target) (start : String)
  (built : Target.build architecture pool = .ok target)

include built in
/-- The header over the multiply functions has their file's functions in the slots of their
widths, behind an empty slot, and the header over the cycle routines has all of theirs, in the
order of the sizes. -/
theorem headers_agree :
    (∀ maxWidth unroll family, MultiplyFamily.create target maxWidth unroll start = .ok family →
      Text.SingleLine start → ∃ listing header,
        family.produce.listing = .ok listing ∧
        Declarations.read? family.table.render = some header ∧
        MultiplyFamily.Tabulates target maxWidth unroll listing header) ∧
    ∀ exponent sizes, sizesForExponent exponent = .ok sizes →
      sizes.Pairwise (· < ·) ∧
      (∀ size, size ∈ sizes ↔ ∃ power, 2 ≤ power ∧ power ≤ exponent ∧ size = 2 ^ power) ∧
      ∀ streams : Nat → Random.Stream, ∃ routines : List Routine,
        sizes.map (fun size => ((⟨target, start⟩ : CycleFamily).generate size (streams size)).1.map
            (⟨target, start⟩ : CycleFamily).listing) =
          routines.map (fun routine => .ok ⟨target.fileHeader, [routine]⟩) ∧
        ((⟨target, start⟩ : CycleFamily).table sizes).entries =
          routines.map (fun routine => some routine.name) ∧
        (Text.SingleLine start → ∃ header,
          Declarations.read? ((⟨target, start⟩ : CycleFamily).table sizes).render = some header ∧
          CycleFamily.Tabulates routines header) := by
  obtain ⟨rfl, accepted⟩ := Target.build_withPool architecture pool target built
  constructor
  · intro maxWidth unroll family created single
    have shaped := MultiplyFamily.shape_of_create created
    cases MultiplyFamily.of_create created
    exact MultiplyFamily.file_tabulated architecture _ maxWidth unroll start accepted shaped single
  · intro exponent sizes allowed
    obtain ⟨bounded, increasing, powers⟩ := CycleFamily.sizes_powers exponent sizes allowed
    refine ⟨increasing, powers, CycleFamily.files_tabulated ⟨_, start⟩ sizes ?_⟩
    intro size member
    obtain ⟨power, least, most, rfl⟩ := (powers size).mp member
    exact (Chain.accepted_iff_power _).mpr ⟨power, least, Nat.le_trans most bounded, rfl⟩

theorem headers_agree_small :
    (∃ listing header,
      (⟨Target.stock .mips32, 2, 4, "func"⟩ : MultiplyFamily).produce.listing = .ok listing ∧
      Declarations.read? (⟨Target.stock .mips32, 2, 4, "func"⟩ : MultiplyFamily).table.render =
        some header ∧
      MultiplyFamily.Tabulates (Target.stock .mips32) 2 4 listing header) ∧
    ∃ routines header,
      [4, 8].map (fun size => ((⟨Target.stock .mips32, "func"⟩ : CycleFamily).generate size
          (Random.Stream.ofSeed 1)).1.map (⟨Target.stock .mips32, "func"⟩ : CycleFamily).listing) =
        routines.map (fun routine => .ok ⟨(Target.stock .mips32).fileHeader, [routine]⟩) ∧
      Declarations.read? ((⟨Target.stock .mips32, "func"⟩ : CycleFamily).table [4, 8]).render =
        some header ∧
      CycleFamily.Tabulates routines header := by
  obtain ⟨multiplies, cycles⟩ := headers_agree .mips32 none (Target.stock .mips32) "func" rfl
  obtain ⟨_, _, drawn⟩ := cycles 3 [4, 8] rfl
  obtain ⟨routines, generated, _, tabulated⟩ := drawn fun _ => Random.Stream.ofSeed 1
  obtain ⟨header, read, table⟩ := tabulated (by decide)
  exact ⟨multiplies 2 4 _ rfl (by decide), routines, header, generated, read, table⟩

end agreement

end Microbench
