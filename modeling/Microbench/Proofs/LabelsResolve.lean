import Mathlib.Data.List.Nodup
import Microbench.Proofs.Headers
import Microbench.Proofs.RoutineLines
/-!
Labels are defined once, and what goes to a label finds it.

The entry of a function can be named like a point of it: the names of both are a text with a
number behind it, and the text before the number of an entry is anything at all. In a cycle routine
the number of the entry is larger than all others, which keeps it apart from them even where it
has fewer digits left to itself. In a file of multiply functions every entry can meet the loop head
of any function, unless its text does not begin like theirs.
-/
namespace Microbench
open Text Statement Target

def Listing.lines (listing : Listing) : List String :=
  listing.header.map text ++ listing.routines.flatMap Routine.lines

/-- Lines that define these labels, each once, and go to these goals, each of which is defined
once. -/
structure Resolved (target : Target) (lines labels goals : List String) : Prop where
  defined : definitions lines = labels
  distinct : labels.Nodup
  goes : target.references lines = goals
  once : ∀ goal ∈ goals, labels.count goal = 1

theorem resolved_of_legible (target : Target) (statements : List Statement)
    (legible : ∀ statement ∈ statements, statement.Legible target)
    (distinct : (statements.filterMap defined?).Nodup)
    (inside : ∀ goal ∈ statements.filterMap goesTo?, goal ∈ statements.filterMap defined?) :
    Resolved target (statements.map text) (statements.filterMap defined?)
      (statements.filterMap goesTo?) where
  defined := definitions_texts target statements legible
  distinct := distinct
  goes := references_texts target statements legible
  once := fun goal member => List.count_eq_one_of_mem distinct (inside goal member)

namespace CycleFamily

section routines

variable (architecture : Architecture) (pool : List Reg) (chain : Chain) (start : String)

theorem blocks_references (target : Target) (first count : Nat) :
    (blocks target chain first count).filterMap goesTo? =
      (List.range' first count).map fun label => cycleLabel (chain.next label) := by
  induction count generalizing first with
  | zero => rfl
  | succ count ih =>
      rw [blocks_succ, List.range'_succ, List.map_cons, ← ih (first + 1), List.filterMap_cons,
        List.filterMap_append, (leaving_goesTo target chain first).goes]
      rfl

theorem statements_legible : ∀ statement ∈
      (⟨withPool architecture pool, start⟩ : CycleFamily).statements chain,
    statement.Legible (withPool architecture pool) := by
  have left (label : Nat) := (leaving_goesTo (withPool architecture pool) chain label).legible
    (withPool architecture pool)
    (leaving_fits (withPool architecture pool) chain architecture.writable_argument label) (by
      simpa using ⟨cycleLabel_fits (chain.next label), numbered_plain ".L" (chain.next label)⟩)
  have returns := (returnSize_goesTo (withPool architecture pool) chain.size).legible
    (withPool architecture pool) (returnSize_fits chain.size architecture pool) (by simp)
  have plain := numbered_plain start chain.size
  simp only [statements, blocks_edges, List.forall_mem_append]
  exact ⟨⟨⟨opening_legible _ _ plain false, blocks_all _ chain _
    (fun label => label_legible _ (cycleLabel label)) left 0 chain.size⟩, returns⟩,
    closing_legible _ _ plain false⟩

theorem statements_references (family : CycleFamily) : (family.statements chain).filterMap goesTo? =
    chain.edges.map fun edge => cycleLabel edge.next := by
  obtain ⟨opening, opened⟩ := opening_directives family.target (family.symbol chain.size) false
  obtain ⟨closing, closed⟩ := closing_directives family.target (family.symbol chain.size) false
  have nowhere : [Statement.label (family.symbol chain.size)].filterMap goesTo? = [] := rfl
  simp only [statements, opened, closed, blocks_edges, List.filterMap_append, directives_go_nowhere,
    nowhere, (returnSize_goesTo family.target chain.size).goes, blocks_references, List.nil_append,
    List.append_nil]
  rw [edges_range, List.map_map, List.range_eq_range']
  rfl

/-- The labels of the routine over a chain, whatever the routine is called. -/
theorem routine_resolved (order : List Nat) (made : Chain.ofOrder order = .ok chain) :
    ∃ routine, (⟨withPool architecture pool, start⟩ : CycleFamily).emit chain = .ok routine ∧
      routine.name = symbolName start chain.size ∧
      Resolved (withPool architecture pool) routine.lines
        (routine.name :: (List.range chain.size).map cycleLabel)
        (chain.edges.map fun edge => cycleLabel edge.next) := by
  let family : CycleFamily := ⟨withPool architecture pool, start⟩
  obtain ⟨accepted, sound⟩ := Chain.ofOrder_checked order chain made
  have present := Chain.present_of_accepted accepted
  have cycle := Chain.single_of_order order chain made
  have labels := statements_labels family chain
  have goals := statements_references chain family
  refine ⟨_, emit_sound chain family present sound, rfl, ?_⟩
  have resolved := resolved_of_legible family.target (family.statements chain)
    (statements_legible architecture pool chain start)
  rw [labels, goals] at resolved
  apply resolved (entry_distinct start chain.size)
  -- every block leads to a label of the chain, which has a block
  intro goal member
  obtain ⟨edge, found, rfl⟩ := List.mem_map.mp member
  rw [edges_range] at found
  obtain ⟨label, inside, rfl⟩ := List.mem_map.mp found
  have led := cycle.stays label 1 (List.mem_range.mp inside)
  exact List.mem_cons_of_mem _ (List.mem_map_of_mem (List.mem_range.mpr led))

end routines

end CycleFamily

namespace MultiplyFamily

section functions

variable (architecture : Architecture) (pool : List Reg) (maxWidth unroll width : Nat)
  (start : String) (routine : Routine) (accepted : architecture.Accepts pool)
  (shaped : Shape.error? ⟨width, unroll⟩ (withPool architecture pool) = none)
  (made : (⟨withPool architecture pool, maxWidth, unroll, start⟩ : MultiplyFamily).routine width =
    .ok routine)

include accepted shaped made

theorem statements_legible :
    ∀ statement ∈ routine.statements, statement.Legible (withPool architecture pool) := by
  let target := withPool architecture pool
  obtain ⟨frame, prologue, found, _, _, sound, taking, opens⟩ :=
    routine_statements architecture pool maxWidth unroll width start accepted shaped
  cases made.symm.trans found
  obtain ⟨⟨_, encoded⟩, _⟩ := shape_bounds shaped
  have plain := numbered_plain start width
  have head := loopLabel_fits width
  have fits := loopBranch_fits target architecture.stockAbi.counter (loopLabel width) unroll
    architecture.writable_counter head encoded
  -- between its labels a function runs straight on, but for the loop branch
  have taken := goesTo_of_movesData prologue (Frame.prologue_movesData taking)
  have ready := setUp_goesTo target (pool.take width)
  have turns := body_goesTo target (pool.take width) unroll
  have loops := (loopBranch_goesTo target architecture.stockAbi.counter (loopLabel width)
    unroll).legible target fits (by simpa using ⟨head, numbered_plain ".Lilp" width⟩)
  have returns := (Frame.epilogue_goesTo target).legible target (Frame.epilogue_fits pool sound)
    (by simp)
  simp only [List.forall_mem_append]
  exact ⟨⟨⟨⟨⟨⟨⟨opening_legible target _ plain true, taken.legible target opens.fits (by simp)⟩,
    ready.legible target (setUp_fits architecture pool width accepted) (by simp)⟩,
    by simpa using label_legible target (loopLabel width)⟩,
    turns.legible target (body_fits architecture pool width accepted unroll) (by simp)⟩,
    loops⟩, returns⟩, closing_legible target _ plain true⟩

theorem statements_labels :
    routine.statements.filterMap defined? = [symbolName start width, loopLabel width] := by
  obtain ⟨frame, prologue, opening, closing, found, _, _, _, _, opens⟩ :=
    routine_pieces architecture pool maxWidth unroll width start accepted shaped
  cases made.symm.trans found
  exact pieces_labels architecture pool unroll width frame prologue opening closing opens _

theorem statements_references : routine.statements.filterMap goesTo? = [loopLabel width] := by
  obtain ⟨frame, prologue, opening, closing, found, _, _, _, taking, _⟩ :=
    routine_pieces architecture pool maxWidth unroll width start accepted shaped
  cases made.symm.trans found
  have taken := goesTo_of_movesData prologue (Frame.prologue_movesData taking)
  have nowhere (name : String) : [Statement.label name].filterMap goesTo? = [] := rfl
  simp only [pieces, List.filterMap_append, directives_go_nowhere, nowhere, taken.goes,
    (setUp_goesTo _ _).goes, (body_goesTo _ _ _).goes, (loopBranch_goesTo _ _ _ _).goes,
    (Frame.epilogue_goesTo _).goes,
    List.nil_append, List.append_nil]

omit made in
/-- A function defines its entry and its loop head, and goes to the latter. -/
theorem routine_resolved (apart : ¬ ".Lilp".toList <+: start.toList) : ∃ routine,
    (⟨withPool architecture pool, maxWidth, unroll, start⟩ : MultiplyFamily).routine width =
      .ok routine ∧ routine.name = symbolName start width ∧
    Resolved (withPool architecture pool) routine.lines [routine.name, loopLabel width]
      [loopLabel width] ∧
    routine.localLabels = [loopLabel width] := by
  obtain ⟨frame, prologue, made, _⟩ :=
    routine_statements architecture pool maxWidth unroll width start accepted shaped
  have legible := statements_legible architecture pool maxWidth unroll width start _ accepted shaped
    made
  have labels := statements_labels architecture pool maxWidth unroll width start _ accepted shaped
    made
  have goals := statements_references architecture pool maxWidth unroll width start _ accepted
    shaped made
  have fresh := symbol_not_loopLabel start width width apart
  refine ⟨_, made, rfl, ?_, ?_⟩
  · have resolved := resolved_of_legible (withPool architecture pool) _ legible
    rw [labels, goals] at resolved
    exact resolved (by simpa using fresh) (by simp)
  · rw [Routine.localLabels_marked _ fun statement member => (legible statement member).marked,
      labels]
    · simp [fresh.symm]
    · rw [labels]
      simpa using ⟨numbered_plain start width, numbered_plain ".Lilp" width⟩

end functions

section files

structure FileResolved (target : Target) (maxWidth : Nat) (listing : Listing) : Prop where
  labels : (definitions listing.lines).length = 2 * maxWidth
  distinct : (definitions listing.lines).Nodup
  function : ∀ width, 1 ≤ width → width ≤ maxWidth → ∃ routine,
    listing.routines[width - 1]? = some routine ∧
    Resolved target routine.lines [routine.name, loopLabel width] [loopLabel width] ∧
    routine.localLabels = [loopLabel width]

theorem labels_distinct (start : String) (apart : ¬ ".Lilp".toList <+: start.toList)
    (widths : List Nat) (distinct : widths.Nodup) :
    (widths.flatMap fun width => [symbolName start width, loopLabel width]).Nodup := by
  refine List.nodup_flatMap.mpr ⟨fun width _ => ?_, distinct.imp fun {first second} different => ?_⟩
  · simpa using symbol_not_loopLabel start width width apart
  · have entries : symbolName start first ≠ symbolName start second :=
      fun same => different (numbered_injective _ _ _ same)
    have heads : loopLabel first ≠ loopLabel second :=
      fun same => different (numbered_injective _ _ _ same)
    simp [Function.onFun, entries.symm, heads.symm, symbol_not_loopLabel start _ _ apart,
      (symbol_not_loopLabel start first second apart).symm]

variable (architecture : Architecture) (pool : List Reg) (maxWidth unroll : Nat) (start : String)

theorem file_resolved (accepted : architecture.Accepts pool)
    (shaped : Shape.error? ⟨maxWidth, unroll⟩ (withPool architecture pool) = none)
    (apart : ¬ ".Lilp".toList <+: start.toList) : ∃ listing,
      (⟨withPool architecture pool, maxWidth, unroll, start⟩ : MultiplyFamily).produce.listing =
        .ok listing ∧
      FileResolved (withPool architecture pool) maxWidth listing := by
  let family : MultiplyFamily := ⟨withPool architecture pool, maxWidth, unroll, start⟩
  obtain ⟨made, complete, listed, own⟩ := routines_complete family
    (fun width routine => routine.name = symbolName start width ∧
      Resolved family.target routine.lines [routine.name, loopLabel width] [loopLabel width] ∧
      routine.localLabels = [loopLabel width]) family.widths (by
    intro width member
    obtain ⟨least, most⟩ := List.mem_range'_1.mp member
    have narrower : width ≤ maxWidth := Nat.lt_succ_iff.mp (Nat.one_add maxWidth ▸ most)
    exact routine_resolved architecture pool maxWidth unroll width start accepted
      (shape_narrower shaped least narrower) apart)
  have produced : family.produce.listing = .ok ⟨family.target.fileHeader, made.map Prod.snd⟩ := by
    simp only [produce, complete]
  have labels : definitions (Listing.mk family.target.fileHeader (made.map Prod.snd)).lines =
      family.widths.flatMap fun width => [symbolName start width, loopLabel width] := by
    have header : definitions (family.target.fileHeader.map text) = [] := rfl
    rw [← listed, Listing.lines, definitions, List.filterMap_append, ← definitions, header,
      List.nil_append, List.filterMap_flatMap, List.flatMap_map, List.flatMap_map]
    refine List.flatMap_congr fun pair member => ?_
    obtain ⟨named, resolved, _⟩ := own pair member
    rw [← named]
    exact resolved.defined
  refine ⟨_, produced, ?_, ?_, ?_⟩
  · have pairs : (family.widths.flatMap fun width => [symbolName start width, loopLabel width]).length
        = 2 * family.widths.length := by simp [Nat.mul_comm]
    rw [labels, pairs, widths, List.length_range']
  · rw [labels]
    exact labels_distinct start apart family.widths List.nodup_range'
  · intro width least most
    obtain ⟨routine, member, found⟩ := made_at maxWidth width made listed least most
    exact ⟨routine, found, (own (width, routine) member).2⟩

end files

end MultiplyFamily

section resolution

variable (architecture : Architecture) (pool : Option (List Reg)) (target : Target) (start : String)
  (built : Target.build architecture pool = .ok target)

include built in
/-- Whatever a cycle routine is called, its entry and its blocks have labels of their own, and
every branch of it goes to one of them. If functions are not called like loop heads, the same
holds of the entries and the loop heads in a whole file of them, and each function has its own
loop head as its only local label and goes to no other. -/
theorem labels_resolve :
    (∀ order chain, Chain.ofOrder order = .ok chain →
      ∃ routine, (⟨target, start⟩ : CycleFamily).emit chain = .ok routine ∧
        routine.name = symbolName start chain.size ∧
        Resolved target routine.lines
          (routine.name :: (List.range chain.size).map cycleLabel)
          (chain.edges.map fun edge => cycleLabel edge.next)) ∧
    (¬ ".Lilp".toList <+: start.toList →
      ∀ maxWidth unroll family, MultiplyFamily.create target maxWidth unroll start = .ok family →
        ∃ listing, family.produce.listing = .ok listing ∧
          MultiplyFamily.FileResolved target maxWidth listing) := by
  obtain ⟨rfl, accepted⟩ := Target.build_withPool architecture pool target built
  constructor
  · intro order chain made
    exact CycleFamily.routine_resolved architecture _ chain start order made
  · intro apart maxWidth unroll family created
    have shaped := MultiplyFamily.shape_of_create created
    cases MultiplyFamily.of_create created
    exact MultiplyFamily.file_resolved architecture _ maxWidth unroll start accepted shaped apart

/-- The entry of the routine below is called `.L14`, like the label of a fifteenth block. -/
theorem labels_resolve_lookalike :
    (∃ routine, Chain.ofOrder [0, 2, 1, 3] = .ok ⟨#[2, 3, 1, 0]⟩ ∧
      (⟨Target.stock .mips32, ".L1"⟩ : CycleFamily).emit ⟨#[2, 3, 1, 0]⟩ = .ok routine ∧
      Resolved (Target.stock .mips32) routine.lines [".L14", ".L0", ".L1", ".L2", ".L3"]
        [".L2", ".L3", ".L1", ".L0"]) ∧
    ∃ listing,
      (⟨Target.stock .mips32, 2, 4, ".L1"⟩ : MultiplyFamily).produce.listing = .ok listing ∧
      MultiplyFamily.FileResolved (Target.stock .mips32) 2 listing := by
  have crossing : Chain.ofOrder [0, 2, 1, 3] = .ok ⟨#[2, 3, 1, 0]⟩ := by decide +kernel
  obtain ⟨cycles, multiplies⟩ := labels_resolve .mips32 none (Target.stock .mips32) ".L1" rfl
  obtain ⟨routine, emitted, named, resolved⟩ := cycles _ _ crossing
  rw [named] at resolved
  exact ⟨⟨routine, crossing, emitted, resolved⟩, multiplies (by decide) 2 4 _ rfl⟩

end resolution

end Microbench
