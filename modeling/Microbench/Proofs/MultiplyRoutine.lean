import Microbench.Proofs.MultiplyBody
/-!
The text of a multiply function and the code that it assembles to.

Every accepted width has a function. Its lines assemble, its entry and its loop head are
found where they stand, and what stands between the loop head and the loop branch is the
loop body and nothing else.
-/
namespace Microbench.MultiplyFamily
open Statement Target InstructionSet

section pieces

variable (architecture : Architecture) (pool : List Reg) (width : Nat)
  (accepted : architecture.Accepts pool)

include accepted in
theorem writable_of_taken (reg : Reg) (member : reg ∈ pool.take width) :
    architecture.Writable reg :=
  architecture.writable_of_free reg (accepted.free reg (List.mem_of_mem_take member))

include accepted in
theorem apart_of_taken (reg : Reg) (member : reg ∈ pool.take width) :
    reg ≠ architecture.stockAbi.counter :=
  (accepted.free reg (List.mem_of_mem_take member)).ne_counter

include accepted in
/-- The numbers of accumulators are not cut short. -/
theorem ordinal_toNat (index : Nat) (bound : index < (pool.take width).length) :
    (UInt16.ofNat (index + 1)).toNat = index + 1 := by
  have few := accepted.few
  rw [List.length_take] at bound
  apply UInt16.toNat_ofNat_of_lt'
  rw [show UInt16.size = 65536 from rfl]
  omega

include accepted in
theorem setUp_fits : ∀ statement ∈ setUp (withPool architecture pool) (pool.take width),
    statement.Fits architecture := by
  have argument := architecture.writable_argument
  intro statement member
  rcases List.mem_append.mp member with copied | numbered
  · rcases List.mem_append.mp copied with counted | resulted
    · cases List.mem_singleton.mp counted
      exact move_fits (withPool architecture pool) _ _ architecture.writable_counter argument
    · split at resulted
      · cases resulted
      · cases List.mem_singleton.mp resulted
        exact move_fits (withPool architecture pool) _ _ architecture.writable_result argument
  · obtain ⟨⟨reg, index⟩, found, rfl⟩ := List.mem_map.mp numbered
    have place := List.mk_mem_zipIdx_iff_getElem?.mp found
    have bound := (List.getElem?_eq_some_iff.mp place).1
    refine loadSmall_fits (withPool architecture pool) _ _
      (writable_of_taken architecture pool width accepted reg (List.mem_of_getElem? place)) ?_
    have few := accepted.few
    rw [ordinal_toNat architecture pool width accepted index bound]
    rw [List.length_take] at bound
    omega

theorem setUp_movesData (target : Target) (accumulators : List Reg) :
    ∀ statement ∈ setUp target accumulators, target.MovesData statement := by
  intro statement member
  rcases List.mem_append.mp member with copied | numbered
  · rcases List.mem_append.mp copied with counted | resulted
    · cases List.mem_singleton.mp counted
      exact .move _ _
    · split at resulted
      · cases resulted
      · cases List.mem_singleton.mp resulted
        exact .move _ _
  · obtain ⟨numbered, _, rfl⟩ := List.mem_map.mp numbered
    exact .loadSmall _ _

theorem setUp_goesTo (target : Target) (accumulators : List Reg) :
    GoesTo (setUp target accumulators) [] := goesTo_of_movesData _ (setUp_movesData target accumulators)

include accepted in
theorem preamble_quiet {frame : Frame} {prologue : List Statement}
    (opens : frame.Opens architecture prologue) :
    architecture.isa.Quiet ((prologue ++ setUp (withPool architecture pool) (pool.take width)).map
      (cell architecture)) := by
  apply plain_quiet
  · intro statement member
    rcases List.mem_append.mp member with taking | starting
    · exact opens.fits statement taking
    · exact setUp_fits architecture pool width accepted statement starting
  · intro statement member
    rcases List.mem_append.mp member with taking | starting
    · exact opens.plain statement taking
    · exact (setUp_movesData _ _ statement starting).plain

include accepted in
theorem body_fits (unroll : Nat) :
    ∀ statement ∈ body (withPool architecture pool) (pool.take width) unroll,
      statement.Fits architecture := by
  intro statement member
  rw [body_rota] at member
  obtain ⟨reg, found, rfl⟩ := List.mem_map.mp member
  have own := writable_of_taken architecture pool width accepted reg (mem_rota _ _ _ found)
  exact multiply_fits (withPool architecture pool) _ _ _ own own architecture.writable_counter

theorem body_steady (target : Target) (accumulators : List Reg) (unroll : Nat) :
    ∀ statement ∈ body target accumulators unroll, statement.Steady := by
  intro statement member
  rw [body_rota] at member
  obtain ⟨reg, _, rfl⟩ := List.mem_map.mp member
  exact multiply_steady target reg reg _

theorem body_goesTo (target : Target) (accumulators : List Reg) (unroll : Nat) :
    GoesTo (body target accumulators unroll) [] :=
  goesTo_of_steady _ (body_steady target accumulators unroll)

end pieces

section layout

def branchCells (target : Target) (unroll : Nat) (head : String) : target.architecture.isa.Code :=
  (target.loopBranch target.abi.counter head unroll).map (cell target.architecture)

def loopCode (target : Target) (accumulators : List Reg) (unroll : Nat) (head : String)
    (rest : target.architecture.isa.Code) : target.architecture.isa.Code :=
  .label head :: (bodyCells target accumulators unroll ++ (branchCells target unroll head ++ rest))

def preamble (architecture : Architecture) (pool : List Reg) (width : Nat) (name : String)
    (prologue : List Statement) : architecture.isa.Code :=
  .label name ::
    (prologue ++ setUp (withPool architecture pool) (pool.take width)).map (cell architecture)

def entryCode (architecture : Architecture) (pool : List Reg) (unroll width : Nat) (name : String)
    (frame : Frame) (prologue : List Statement) (back : architecture.isa.Code) :
    architecture.isa.Code :=
  preamble architecture pool width name prologue ++
    loopCode (withPool architecture pool) (pool.take width) unroll (loopLabel width)
      ((frame.epilogue (withPool architecture pool)).map (cell architecture) ++ back)

structure Laid (architecture : Architecture) (pool : List Reg) (unroll width : Nat)
    (start : String) (routine : Routine) (frame : Frame) (prologue : List Statement)
    (front back : architecture.isa.Code) : Prop where
  framed : Frame.ofRegisters? (withPool architecture pool).abi (pool.take width) = some frame
  saved : frame.saved = (pool.take width).filter architecture.stockAbi.isCalleeSaved
  sound : frame.Sound architecture
  opens : frame.Opens architecture prologue
  named : routine.name = symbolName start width
  assembled : architecture.isa.assemble routine.lines =
    some (front ++ entryCode architecture pool unroll width routine.name frame prologue back)
  unlabelled : front.filterMap Cell.label? = []

variable (architecture : Architecture) (pool : List Reg) (maxWidth unroll width : Nat)
  (start : String) (accepted : architecture.Accepts pool)
  (shaped : Shape.error? ⟨width, unroll⟩ (withPool architecture pool) = none)
  (unbroken : ∀ c ∈ start.toList, Text.isBlank c = false)
  (apart : ¬ ".Lilp".toList <+: start.toList)

def pieces (architecture : Architecture) (pool : List Reg) (unroll width : Nat) (name : String)
    (frame : Frame) (prologue : List Statement) (opening closing : List Directive) :
    List Statement :=
  (opening.map .directive ++ [.label name]) ++ prologue ++
    setUp (withPool architecture pool) (pool.take width) ++ [.label (loopLabel width)] ++
    body (withPool architecture pool) (pool.take width) unroll ++
    (withPool architecture pool).loopBranch architecture.stockAbi.counter (loopLabel width) unroll ++
    frame.epilogue (withPool architecture pool) ++ closing.map .directive

section piecewise

variable (frame : Frame) (prologue : List Statement) (opening closing : List Directive)
  (sound : frame.Sound architecture) (opens : frame.Opens architecture prologue)

/-- The loop, with what stands in front of its head and behind its branch. -/
theorem pieces_parted (name : String) :
    pieces architecture pool unroll width name frame prologue opening closing =
      ((opening.map Statement.directive ++ [.label name]) ++ prologue ++
          setUp (withPool architecture pool) (pool.take width)) ++
        .label (loopLabel width) :: (body (withPool architecture pool) (pool.take width) unroll ++
          ((withPool architecture pool).loopBranch architecture.stockAbi.counter (loopLabel width)
              unroll ++
            (frame.epilogue (withPool architecture pool) ++ closing.map Statement.directive))) := by
  simp only [pieces, List.append_assoc, List.cons_append, List.nil_append]

include accepted shaped unbroken sound opens in
theorem pieces_fit : ∀ statement ∈ pieces architecture pool unroll width (symbolName start width)
    frame prologue opening closing, statement.Fits architecture := by
  obtain ⟨⟨_, encoded⟩, _⟩ := shape_bounds shaped
  have fits := loopLabel_fits width
  have entry : ∀ statement ∈ [Statement.label (symbolName start width)],
      statement.Fits architecture := by
    intro statement member
    cases List.mem_singleton.mp member
    exact symbol_fits architecture start width unbroken
  have head : ∀ statement ∈ [Statement.label (loopLabel width)], statement.Fits architecture := by
    intro statement member
    cases List.mem_singleton.mp member
    exact label_of_fits architecture _ fits
  have branch := loopBranch_fits (withPool architecture pool) architecture.stockAbi.counter
    (loopLabel width) unroll architecture.writable_counter fits encoded
  simp only [pieces, List.forall_mem_append]
  exact ⟨⟨⟨⟨⟨⟨⟨⟨directives_fit architecture opening, entry⟩, opens.fits⟩,
    setUp_fits architecture pool width accepted⟩, head⟩,
    body_fits architecture pool width accepted unroll⟩, branch⟩,
    Frame.epilogue_fits pool sound⟩, directives_fit architecture closing⟩

include opens in
theorem pieces_labels (name : String) : (pieces architecture pool unroll width name
    frame prologue opening closing).filterMap defined? = [name, loopLabel width] := by
  simp only [pieces, List.filterMap_append, directives_unlabelled, plain_unlabelled _ opens.plain,
    (setUp_goesTo _ _).unlabelled, (body_goesTo _ _ _).unlabelled,
    (loopBranch_goesTo _ _ _ _).unlabelled, (Frame.epilogue_goesTo _).unlabelled]
  rfl

theorem pieces_cells (name : String) : (pieces architecture pool unroll width name
      frame prologue opening closing).map (cell architecture) =
    (opening.map Statement.directive).map (cell architecture) ++
      entryCode architecture pool unroll width name frame prologue
        ((closing.map Statement.directive).map (cell architecture)) := by
  simp only [pieces, entryCode, preamble, loopCode, bodyCells, branchCells, List.map_append,
    List.append_assoc, List.map_cons, List.cons_append, List.nil_append]
  rfl

end piecewise

include accepted shaped in
/-- Every accepted width has a function, whatever it is named. -/
theorem routine_statements : ∃ frame prologue,
    (⟨withPool architecture pool, maxWidth, unroll, start⟩ : MultiplyFamily).routine width =
      .ok ⟨symbolName start width,
        (withPool architecture pool).opening (symbolName start width) true ++ prologue ++
          setUp (withPool architecture pool) (pool.take width) ++ [.label (loopLabel width)] ++
          body (withPool architecture pool) (pool.take width) unroll ++
          (withPool architecture pool).loopBranch architecture.stockAbi.counter (loopLabel width)
            unroll ++
          frame.epilogue (withPool architecture pool) ++
          (withPool architecture pool).closing (symbolName start width) true, frame.saved⟩ ∧
    Frame.ofRegisters? (withPool architecture pool).abi (pool.take width) = some frame ∧
    frame.saved = (pool.take width).filter architecture.stockAbi.isCalleeSaved ∧
    frame.Sound architecture ∧
    frame.prologue? (withPool architecture pool) = some prologue ∧
    frame.Opens architecture prologue := by
  obtain ⟨frame, framed, saved, sound⟩ := Frame.ofRegisters_sound architecture pool
    (pool.take width) accepted (List.take_sublist width pool)
  obtain ⟨prologue, taking, opens⟩ := Frame.prologue_opens pool sound
  refine ⟨frame, prologue, ?_, framed, saved, sound, taking, opens⟩
  simp only [routine, accumulators, shaped, framed, taking, bind, Except.bind, pure, Except.pure,
    symbol]

include accepted shaped in
theorem routine_pieces : ∃ frame prologue opening closing,
    (⟨withPool architecture pool, maxWidth, unroll, start⟩ : MultiplyFamily).routine width =
      .ok ⟨symbolName start width, pieces architecture pool unroll width (symbolName start width) frame
        prologue opening closing, frame.saved⟩ ∧
    Frame.ofRegisters? (withPool architecture pool).abi (pool.take width) = some frame ∧
    frame.saved = (pool.take width).filter architecture.stockAbi.isCalleeSaved ∧
    frame.Sound architecture ∧
    frame.prologue? (withPool architecture pool) = some prologue ∧
    frame.Opens architecture prologue := by
  -- what is told of it by directives can be left open
  obtain ⟨frame, prologue, made, known⟩ :=
    routine_statements architecture pool maxWidth unroll width start accepted shaped
  obtain ⟨opening, opened⟩ :=
    opening_directives (withPool architecture pool) (symbolName start width) true
  obtain ⟨closing, closed⟩ :=
    closing_directives (withPool architecture pool) (symbolName start width) true
  rw [opened, closed] at made
  exact ⟨frame, prologue, opening, closing, made, known⟩

include accepted shaped unbroken apart in
/-- Every accepted width has a function, and its lines assemble. -/
theorem routine_laid : ∃ frame prologue routine front back,
    (⟨withPool architecture pool, maxWidth, unroll, start⟩ : MultiplyFamily).routine width =
      .ok routine ∧
    Laid architecture pool unroll width start routine frame prologue front back := by
  obtain ⟨frame, prologue, opening, closing, made, framed, saved, sound, _, opens⟩ :=
    routine_pieces architecture pool maxWidth unroll width start accepted shaped
  refine ⟨frame, prologue, _, (opening.map Statement.directive).map (cell architecture),
    (closing.map Statement.directive).map (cell architecture), made, framed, saved, sound, opens, rfl,
    ?_, ?_⟩
  · have fits := pieces_fit architecture pool unroll width start accepted shaped unbroken frame
      prologue opening closing sound opens
    have distinct : ((pieces architecture pool unroll width (symbolName start width) frame prologue
        opening closing).filterMap defined?).Nodup := by
      rw [pieces_labels architecture pool unroll width frame prologue opening closing opens]
      simpa using symbol_not_loopLabel start width width apart
    rw [← pieces_cells]
    exact assemble_texts architecture _ fits distinct
  · rw [labels_cells]
    exact directives_unlabelled opening

end layout

section found

variable {architecture : Architecture} {pool : List Reg} {unroll width : Nat} {start : String}
  {routine : Routine} {frame : Frame} {prologue : List Statement}
  {front back : architecture.isa.Code}
  (laid : Laid architecture pool unroll width start routine frame prologue front back)

include laid in
theorem entry_found : architecture.isa.seek routine.name
    (front ++ entryCode architecture pool unroll width routine.name frame prologue back) =
      some (entryCode architecture pool unroll width routine.name frame prologue back) :=
  seek_append routine.name front _ (by simp [laid.unlabelled])

variable (accepted : architecture.Accepts pool)

include laid accepted in
theorem labels_before : (front ++ preamble architecture pool width routine.name prologue).filterMap
    Cell.label? = [routine.name] := by
  rw [List.filterMap_append, laid.unlabelled, List.nil_append, preamble, labels_cons,
    (preamble_quiet architecture pool width accepted laid.opens).labels]

variable (apart : ¬ ".Lilp".toList <+: start.toList)

include laid accepted apart in
theorem head_fresh : loopLabel width ∉
    (front ++ preamble architecture pool width routine.name prologue).filterMap Cell.label? := by
  rw [labels_before laid accepted, laid.named, List.mem_singleton]
  exact (symbol_not_loopLabel start width width apart).symm

include laid accepted apart in
theorem head_found : architecture.isa.seek (loopLabel width)
    (front ++ entryCode architecture pool unroll width routine.name frame prologue back) =
      some (loopCode (withPool architecture pool) (pool.take width) unroll (loopLabel width)
        ((frame.epilogue (withPool architecture pool)).map (cell architecture) ++ back)) := by
  rw [entryCode, ← List.append_assoc]
  exact seek_append (loopLabel width) _ _ (head_fresh laid accepted apart)

end found

section interleaved

variable (architecture : Architecture) (pool : Option (List Reg)) (target : Target)
  (maxWidth unroll width : Nat) (start : String) (family : MultiplyFamily)
  (built : Target.build architecture pool = .ok target)
  (created : create target maxWidth unroll start = .ok family)
  (shaped : Shape.error? ⟨width, unroll⟩ target = none)
  (unbroken : ∀ c ∈ start.toList, Text.isBlank c = false)
  (apart : ¬ ".Lilp".toList <+: start.toList)

include built created shaped unbroken apart in
/-- Between the loop head and the loop branch of a function stands a body in which the
accumulators take turns. They are distinct and have no role of their own, and the branch
takes exactly the unroll factor off the counter. -/
theorem loop_body_interleaves : ∃ routine program before body branch rest,
    family.routine width = .ok routine ∧
    architecture.isa.assemble routine.lines = some program ∧
    program = before ++ .label (loopLabel width) :: (body ++ (branch ++ rest)) ∧
    loopLabel width ∉ before.filterMap Cell.label? ∧
    branch = (target.loopBranch target.abi.counter (loopLabel width) unroll).map
      (cell architecture) ∧
    branch.filterMap (fun passed => passed.instruction?.bind architecture.isa.lowers?) =
      [(target.abi.counter, unroll)] ∧
    RoundRobin architecture.isa (target.abi.accumulators.take width) target.abi.counter unroll
      body ∧
    (target.abi.accumulators.take width).length = width ∧
    (target.abi.accumulators.take width).Nodup ∧
    ∀ reg ∈ target.abi.accumulators.take width, reg ∉ target.abi.fixedRegisters := by
  obtain ⟨rfl, accepted⟩ := build_withPool architecture pool target built
  cases of_create created
  obtain ⟨frame, prologue, routine, front, back, made, laid⟩ := routine_laid architecture _ maxWidth
    unroll width start accepted shaped unbroken apart
  refine ⟨routine, _, _, _, _, _, made, laid.assembled, (List.append_assoc ..).symm,
    head_fresh laid accepted apart, rfl, ?_, ?_, ?_, ?_, ?_⟩
  · exact loopBranch_lowers (withPool architecture _) (loopLabel width) architecture.stockAbi.counter
      architecture.writable_counter unroll
  · exact body_roundRobin (withPool architecture _) _ unroll
      (writable_of_taken architecture _ width accepted) architecture.writable_counter
      (apart_of_taken architecture _ width accepted)
      (accepted.distinct.sublist (List.take_sublist width _))
  · rw [List.length_take]
    exact Nat.min_eq_left (shape_bounds shaped).2.2
  · exact accepted.distinct.sublist (List.take_sublist width _)
  · intro reg member
    exact (accepted.free reg (List.mem_of_mem_take member)).2

theorem loop_body_interleaves_two :
    ∃ routine program before body branch rest,
      (⟨withPool .aarch64 [20, 10], 2, 3, "func"⟩ : MultiplyFamily).routine 2 = .ok routine ∧
      AArch64.instructionSet.assemble routine.lines = some program ∧
      program = before ++ .label (loopLabel 2) :: (body ++ (branch ++ rest)) ∧
      RoundRobin AArch64.instructionSet [20, 10] 9 3 body ∧
      branch.filterMap (fun passed => passed.instruction?.bind AArch64.Instruction.lowers?) =
        [(9, 3)] := by
  obtain ⟨routine, program, before, body, branch, rest, made, assembled, laid, _, _, lowered, turns,
      _⟩ :=
    loop_body_interleaves .aarch64 (some [20, 10]) (withPool .aarch64 [20, 10]) 2 3 2 "func" _
      rfl rfl rfl (by simp [Text.isBlank]) (by decide)
  exact ⟨routine, program, before, body, branch, rest, made, assembled, laid, turns, lowered⟩

end interleaved

end Microbench.MultiplyFamily
