import Microbench.Proofs.Acts
import Microbench.Proofs.Frames
import Microbench.Proofs.MultiplyBody
/-!
Multiply functions under a convention of any kind.

A convention that passes its check need not be one of the two stock ones: its roles may clash,
and any register may be callee-saved. The check looks at the pool, and so does the frame, which
keeps the accumulators that are callee-saved and no other register that the function writes.
So the function follows the convention as far as its other roles allow.
-/
namespace Microbench

namespace Act

inductive Works (abi : Abi) (unroll : Nat) (used : List Reg) : Act → Prop
  | idle : Works abi unroll used .idle
  | counts : Works abi unroll used (.sets abi.counter)
  | copies (moved : abi.result ≠ abi.argument) : Works abi unroll used (.sets abi.result)
  | accumulates (reg : Reg) (member : reg ∈ used) : Works abi unroll used (.sets reg)
  | lowers : Works abi unroll used (.shifts abi.counter (-unroll))

inductive Adjusts (base : Reg) (frame : Frame) : Act → Prop
  | idle : Adjusts base frame .idle
  | shifts (framed : frame.saved ≠ []) (amount : Int) : Adjusts base frame (.shifts base amount)
  | sets (framed : frame.saved ≠ []) : Adjusts base frame (.sets base)

theorem Adjusts.stays {base : Reg} {frame : Frame} {act : Act} (adjusts : act.Adjusts base frame) :
    act.returned? = none := by cases adjusts <;> rfl

theorem Works.stays {abi : Abi} {unroll : Nat} {used : List Reg} {act : Act}
    (works : act.Works abi unroll used) : act.returned? = none := by cases works <;> rfl

def filling (base : Reg) (slot : Reg × Nat) : Act := .stores slot.1 slot.2 base

def emptying (base : Reg) (slot : Reg × Nat) : Act := .loads slot.1 slot.2 base

inductive Emitted (target : Target) (unroll : Nat) (used : List Reg) (frame : Frame) : Act → Prop
  | frames {act : Act} (adjusts : act.Adjusts target.stackRegister frame) :
    Emitted target unroll used frame act
  | works {act : Act} (works : act.Works target.abi unroll used) : Emitted target unroll used frame act
  | stores (slot : Reg × Nat) (member : slot ∈ frame.slots) :
    Emitted target unroll used frame (filling target.stackRegister slot)
  | loads (slot : Reg × Nat) (member : slot ∈ frame.slots) :
    Emitted target unroll used frame (emptying target.stackRegister slot)
  | returns : Emitted target unroll used frame (.returns target.linkRegister)

end Act

structure Arranged (target : Target) (unroll : Nat) (used : List Reg) (frame : Frame)
    (leading working trailing acts : List Act) : Prop where
  whole : acts = leading ++ frame.slots.map (Act.filling target.stackRegister) ++ working ++
    frame.slots.map (Act.emptying target.stackRegister) ++ trailing
  leads : ∀ act ∈ leading, act.Adjusts target.stackRegister frame
  works : ∀ act ∈ working, act.Works target.abi unroll used
  trails : ∀ act ∈ trailing,
    act.Adjusts target.stackRegister frame ∨ act = .returns target.linkRegister
  returns : trailing.filterMap Act.returned? = [target.linkRegister]

namespace Arranged
open Act

section acts

variable {target : Target} {unroll : Nat} {used : List Reg} {frame : Frame}
  {leading working trailing acts : List Act}
  (arranged : Arranged target unroll used frame leading working trailing acts)

include arranged

theorem emitted : ∀ act ∈ acts, act.Emitted target unroll used frame := by
  intro act member
  rw [arranged.whole] at member
  simp only [List.mem_append, List.mem_map] at member
  rcases member with (((leads | ⟨slot, found, rfl⟩) | works) | ⟨slot, found, rfl⟩) | trails
  · exact .frames (arranged.leads act leads)
  · exact .stores slot found
  · exact .works (arranged.works act works)
  · exact .loads slot found
  · rcases arranged.trails act trails with adjusts | rfl
    · exact .frames adjusts
    · exact .returns

theorem addressed : AddressedFrom target.stackRegister target.abi.counter unroll acts := by
  intro act member other reg based
  cases arranged.emitted act member with
  | frames adjusts => cases adjusts <;> cases based; rfl
  | works works => cases works <;> cases based; exact absurd rfl other
  | stores slot found => exact (Option.some.inj based).symm
  | loads slot found => exact (Option.some.inj based).symm
  | returns => cases based

theorem returnsThrough : ReturnsThrough target.linkRegister acts := by
  have fills : (frame.slots.map (filling target.stackRegister)).filterMap returned? = [] :=
    List.filterMap_eq_nil_iff.mpr (List.forall_mem_map.mpr fun _ _ => rfl)
  have empties : (frame.slots.map (emptying target.stackRegister)).filterMap returned? = [] :=
    List.filterMap_eq_nil_iff.mpr (List.forall_mem_map.mpr fun _ _ => rfl)
  have leads : leading.filterMap Act.returned? = [] :=
    List.filterMap_eq_nil_iff.mpr fun act member => (arranged.leads act member).stays
  have works : working.filterMap Act.returned? = [] :=
    List.filterMap_eq_nil_iff.mpr fun act member => (arranged.works act member).stays
  rw [ReturnsThrough, arranged.whole]
  simp only [List.filterMap_append, leads, fills, works, empties, arranged.returns, List.nil_append]

/-- Every register that is written has one of these parts. -/
theorem written (saved : frame.saved ⊆ used) (act : Act) (member : act ∈ acts) (reg : Reg)
    (sets : act.written? = some reg) :
    reg = target.stackRegister ∧ frame.saved ≠ [] ∨ reg = target.abi.counter ∨
      reg = target.abi.result ∧ target.abi.result ≠ target.abi.argument ∨ reg ∈ used := by
  cases arranged.emitted act member with
  | frames adjusts =>
      cases adjusts with
      | idle => cases sets
      | shifts framed => exact .inl ⟨(Option.some.inj sets).symm, framed⟩
      | sets framed => exact .inl ⟨(Option.some.inj sets).symm, framed⟩
  | works works =>
      cases works with
      | idle => cases sets
      | counts => exact .inr (.inl (Option.some.inj sets).symm)
      | lowers => exact .inr (.inl (Option.some.inj sets).symm)
      | copies moved => exact .inr (.inr (.inl ⟨(Option.some.inj sets).symm, moved⟩))
      | accumulates other found =>
          cases sets
          exact .inr (.inr (.inr found))
  | stores slot found => cases sets
  | loads slot found =>
      cases sets
      have kept : slot.1 ∈ frame.slots.map Prod.fst := List.mem_map_of_mem found
      rw [Frame.slot_registers] at kept
      exact .inr (.inr (.inr (saved kept)))
  | returns => cases sets

theorem keeps (positive : 0 < frame.slotSize) (distinct : frame.saved.Nodup) (reg : Reg)
    (saved : reg ∈ frame.saved) (apart : reg ≠ target.stackRegister) : Keeps reg acts := by
  -- split the slots at the register's own: what is stored behind it goes elsewhere, and what is
  -- loaded behind it are other registers
  have places := Frame.slots_apart frame positive
  have registers := Frame.slot_registers frame
  rw [← registers] at saved distinct
  obtain ⟨⟨reg, offset⟩, member, rfl⟩ := List.mem_map.mp saved
  obtain ⟨left, right, parted⟩ := List.append_of_mem member
  rw [parted] at places distinct
  have later : ∀ slot ∈ right, offset ≠ slot.2 :=
    (List.pairwise_cons.mp (List.pairwise_append.mp places).2.1).1
  have others : reg ∉ right.map Prod.fst := by
    rw [List.map_append, List.map_cons] at distinct
    exact (List.nodup_cons.mp (List.nodup_append.mp distinct).2.1).1
  have unmoved (act : Act) (adjusts : act.Adjusts target.stackRegister frame) :
      act.written? ≠ some reg := by
    intro moved
    cases adjusts <;> cases moved <;> exact apart rfl
  refine ⟨leading ++ left.map (filling target.stackRegister), offset, target.stackRegister,
    right.map (filling target.stackRegister) ++ working ++ left.map (emptying target.stackRegister),
    right.map (emptying target.stackRegister) ++ trailing, ?_, ?_, ?_, ?_⟩
  · rw [arranged.whole, parted]
    simp [filling, emptying]
  · refine List.forall_mem_append.mpr ⟨fun act found => ?_, List.forall_mem_map.mpr fun _ _ => ?_⟩
    · have adjusts := arranged.leads act found
      exact ⟨unmoved act adjusts, adjusts.stays⟩
    · exact ⟨nofun, rfl⟩
  · simp only [List.forall_mem_append, List.forall_mem_map]
    refine ⟨⟨fun slot found => ⟨rfl, ?_⟩, fun act found => ?_⟩, fun slot _ => ⟨rfl, nofun⟩⟩
    · rintro other ⟨⟩
      exact later slot found rfl
    · have works := arranged.works act found
      exact ⟨works.stays, by rintro other rfl; cases works⟩
  · refine List.forall_mem_append.mpr ⟨List.forall_mem_map.mpr fun slot found => ?_, fun act found => ?_⟩
    · rintro ⟨⟩
      exact others (List.mem_map_of_mem found)
    · rcases arranged.trails act found with adjusts | rfl
      · exact unmoved act adjusts
      · exact nofun

end acts

section checked

variable {target : Target} {unroll width : Nat} {leading working trailing acts : List Act}
  (checked : target.abi.Sound)
  (arranged : Arranged target unroll (target.abi.accumulators.take width)
    (Frame.ideal target.abi (target.abi.accumulators.take width)) leading working trailing acts)

include checked arranged

theorem keepsWritten : KeepsWritten target.abi.calleeSaved
    [target.abi.stackPointer, target.stackRegister, target.abi.result, target.abi.counter] acts := by
  -- the frame is made from the accumulators alone, so the roles that are written are exempt
  rintro reg callee apart ⟨act, member, sets⟩
  simp only [List.mem_cons, List.not_mem_nil, or_false, not_or] at apart
  obtain ⟨_, stack, result, counter⟩ := apart
  have found : reg ∈ target.abi.accumulators.take width := by
    rcases arranged.written List.filter_sublist.subset act member reg sets with
      moved | counts | copies | found
    · exact absurd moved.1 stack
    · exact absurd counts counter
    · exact absurd copies.1 result
    · exact found
  refine arranged.keeps checked.slot_pos ?_ reg ?_ stack
  · exact (checked.distinct.sublist (List.take_sublist _ _)).filter _
  · exact List.mem_filter.mpr ⟨found, List.elem_eq_true_of_mem callee⟩

theorem spares (counter : target.abi.returnAddress ≠ target.abi.counter)
    (result : target.abi.returnAddress = target.abi.result →
      target.abi.result = target.abi.argument)
    (stack : target.abi.returnAddress = target.stackRegister →
      (Frame.ideal target.abi (target.abi.accumulators.take width)).saved = []) :
    Spares target.abi.returnAddress acts := by
  intro act member sets
  rcases arranged.written List.filter_sublist.subset act member _ sets with
    moved | counts | copies | found
  · exact moved.2 (stack moved.1)
  · exact counter counts
  · exact copies.2 (result copies.1)
  · exact checked.free _ (List.mem_of_mem_take found) (by simp [Abi.fixedRegisters])

end checked

end Arranged

namespace MultiplyFamily
open Act

section pieces

variable (target : Target) (used : List Reg) (unroll : Nat)

theorem setUp_works : ∀ statement ∈ setUp target used,
    statement.act.Works target.abi unroll used := by
  intro statement member
  rcases List.mem_append.mp member with copied | numbered
  · rcases List.mem_append.mp copied with counted | resulted
    · cases List.mem_singleton.mp counted
      rw [Target.move_act]
      exact .counts
    · split at resulted
      · cases resulted
      · next moved =>
          cases List.mem_singleton.mp resulted
          rw [Target.move_act]
          exact .copies moved
  · obtain ⟨⟨reg, index⟩, found, rfl⟩ := List.mem_map.mp numbered
    rw [Target.loadSmall_act]
    exact .accumulates reg (List.mem_of_getElem? (List.mk_mem_zipIdx_iff_getElem?.mp found))

theorem body_works : ∀ statement ∈ body target used unroll,
    statement.act.Works target.abi unroll used := by
  intro statement member
  rw [body_rota] at member
  obtain ⟨reg, found, rfl⟩ := List.mem_map.mp member
  rw [Target.multiply_act]
  exact .accumulates reg (mem_rota _ _ _ found)

theorem loopBranch_works (label : String) :
    ∀ statement ∈ target.loopBranch target.abi.counter label unroll,
      statement.act.Works target.abi unroll used := by
  intro statement member
  rcases Target.loopBranch_acts target _ label unroll statement member with idle | sets | shifts
  · rw [idle]
    exact .idle
  · rw [sets]
    exact .counts
  · rw [shifts]
    exact .lowers

theorem adjustStack_adjusts (frame : Frame) (framed : frame.saved ≠ []) (delta : Int) :
    (target.adjustStack delta).act.Adjusts target.stackRegister frame := by
  rcases target.adjustStack_act delta with shifts | sets
  · rw [shifts]
    exact .shifts framed delta
  · rw [sets]
    exact .sets framed

theorem opening_idle (name : String) (writesCounter : Bool) :
    ∀ statement ∈ target.opening name writesCounter, statement.act = .idle := by
  obtain ⟨lines, opened⟩ := target.opening_directives name writesCounter
  rw [opened]
  intro statement member
  rcases List.mem_append.mp member with directive | label
  · obtain ⟨line, _, rfl⟩ := List.mem_map.mp directive
    rfl
  · cases List.mem_singleton.mp label
    rfl

theorem closing_idle (name : String) (writesCounter : Bool) :
    ∀ statement ∈ target.closing name writesCounter, statement.act = .idle := by
  obtain ⟨lines, closed⟩ := target.closing_directives name writesCounter
  rw [closed]
  intro statement member
  obtain ⟨line, _, rfl⟩ := List.mem_map.mp member
  rfl

theorem prologue_acts {frame : Frame} {prologue : List Statement}
    (taking : frame.prologue? target = some prologue) :
    ∃ entering, prologue.map Statement.act =
        entering ++ frame.slots.map (filling target.stackRegister) ∧
      ∀ act ∈ entering, act.Adjusts target.stackRegister frame := by
  unfold Frame.prologue? at taking
  split at taking
  · next bare =>
      cases taking
      have none : frame.saved = [] := List.isEmpty_iff.mp bare
      exact ⟨[], by simp [Frame.slots, none], by simp⟩
  · next framed =>
      split at taking
      · cases taking
      · cases taking
        refine ⟨[(target.adjustStack (-frame.adjustment)).act], ?_, ?_⟩
        · simp only [List.map_cons, List.map_map, List.cons_append, List.nil_append]
          congr 1
          apply List.map_congr_left
          intro slot member
          exact Target.storeRegister_act target _ _
        · intro act member
          cases List.mem_singleton.mp member
          exact adjustStack_adjusts target frame (mt List.isEmpty_iff.mpr framed) _

theorem epilogue_acts (frame : Frame) :
    ∃ leaving, (frame.epilogue target).map Statement.act =
        frame.slots.map (emptying target.stackRegister) ++ leaving ∧
      (∀ act ∈ leaving, act.Adjusts target.stackRegister frame ∨
        act = .returns target.linkRegister) ∧
      leaving.filterMap Act.returned? = [target.linkRegister] := by
  let last := if frame.isEmpty then none else some (target.adjustStack frame.adjustment)
  have adjusts : ∀ statement ∈ last, statement.act.Adjusts target.stackRegister frame := by
    intro statement given
    by_cases bare : frame.isEmpty
    · simp [last, bare] at given
    · have framed : frame.saved ≠ [] := fun none => bare (List.isEmpty_iff.mpr none)
      simp only [last, bare, Bool.false_eq_true, ↓reduceIte, Option.mem_some_iff] at given
      subst given
      exact adjustStack_adjusts target frame framed _
  refine ⟨(target.returnAfter last).map Statement.act, ?_, ?_, ?_⟩
  · rw [Frame.epilogue, List.map_append, List.map_map]
    congr 1
    apply List.map_congr_left
    intro slot member
    exact Target.loadRegister_act target _ _
  · intro act member
    obtain ⟨statement, found, rfl⟩ := List.mem_map.mp member
    rcases target.returnAfter_acts last statement found with idle | returns | given
    · rw [idle]
      exact .inl .idle
    · exact .inr returns
    · exact .inl (adjusts statement given)
  · rw [List.filterMap_map]
    exact target.returnAfter_returns last fun statement given => (adjusts statement given).stays

end pieces

section routines

variable (family : MultiplyFamily) (width : Nat)

def framedStatements (frame : Frame) (prologue : List Statement) : List Statement :=
  let target := family.target
  let used := target.abi.accumulators.take width
  target.opening (family.symbol width) true ++ prologue ++ setUp target used ++
    [.label (loopLabel width)] ++ body target used family.unroll ++
    target.loopBranch target.abi.counter (loopLabel width) family.unroll ++
    frame.epilogue target ++ target.closing (family.symbol width) true

variable (accepted : Shape.error? ⟨width, family.unroll⟩ family.target = none)

include accepted in
theorem routine_ok_iff (routine : Routine) : family.routine width = .ok routine ↔
    ∃ frame prologue,
      Frame.ofRegisters? family.target.abi (family.target.abi.accumulators.take width) = some frame ∧
      frame.prologue? family.target = some prologue ∧
      routine = ⟨family.symbol width, framedStatements family width frame prologue, frame.saved⟩ := by
  simp only [MultiplyFamily.routine, accumulators, accepted, bind, Except.bind]
  cases Frame.ofRegisters? family.target.abi (family.target.abi.accumulators.take width) with
  | none => simp [throw, throwThe, MonadExceptOf.throw]
  | some frame =>
      cases taking : frame.prologue? family.target with
      | none => simp [taking, throw, throwThe, MonadExceptOf.throw]
      | some prologue => simp [taking, pure, Except.pure, framedStatements, eq_comm]

theorem statements_arranged {frame : Frame} {prologue : List Statement}
    (taking : frame.prologue? family.target = some prologue) :
    ∃ leading working trailing,
      Arranged family.target family.unroll (family.target.abi.accumulators.take width) frame
        leading working trailing
        ((framedStatements family width frame prologue).map Statement.act) := by
  let target := family.target
  let used := target.abi.accumulators.take width
  obtain ⟨entering, taken, enters⟩ := prologue_acts target taking
  obtain ⟨leaving, given, leaves, returns⟩ := epilogue_acts target frame
  let working := setUp target used ++ [.label (loopLabel width)] ++ body target used family.unroll ++
    target.loopBranch target.abi.counter (loopLabel width) family.unroll
  have opens := opening_idle target (family.symbol width) true
  have closes := closing_idle target (family.symbol width) true
  refine ⟨(target.opening (family.symbol width) true).map Statement.act ++ entering,
    working.map Statement.act,
    leaving ++ (target.closing (family.symbol width) true).map Statement.act, ?_, ?_, ?_, ?_, ?_⟩
  · simp only [framedStatements, working, target, used, List.map_append, taken, given,
      List.append_assoc]
  · refine List.forall_mem_append.mpr ⟨List.forall_mem_map.mpr fun statement member => ?_, enters⟩
    rw [opens statement member]
    exact .idle
  · refine List.forall_mem_map.mpr ?_
    simp only [working, List.forall_mem_append, List.forall_mem_singleton]
    exact ⟨⟨⟨setUp_works target used _, .idle⟩, body_works target used _⟩,
      loopBranch_works target used _ _⟩
  · refine List.forall_mem_append.mpr ⟨leaves, List.forall_mem_map.mpr fun statement member => ?_⟩
    rw [closes statement member]
    exact .inl .idle
  · rw [List.filterMap_append, returns, List.filterMap_eq_nil_iff.mpr, List.append_nil]
    refine List.forall_mem_map.mpr fun statement member => ?_
    rw [closes statement member]
    rfl

end routines

section followed

/-- How far a function follows its convention. A stack operation or a return of an architecture
that names its own register follows the convention when that names the same register, and the
return address is spared unless it has another part that is written. What the acts leave out,
the instruction set neither writes nor touches. -/
structure Follows (target : Target) (unroll : Nat) (routine : Routine) : Prop where
  keeps : KeepsWritten target.abi.calleeSaved
    [target.abi.stackPointer, target.stackRegister, target.abi.result, target.abi.counter]
    (routine.statements.map Statement.act)
  restores : ∀ reg ∈ target.abi.calleeSaved, reg ∉ [target.abi.stackPointer, target.stackRegister,
      target.abi.result, target.abi.counter] →
    target.Writes reg routine.statements → Keeps reg (routine.statements.map Statement.act)
  addressed : target.stackRegister = target.abi.stackPointer →
    AddressedFrom target.abi.stackPointer target.abi.counter unroll
      (routine.statements.map Statement.act)
  touches : target.stackRegister = target.abi.stackPointer → ∀ statement ∈ routine.statements,
    target.architecture.isa.touches (statement.cell target.architecture) = true →
      ∃ reg offset, statement.act = .stores reg offset target.abi.stackPointer ∨
        statement.act = .loads reg offset target.abi.stackPointer
  returns : target.linkRegister = target.abi.returnAddress →
    ReturnsThrough target.abi.returnAddress (routine.statements.map Statement.act)
  spares : target.abi.returnAddress ≠ target.abi.counter →
    (target.abi.returnAddress = target.abi.result → target.abi.result = target.abi.argument) →
    (target.abi.returnAddress = target.stackRegister → routine.preserved = []) →
    Spares target.abi.returnAddress (routine.statements.map Statement.act) ∧
      ¬ target.Writes target.abi.returnAddress routine.statements

variable (family : MultiplyFamily) (width : Nat)

theorem framed_follows {prologue : List Statement} (checked : family.target.abi.Sound)
    (taking : (Frame.ideal family.target.abi (family.target.abi.accumulators.take width)).prologue?
      family.target = some prologue) :
    Follows family.target family.unroll ⟨family.symbol width,
      framedStatements family width (Frame.ideal family.target.abi
        (family.target.abi.accumulators.take width)) prologue,
      (Frame.ideal family.target.abi (family.target.abi.accumulators.take width)).saved⟩ := by
  obtain ⟨leading, working, trailing, arranged⟩ := statements_arranged family width taking
  have keeps := arranged.keepsWritten checked
  constructor
  case keeps => exact keeps
  case restores => exact fun reg saved free writes => keeps reg saved free writes.act
  case addressed =>
    intro same
    rw [← same]
    exact arranged.addressed
  case touches =>
    intro same statement member touching
    rw [← same]
    exact arranged.addressed.slots (List.mem_map_of_mem member)
      (statement.touches_act _ touching)
  case returns =>
    intro same
    rw [← same]
    exact arranged.returnsThrough
  case spares =>
    intro counter result stack
    have spares := arranged.spares checked counter result stack
    refine ⟨spares, fun writes => ?_⟩
    obtain ⟨act, member, written⟩ := writes.act
    exact spares act member written

variable (passed : family.target.abi.fault? = none)
  (accepted : Shape.error? ⟨width, family.unroll⟩ family.target = none)

include passed accepted

theorem exists_iff_sized : (∃ routine, family.routine width = .ok routine) ↔
    (Frame.ideal family.target.abi (family.target.abi.accumulators.take width)).Sized := by
  have framing := Frame.ofRegisters_ideal ((Abi.fault_none_iff _).mp passed).align_pos
    (family.target.abi.accumulators.take width)
  simp only [routine_ok_iff family width accepted, framing]
  constructor
  · rintro ⟨routine, frame, prologue, framed, taking, rfl⟩
    split at framed
    · next bounded =>
        cases framed
        rw [Frame.prologue_eq _ _ bounded] at taking
        refine ⟨bounded, Decidable.or_iff_not_imp_left.mpr fun kept least => ?_⟩
        rw [if_neg kept, if_pos least] at taking
        cases taking
    · cases framed
  · rintro ⟨bounded, sized⟩
    have taking := Frame.prologue_eq _ family.target bounded
    by_cases bare : (Frame.ideal family.target.abi
        (family.target.abi.accumulators.take width)).saved = []
    · rw [if_pos bare] at taking
      exact ⟨_, _, _, if_pos bounded, taking, rfl⟩
    · rw [if_neg bare, if_neg (sized.resolve_left bare)] at taking
      exact ⟨_, _, _, if_pos bounded, taking, rfl⟩

omit passed accepted

/-- Two accumulators, one of them callee-saved, under roles of which four are not the stock ones. -/
def unusual : MultiplyFamily where
  target := ⟨.mips32, { Architecture.o32 with
    accumulators := [16, 8], counter := 9, stackPointer := 28, returnAddress := 30
    calleeSaved := [16, 28] }⟩
  maxWidth := 2
  unroll := 3
  symbolStart := defaultSymbolStart

end followed

section clashes

def narrow (target : Target) : MultiplyFamily := ⟨target, 1, 1, defaultSymbolStart⟩

/-- The convention of a target passes its check, and yet what a function does under it lacks a
property that the convention asks for. -/
def Breaks (target : Target) (property : Abi → List Act → Prop) : Prop :=
  target.abi.fault? = none ∧ Shape.error? ⟨1, 1⟩ target = none ∧
    ∃ routine, (narrow target).routine 1 = .ok routine ∧
      ¬ property target.abi (routine.statements.map Statement.act)

end clashes

end MultiplyFamily

end Microbench
