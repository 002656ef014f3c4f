import Microbench.Register
/-!
Processors that run assembled code.

An instruction set says what one instruction does to a processor and where control goes
from there. Code is a list of cells, and a run stands before some rest of it, so that a
jump to a label goes on with the part of the program that begins with the label. A jump to
an address leaves the code: the run ends at `Point.returned`. Delay slots belong to the
flow of control and not to single instructions, so one step function serves instruction
sets with and without them.

Memory is seen through aligned words, the only way the code here touches it. An instruction
that would touch it elsewhere has no effect to give, and a run cannot go past it.
-/
namespace Microbench

structure Processor (width : Nat) (Flags : Type) where
  registers : Reg → BitVec width
  /-- The word at an address that is a multiple of the word's size. -/
  memory : BitVec width → BitVec width
  flags : Flags

namespace Processor

variable {width : Nat} {Flags : Type}

/-- A register as a C `int`, the low 32 bits. -/
def int (state : Processor width Flags) (reg : Reg) : BitVec 32 :=
  (state.registers reg).setWidth 32

def set (state : Processor width Flags) (reg : Reg) (value : BitVec width) :
    Processor width Flags :=
  { state with registers := fun other => if other = reg then value else state.registers other }

/-- Writes a C `int`; what a register holds above 32 bits is cleared. -/
def setInt (state : Processor width Flags) (reg : Reg) (value : BitVec 32) :
    Processor width Flags :=
  state.set reg (value.setWidth width)

def store (state : Processor width Flags) (address value : BitVec width) :
    Processor width Flags :=
  { state with
    memory := fun other => if other = address then value else state.memory other }

section laws

@[simp] theorem set_registers (state : Processor width Flags) (reg : Reg) (value : BitVec width)
    (other : Reg) : (state.set reg value).registers other =
      if other = reg then value else state.registers other := rfl

@[simp] theorem setInt_registers (state : Processor width Flags) (reg : Reg) (value : BitVec 32)
    (other : Reg) : (state.setInt reg value).registers other =
      if other = reg then value.setWidth width else state.registers other := rfl

theorem set_set (state : Processor width Flags) (reg : Reg) (first second : BitVec width) :
    (state.set reg first).set reg second = state.set reg second := by
  simp only [set, mk.injEq, and_self, and_true]
  funext other
  split <;> rfl

theorem set_comm (state : Processor width Flags) (reg other : Reg) (first second : BitVec width)
    (different : reg ≠ other) :
    (state.set reg first).set other second = (state.set other second).set reg first := by
  simp only [set, mk.injEq, and_self, and_true]
  funext third
  by_cases same : third = other
  · simp [same, Ne.symm different]
  · simp [same]

theorem setInt_int (wide : 32 ≤ width) (state : Processor width Flags) (reg other : Reg)
    (value : BitVec 32) :
    (state.setInt reg value).int other = if other = reg then value else state.int other := by
  unfold int
  rw [setInt_registers]
  split
  · rw [BitVec.setWidth_setWidth_of_le value wide, BitVec.setWidth_eq]
  · rfl

end laws

end Processor

inductive Destination (width : Nat) where
  | label (name : String)
  | address (value : BitVec width)

inductive Flow (width : Nat) where
  | next
  | jump (destination : Destination width)
  /-- The instruction behind runs first. -/
  | jumpAfterSlot (destination : Destination width)
  /-- The instruction behind is left out. -/
  | skipSlot

/-- An instruction set: how its instructions are read from a line of source, what each does,
and what each has to do with registers and memory. The laws say that the account given of
registers and memory is true of what an instruction does. -/
structure InstructionSet where
  width : Nat
  Flags : Type
  Instruction : Type
  /-- Nothing, if the operands cannot be encoded. -/
  read? : String → Option Instruction
  execute : Instruction → Processor width Flags → Option (Processor width Flags × Flow width)
  reads : Instruction → List Reg
  writes : Instruction → List Reg
  touchesMemory : Instruction → Bool
  isMultiply : Instruction → Bool
  /-- The register that an instruction lowers and the constant that it takes off. -/
  lowers? : Instruction → Option (Reg × Nat)
  wide : 32 ≤ width
  keeps : ∀ instruction state after flow, execute instruction state = some (after, flow) →
    ∀ reg, reg ∉ writes instruction → after.registers reg = state.registers reg
  depends : ∀ instruction state reg word, reg ∉ reads instruction →
    execute instruction (state.set reg word) = (execute instruction state).map fun done =>
      (if reg ∈ writes instruction then done.1 else done.1.set reg word, done.2)
  ignores : ∀ instruction state memory, touchesMemory instruction = false →
    execute instruction { state with memory := memory } =
      (execute instruction state).map fun done => ({ done.1 with memory := memory }, done.2)
  lowered : ∀ instruction reg count, lowers? instruction = some (reg, count) →
    ∀ state, ∃ after flow, execute instruction state = some (after, flow) ∧
      after.int reg = state.int reg - BitVec.ofNat 32 count

inductive Cell (Instruction : Type) where
  | label (name : String)
  | directive
  | instruction (instruction : Instruction)

namespace Cell

variable {Instruction : Type}

def label? : Cell Instruction → Option String
  | .label name => some name
  | _ => none

def instruction? : Cell Instruction → Option Instruction
  | .instruction found => some found
  | _ => none

end Cell

namespace InstructionSet

abbrev State (isa : InstructionSet) := Processor isa.width isa.Flags

abbrev Code (isa : InstructionSet) := List (Cell isa.Instruction)

inductive Point (isa : InstructionSet) where
  | within (rest : isa.Code) (state : isa.State)
  | returned (address : BitVec isa.width) (state : isa.State)

variable (isa : InstructionSet)

def isMultiplyCell : Cell isa.Instruction → Bool
  | .instruction instruction => isa.isMultiply instruction
  | _ => false

def touches : Cell isa.Instruction → Bool
  | .instruction instruction => isa.touchesMemory instruction
  | _ => false

def Quiet (cells : isa.Code) : Prop :=
  ∀ cell ∈ cells, cell.label? = none ∧ isa.isMultiplyCell cell = false

def writesTo (reg : Reg) : Cell isa.Instruction → Bool
  | .instruction instruction => reg ∈ isa.writes instruction
  | _ => false

def Confined (regs : List Reg) (passed : Cell isa.Instruction) : Prop :=
  isa.touches passed = false ∧ ∀ reg, isa.writesTo reg passed = true → reg ∈ regs

def seek (name : String) : isa.Code → Option isa.Code
  | [] => none
  | cell :: rest => if cell.label? = some name then some (cell :: rest) else seek name rest

def goTo (program : isa.Code) : Destination isa.width → isa.State → Option isa.Point
  | .label name, state => (isa.seek name program).map (.within · state)
  | .address value, state => some (.returned value state)

/-- The next step of a run with the cells that it passes. A delay slot holds an instruction
that does not move control itself. -/
def step (program : isa.Code) : isa.Point → Option (isa.Code × isa.Point)
  | .within (.label name :: rest) state => some ([.label name], .within rest state)
  | .within (.directive :: rest) state => some ([.directive], .within rest state)
  | .within (.instruction instruction :: rest) state =>
    match isa.execute instruction state with
    | some (after, .next) => some ([.instruction instruction], .within rest after)
    | some (after, .jump destination) =>
      (isa.goTo program destination after).map fun point => ([.instruction instruction], point)
    | some (after, .jumpAfterSlot destination) =>
      match rest with
      | .instruction slot :: _ =>
        match isa.execute slot after with
        | some (final, .next) =>
          (isa.goTo program destination final).map fun point =>
            ([.instruction instruction, .instruction slot], point)
        | _ => none
      | _ => none
    | some (after, .skipSlot) =>
      match rest with
      | .instruction _ :: later => some ([.instruction instruction], .within later after)
      | _ => none
    | none => none
  | _ => none

def run (program : isa.Code) : Nat → isa.Point → Option (isa.Code × isa.Point)
  | 0, point => some ([], point)
  | count + 1, point =>
    match isa.step program point with
    | none => none
    | some (passed, next) =>
      (run program count next).map fun later => (passed ++ later.1, later.2)

def Reaches (program : isa.Code) (start : isa.Point) (trace : isa.Code) (finish : isa.Point) :
    Prop :=
  ∃ count, isa.run program count start = some (trace, finish)

/-- What cells do that are passed one after the other. There is no result if one of them
has no effect or moves control. -/
def pass : isa.Code → isa.State → Option isa.State
  | [], state => some state
  | .label _ :: rest, state => pass rest state
  | .directive :: rest, state => pass rest state
  | .instruction instruction :: rest, state =>
    match isa.execute instruction state with
    | some (after, .next) => pass rest after
    | _ => none

variable {isa}

section quiet

theorem labels_cons (name : String) (rest : isa.Code) :
    (Cell.label name :: rest).filterMap Cell.label? = name :: rest.filterMap Cell.label? := rfl

theorem multiplies_cons (name : String) (rest : isa.Code) :
    (Cell.label name :: rest).filter isa.isMultiplyCell = rest.filter isa.isMultiplyCell := rfl

variable {cells : isa.Code} (quiet : isa.Quiet cells)

include quiet

theorem Quiet.labels : cells.filterMap Cell.label? = [] :=
  List.filterMap_eq_nil_iff.mpr fun cell member => (quiet cell member).1

theorem Quiet.multiplies : cells.filter isa.isMultiplyCell = [] :=
  List.filter_eq_nil_iff.mpr fun cell member => by simp [(quiet cell member).2]

end quiet

section runs

theorem run_add (program : isa.Code) (first second : Nat) (start middle finish : isa.Point)
    (front back : isa.Code) (leads : isa.run program first start = some (front, middle))
    (follows : isa.run program second middle = some (back, finish)) :
    isa.run program (first + second) start = some (front ++ back, finish) := by
  -- on the first run, which may begin anywhere
  induction first generalizing start front with
  | zero =>
      simp only [run, Option.some.injEq, Prod.mk.injEq] at leads
      obtain ⟨rfl, rfl⟩ := leads
      simpa using follows
  | succ first ih =>
      rw [Nat.succ_add]
      unfold run at leads ⊢
      cases stepped : isa.step program start with
      | none => simp [stepped] at leads
      | some passed =>
          simp only [stepped, Option.map_eq_some_iff] at leads ⊢
          obtain ⟨later, ran, same⟩ := leads
          cases same
          exact ⟨_, ih passed.2 later.1 ran, by simp⟩

theorem Reaches.refl (program : isa.Code) (point : isa.Point) :
    isa.Reaches program point [] point := ⟨0, rfl⟩

theorem Reaches.trans {program : isa.Code} {start middle finish : isa.Point}
    {front back : isa.Code} (leads : isa.Reaches program start front middle)
    (follows : isa.Reaches program middle back finish) :
    isa.Reaches program start (front ++ back) finish := by
  obtain ⟨first, leads⟩ := leads
  obtain ⟨second, follows⟩ := follows
  exact ⟨first + second, run_add program first second _ _ _ _ _ leads follows⟩

theorem Reaches.of_step {program : isa.Code} {start finish : isa.Point} {passed : isa.Code}
    (stepped : isa.step program start = some (passed, finish)) :
    isa.Reaches program start passed finish :=
  ⟨1, by simp [run, stepped]⟩

theorem step_passes {program passed : isa.Code} {start next : isa.Point}
    (stepped : isa.step program start = some (passed, next)) : passed ≠ [] := by
  rintro rfl
  unfold step at stepped
  repeat' split at stepped
  all_goals simp at stepped

theorem run_succ {program trace : isa.Code} {count : Nat} {start finish : isa.Point}
    (ran : isa.run program (count + 1) start = some (trace, finish)) :
    ∃ passed next later, isa.step program start = some (passed, next) ∧
      isa.run program count next = some (later, finish) ∧ passed ++ later = trace := by
  unfold run at ran
  split at ran
  · cases ran
  · next passed next stepped =>
    obtain ⟨later, followed, same⟩ := Option.map_eq_some_iff.mp ran
    cases same
    exact ⟨passed, next, later.1, stepped, followed, rfl⟩

theorem Reaches.unique {program trace : isa.Code} {start finish other : isa.Point}
    (leads : isa.Reaches program start trace finish)
    (again : isa.Reaches program start trace other) : finish = other := by
  -- every step passes something, so the cells passed tell where a run stands
  obtain ⟨first, ran⟩ := leads
  obtain ⟨second, rerun⟩ := again
  -- on the first run; the second makes the same steps
  induction first generalizing start trace second with
  | zero =>
      cases ran
      cases second with
      | zero =>
          cases rerun
          rfl
      | succ second =>
          obtain ⟨passed, next, later, stepped, -, nothing⟩ := run_succ rerun
          exact absurd (List.append_eq_nil_iff.mp nothing).1 (step_passes stepped)
  | succ first ih =>
      obtain ⟨passed, next, later, stepped, followed, rfl⟩ := run_succ ran
      cases second with
      | zero =>
          have nothing : [] = passed ++ later := congrArg Prod.fst (Option.some.inj rerun)
          exact absurd (List.append_eq_nil_iff.mp nothing.symm).1 (step_passes stepped)
      | succ second =>
          obtain ⟨passed', next', later', stepped', followed', same⟩ := run_succ rerun
          cases stepped.symm.trans stepped'
          rw [List.append_cancel_left same] at followed'
          exact ih followed second followed'

end runs

section steps

variable {program rest : isa.Code} {instruction slot : isa.Instruction}
  {state after final : isa.State} {destination : Destination isa.width} {point : isa.Point}

theorem step_next (effect : isa.execute instruction state = some (after, .next)) :
    isa.step program (.within (.instruction instruction :: rest) state) =
      some ([.instruction instruction], .within rest after) := by
  simp only [step, effect]

theorem step_jump (effect : isa.execute instruction state = some (after, .jump destination))
    (leads : isa.goTo program destination after = some point) :
    isa.step program (.within (.instruction instruction :: rest) state) =
      some ([.instruction instruction], point) := by
  simp only [step, effect, leads, Option.map_some]

theorem step_slot
    (effect : isa.execute instruction state = some (after, .jumpAfterSlot destination))
    (filled : isa.execute slot after = some (final, .next))
    (leads : isa.goTo program destination final = some point) :
    isa.step program (.within (.instruction instruction :: .instruction slot :: rest) state) =
      some ([.instruction instruction, .instruction slot], point) := by
  simp only [step, effect, filled, leads, Option.map_some]

theorem Reaches.of_label (name : String) : isa.Reaches program
    (.within (.label name :: rest) state) [.label name] (.within rest state) :=
  Reaches.of_step rfl

theorem goTo_label {name : String} {found : isa.Code} (seen : isa.seek name program = some found) :
    isa.goTo program (.label name) state = some (.within found state) := by
  simp only [goTo, seen, Option.map_some]

theorem step_skip (effect : isa.execute instruction state = some (after, .skipSlot)) :
    isa.step program (.within (.instruction instruction :: .instruction slot :: rest) state) =
      some ([.instruction instruction], .within rest after) := by
  simp only [step, effect]

end steps

section passing

@[simp] theorem pass_label (name : String) (rest : isa.Code) (state : isa.State) :
    isa.pass (.label name :: rest) state = isa.pass rest state := rfl

theorem pass_instruction (instruction : isa.Instruction) (rest : isa.Code)
    (state after : isa.State) (effect : isa.execute instruction state = some (after, .next)) :
    isa.pass (.instruction instruction :: rest) state = isa.pass rest after := by
  simp [pass, effect]

theorem pass_append (front back : isa.Code) (state : isa.State) :
    isa.pass (front ++ back) state = (isa.pass front state).bind (isa.pass back) := by
  induction front generalizing state with
  | nil => rfl
  | cons cell rest ih =>
      cases cell with
      | label name => exact ih state
      | directive => exact ih state
      | instruction instruction =>
          simp only [List.cons_append, pass]
          split
          · exact ih _
          · rfl

/-- A run goes through cells that can be passed, whatever stands behind them. -/
theorem reaches_of_pass (program block rest : isa.Code) (state after : isa.State)
    (passed : isa.pass block state = some after) :
    isa.Reaches program (.within (block ++ rest) state) block (.within rest after) := by
  induction block generalizing state with
  | nil =>
      cases passed
      exact Reaches.refl program _
  | cons cell others ih =>
      have onward : ∀ middle, isa.step program (.within (cell :: (others ++ rest)) state) =
          some ([cell], .within (others ++ rest) middle) → isa.pass others middle = some after →
          isa.Reaches program (.within (cell :: (others ++ rest)) state) (cell :: others)
            (.within rest after) :=
        fun middle stepped later => (Reaches.of_step stepped).trans (ih middle later)
      cases cell with
      | label name => exact onward state rfl passed
      | directive => exact onward state rfl passed
      | instruction instruction =>
          simp only [pass] at passed
          split at passed
          · next middle effect => exact onward middle (step_next effect) passed
          · cases passed

/-- Cells of which no two interfere can be passed in any order. -/
theorem pass_perm {front back : isa.Code} (moved : front.Perm back)
    (commute : ∀ first ∈ front, ∀ second ∈ front, ∀ state,
      isa.pass [first, second] state = isa.pass [second, first] state) (state : isa.State) :
    isa.pass front state = isa.pass back state := by
  -- along the steps of the permutation; only the exchange of two cells needs them to commute
  induction moved generalizing state with
  | nil => rfl
  | cons cell _ ih =>
      have parted (rest : isa.Code) : isa.pass (cell :: rest) state =
          (isa.pass [cell] state).bind (isa.pass rest) := pass_append [cell] rest state
      refine (parted _).trans (Eq.trans ?_ (parted _).symm)
      congr 1
      funext middle
      exact ih (fun first left second right =>
        commute first (List.mem_cons_of_mem _ left) second (List.mem_cons_of_mem _ right)) middle
  | swap first second rest =>
      have exchange := commute second List.mem_cons_self first (by simp) state
      have parted (one other : Cell isa.Instruction) : isa.pass (one :: other :: rest) state =
          (isa.pass [one, other] state).bind (isa.pass rest) := pass_append [one, other] rest state
      rw [parted, parted, exchange]
  | trans moved _ first second =>
      have carried := fun cell member other found =>
        commute cell (moved.mem_iff.mpr member) other (moved.mem_iff.mpr found)
      exact (first commute state).trans (second carried state)

end passing

section seeking

/-- A label is found behind any part of the program that does not define it. -/
theorem seek_append (name : String) (before rest : isa.Code)
    (absent : name ∉ before.filterMap Cell.label?) :
    isa.seek name (before ++ .label name :: rest) = some (.label name :: rest) := by
  induction before with
  | nil => simp [seek, Cell.label?]
  | cons cell others ih =>
      have different : cell.label? ≠ some name := by
        intro same
        exact absent (by simp [same])
      have later : name ∉ others.filterMap Cell.label? := by
        intro member
        apply absent
        rw [List.mem_filterMap] at member ⊢
        obtain ⟨other, found, same⟩ := member
        exact ⟨other, List.mem_cons_of_mem cell found, same⟩
      simp [seek, different, ih later]

theorem seek_mem (name : String) (program found : isa.Code)
    (seen : isa.seek name program = some found) : ∀ cell ∈ found, cell ∈ program := by
  induction program with
  | nil => cases seen
  | cons cell rest ih =>
      unfold seek at seen
      split at seen
      · cases seen
        exact fun _ member => member
      · exact fun other member => List.mem_cons_of_mem cell (ih seen other member)

end seeking

section belonging

def Point.rest : isa.Point → isa.Code
  | .within rest _ => rest
  | .returned .. => []

variable (program : isa.Code)

theorem goTo_mem (destination : Destination isa.width) (state : isa.State) (point : isa.Point)
    (leads : isa.goTo program destination state = some point) :
    ∀ cell ∈ point.rest, cell ∈ program := by
  cases destination with
  | address value =>
      cases leads
      simp [Point.rest]
  | label name =>
      obtain ⟨found, seen, rfl⟩ := Option.map_eq_some_iff.mp leads
      exact seek_mem name program found seen

theorem step_mem (start next : isa.Point) (passed : isa.Code)
    (stepped : isa.step program start = some (passed, next))
    (within : ∀ cell ∈ start.rest, cell ∈ program) :
    (∀ cell ∈ passed, cell ∈ program) ∧ ∀ cell ∈ next.rest, cell ∈ program := by
  -- one case for every way in which control can go on; jumps lead back into the program
  unfold step at stepped
  split at stepped
  · cases stepped
    exact List.forall_mem_cons.mp within |>.imp (by simp) id
  · cases stepped
    exact List.forall_mem_cons.mp within |>.imp (by simp) id
  · next instruction rest state =>
    obtain ⟨here, behind⟩ := List.forall_mem_cons.mp within
    have alone : ∀ cell ∈ [Cell.instruction instruction], cell ∈ program := by simpa using here
    split at stepped
    · cases stepped
      exact ⟨alone, behind⟩
    · obtain ⟨_, leads, same⟩ := Option.map_eq_some_iff.mp stepped
      cases same
      exact ⟨alone, goTo_mem program _ _ next leads⟩
    · split at stepped
      · next slot later =>
        obtain ⟨second, -⟩ := List.forall_mem_cons.mp behind
        split at stepped
        · obtain ⟨_, leads, same⟩ := Option.map_eq_some_iff.mp stepped
          cases same
          exact ⟨by simp [here, second], goTo_mem program _ _ next leads⟩
        · cases stepped
      · cases stepped
    · split at stepped
      · cases stepped
        exact ⟨alone, (List.forall_mem_cons.mp behind).2⟩
      · cases stepped
    · cases stepped
  · cases stepped

theorem Reaches.mem {start finish : isa.Point} {trace : isa.Code}
    (leads : isa.Reaches program start trace finish)
    (within : ∀ cell ∈ start.rest, cell ∈ program) : ∀ cell ∈ trace, cell ∈ program := by
  obtain ⟨count, ran⟩ := leads
  induction count generalizing start trace with
  | zero =>
      simp only [run, Option.some.injEq, Prod.mk.injEq] at ran
      simp [← ran.1]
  | succ count ih =>
      unfold run at ran
      split at ran
      · cases ran
      · next passed next stepped =>
        obtain ⟨later, followed, same⟩ := Option.map_eq_some_iff.mp ran
        cases same
        obtain ⟨here, onward⟩ := step_mem program start next passed stepped within
        intro cell member
        rcases List.mem_append.mp member with first | second
        · exact here cell first
        · exact ih onward followed cell second

end belonging

end InstructionSet

end Microbench
