import Mathlib.Data.List.Nodup
import Mathlib.Data.Nat.Find
import Microbench.Proofs.Cycles
/-!
What the check of a chain reports, whatever the chain.

The jumps of a chain are at fault from the first one that leaves the chain or enters a label
for the second time, and the check reports that one. Where no jump is at fault they permute
the labels, and a walk over a permutation can only meet its start again: if it does so before
it has seen all labels, the report is of label 0 after as many steps as its cycle is long. A
walk that ends elsewhere is never reported.
-/
namespace Microbench.Chain

section looks

def guardedEntries (size : Nat) : Nat → Array Bool → List Nat → Option (Option Flaw)
  | _, _, [] => some none
  | label, entered, next :: rest =>
    if size ≤ next then some (some (.jumpsOutside label))
    else match entered[next]? with
      | none => none
      | some true => some (some (.enteredTwice next))
      | some false => guardedEntries size (label + 1) (entered.setIfInBounds next true) rest

def guardedWalk (successors : Array Nat) : Nat → Nat → Array Bool → Nat → Option (Option Flaw)
  | 0, _, _, label => some (if label = 0 then none else some (.endsElsewhere label))
  | left + 1, step, visited, label =>
    match visited[label]?, successors[label]? with
    | some true, _ => some (some (.closesEarly label step))
    | some false, some next =>
      guardedWalk successors left (step + 1) (visited.setIfInBounds label true) next
    | _, _ => none

/-- The check of a chain, with no result if it looks anywhere outside an array. -/
def guardedFlaw (chain : Chain) : Option (Option Flaw) :=
  match guardedEntries chain.size 0 (Array.replicate chain.size false) chain.successors.toList with
  | some none => guardedWalk chain.successors chain.size 0 (Array.replicate chain.size false) 0
  | found => found

theorem guardedEntries_some (size label : Nat) (entered : Array Bool) (labels : List Nat)
    (marks : entered.size = size) :
    guardedEntries size label entered labels = some (entryFlaw? label entered labels) := by
  induction labels generalizing label entered with
  | nil => rfl
  | cons next rest ih =>
      unfold guardedEntries entryFlaw?
      by_cases outside : size ≤ next
      · rw [if_pos outside, Array.getElem?_eq_none (marks ▸ outside)]
      · have inside : next < entered.size := marks ▸ Nat.lt_of_not_le outside
        rw [if_neg outside, Array.getElem?_eq_getElem inside]
        cases entered[next] with
        | true => rfl
        | false => exact ih _ _ (by rw [Array.size_setIfInBounds, marks])

theorem guardedWalk_some (chain : Chain) (left step label : Nat) (visited : Array Bool)
    (marks : visited.size = chain.size) (inside : label < chain.size)
    (jumps : ∀ label, label < chain.size → chain.next label < chain.size) :
    guardedWalk chain.successors left step visited label =
      some (walkFlaw? chain.successors left step visited label) := by
  induction left generalizing step label visited with
  | zero => rfl
  | succ left ih =>
      have leads : chain.successors[label]? = some (chain.next label) :=
        successor_next chain label inside
      obtain ⟨met, seen⟩ : ∃ met, visited[label]? = some met :=
        ⟨_, Array.getElem?_eq_getElem (marks ▸ inside)⟩
      unfold guardedWalk walkFlaw?
      rw [leads, seen]
      cases met with
      | true => rfl
      | false => exact ih _ _ _ (by rw [Array.size_setIfInBounds, marks]) (jumps label inside)

end looks

section entries

def Faulty (chain : Chain) (label next : Nat) : Prop :=
  chain.successor? label = some next ∧
    (chain.size ≤ next ∨ ∃ earlier, earlier < label ∧ chain.successor? earlier = some next)

structure FirstFault (chain : Chain) (label next : Nat) : Prop where
  fault : chain.Faulty label next
  least : ∀ earlier other, earlier < label → ¬ chain.Faulty earlier other

def Permutes (chain : Chain) : Prop :=
  chain.successors.toList.Perm (List.range chain.size)

theorem permutes_iff (chain : Chain) : chain.Permutes ↔
    chain.successors.toList.Nodup ∧ ∀ next ∈ chain.successors.toList, next < chain.size := by
  constructor
  · intro entered
    refine ⟨entered.nodup_iff.mpr List.nodup_range, fun next member => ?_⟩
    exact List.mem_range.mp (entered.mem_iff.mp member)
  · rintro ⟨distinct, below⟩
    exact perm_range _ chain.size distinct below Array.length_toList

theorem entryFlaw_none_permutes (chain : Chain) :
    entryFlaw? 0 (Array.replicate chain.size false) chain.successors.toList = none ↔
      chain.Permutes := by
  rw [entryFlaw_none_iff, permutes_iff]
  simp [Array.getElem?_replicate]

theorem jumps_inside (chain : Chain) (entered : chain.Permutes) (label : Nat)
    (inside : label < chain.size) : chain.next label < chain.size := by
  apply ((permutes_iff chain).mp entered).2
  rw [successors_map]
  exact List.mem_map.mpr ⟨label, List.mem_range.mpr inside, rfl⟩

theorem entryFlaw_first (label next : Nat) (entered : Array Bool) (front rest : List Nat)
    (distinct : front.Nodup) (free : ∀ label ∈ front, entered[label]? = some false)
    (fault : next ∈ front ∨ entered[next]? ≠ some false) :
    entryFlaw? label entered (front ++ next :: rest) =
      some (if entered.size ≤ next then .jumpsOutside (label + front.length)
        else .enteredTwice next) := by
  -- of the labels in front none is out of place, so each of them is marked and the next is judged
  induction front generalizing label entered with
  | nil =>
      rcases fault with member | taken
      · cases member
      · rw [List.nil_append, entryFlaw?]
        by_cases outside : entered.size ≤ next
        · rw [Array.getElem?_eq_none outside, if_pos outside]
          rfl
        · obtain ⟨met, marked⟩ : ∃ met, entered[next]? = some met :=
            ⟨_, Array.getElem?_eq_getElem (Nat.lt_of_not_le outside)⟩
          rw [if_neg outside, marked]
          cases met with
          | true => rfl
          | false => exact absurd marked taken
  | cons first front ih =>
      obtain ⟨fresh, others⟩ := List.nodup_cons.mp distinct
      have here := free first List.mem_cons_self
      have inside : first < entered.size := (Array.getElem?_eq_some_iff.mp here).1
      have apart (other : Nat) (member : other ∈ front) : first ≠ other :=
        fun same => fresh (same ▸ member)
      have onward := ih (label + 1) (entered.setIfInBounds first true) others
        (fun other member => by
          rw [Array.getElem?_setIfInBounds_ne (apart other member)]
          exact free other (List.mem_cons_of_mem _ member)) (by
        by_cases same : first = next
        · right
          rw [← same, Array.getElem?_setIfInBounds_self, if_pos inside]
          decide
        · rw [Array.getElem?_setIfInBounds_ne same]
          exact fault.imp_left fun member => (List.mem_cons.mp member).resolve_left (Ne.symm same))
      rw [List.cons_append, entryFlaw?, here]
      rw [Array.size_setIfInBounds, Nat.add_assoc, Nat.add_comm 1] at onward
      exact onward

/-- As long as no jump is at fault, all jumps enter labels of the chain, and each another one. -/
theorem front_sound (chain : Chain) (count : Nat)
    (sound : ∀ label next, label < count → ¬ chain.Faulty label next) :
    (chain.successors.toList.take count).Nodup ∧
      ∀ next ∈ chain.successors.toList.take count, next < chain.size := by
  have taken (place next : Nat)
      (jump : (chain.successors.toList.take count)[place]? = some next) :
      place < count ∧ chain.successor? place = some next := by
    rw [List.getElem?_take, Array.getElem?_toList] at jump
    split at jump
    · next early => exact ⟨early, jump⟩
    · cases jump
  constructor
  · rw [List.nodup_iff_pairwise_ne, List.pairwise_iff_getElem]
    intro earlier later _ bound before same
    obtain ⟨early, jump⟩ := taken later _ (List.getElem?_eq_getElem bound)
    obtain ⟨_, again⟩ := taken earlier _ (same ▸ List.getElem?_eq_getElem _)
    exact sound later _ early ⟨jump, Or.inr ⟨earlier, before, again⟩⟩
  · intro next member
    obtain ⟨place, jump⟩ := List.mem_iff_getElem?.mp member
    obtain ⟨early, jump⟩ := taken place next jump
    apply Nat.lt_of_not_le
    exact fun outside => sound place next early ⟨jump, Or.inl outside⟩

theorem permutes_of_sound (chain : Chain) (sound : ∀ label next, ¬ chain.Faulty label next) :
    chain.Permutes := by
  have all := front_sound chain chain.size fun label next _ => sound label next
  rw [size, ← Array.length_toList, List.take_length] at all
  exact (permutes_iff chain).mpr all

theorem firstFault_of_broken (chain : Chain) (broken : ¬ chain.Permutes) :
    ∃ label next, chain.FirstFault label next := by
  have some_fault : ∃ label, ∃ next, chain.Faulty label next := by
    apply Classical.byContradiction
    intro none_fault
    apply broken
    apply permutes_of_sound
    exact fun label next fault => none_fault ⟨label, next, fault⟩
  classical
  obtain ⟨next, fault⟩ := Nat.find_spec some_fault
  exact ⟨_, next, fault, fun earlier other before again =>
    Nat.find_min some_fault before ⟨other, again⟩⟩

theorem flaw_of_firstFault (chain : Chain) (label next : Nat)
    (first : chain.FirstFault label next) :
    chain.flaw? =
      some (if chain.size ≤ next then .jumpsOutside label else .enteredTwice next) := by
  obtain ⟨jump, fault⟩ := first.fault
  have found : chain.successors.toList[label]? = some next := by
    rw [Array.getElem?_toList]
    exact jump
  obtain ⟨bound, here⟩ := List.getElem?_eq_some_iff.mp found
  obtain ⟨distinct, below⟩ := front_sound chain label first.least
  have free : ∀ other ∈ chain.successors.toList.take label,
      (Array.replicate chain.size false)[other]? = some false := by
    intro other member
    rw [Array.getElem?_replicate, if_pos (below other member)]
  have judged : next ∈ chain.successors.toList.take label ∨
      (Array.replicate chain.size false)[next]? ≠ some false := by
    rcases fault with outside | ⟨earlier, before, again⟩
    · right
      rw [Array.getElem?_replicate, if_neg (Nat.not_lt.mpr outside)]
      exact nofun
    · left
      apply List.mem_of_getElem? (i := earlier)
      rw [List.getElem?_take, if_pos before, Array.getElem?_toList]
      exact again
  have report := entryFlaw_first 0 next _ _ (chain.successors.toList.drop (label + 1))
    distinct free judged
  -- the labels entered in front of the fault, the one entered by it and those behind it
  have parts : chain.successors.toList.take label ++
      next :: chain.successors.toList.drop (label + 1) = chain.successors.toList := by
    rw [← here, List.getElem_cons_drop, List.take_append_drop]
  rw [parts, Array.size_replicate, List.length_take, Nat.min_eq_left (Nat.le_of_lt bound),
    Nat.zero_add] at report
  rw [flaw?, report]

end entries

section returns

structure ReturnsIn (chain : Chain) (steps : Nat) : Prop where
  leaves : 0 < steps
  back : chain.after steps 0 = 0
  least : ∀ fewer, 0 < fewer → fewer < steps → chain.after fewer 0 ≠ 0

/-- A walk that meets fresh labels up to one that it has met before is stopped at that one. -/
theorem walkFlaw_again (chain : Chain) (steps left step label : Nat) (visited : Array Bool)
    (short : steps < left)
    (stays : ∀ fewer, fewer ≤ steps → chain.after fewer label < visited.size)
    (fresh : ∀ fewer, fewer < steps → visited[chain.after fewer label]?.getD false = false)
    (distinct : ∀ first second, first < second → second < steps →
      chain.after first label ≠ chain.after second label)
    (again : visited[chain.after steps label]?.getD false = true ∨
      ∃ fewer, fewer < steps ∧ chain.after fewer label = chain.after steps label) :
    walkFlaw? chain.successors left step visited label =
      some (.closesEarly (chain.after steps label) (step + steps)) := by
  -- what the walk has met moves step by step into the marks
  induction steps generalizing left step label visited with
  | zero =>
      obtain ⟨left, rfl⟩ := Nat.exists_eq_succ_of_ne_zero (Nat.ne_of_gt short)
      rcases again with marked | ⟨fewer, none_fewer, _⟩
      · rw [after] at marked
        rw [walkFlaw?, if_pos marked]
        rfl
      · exact absurd none_fewer (Nat.not_lt_zero fewer)
  | succ steps ih =>
      obtain ⟨left, rfl⟩ := Nat.exists_eq_succ_of_ne_zero (Nat.ne_of_gt (Nat.zero_lt_of_lt short))
      have here := stays 0 (Nat.zero_le _)
      have unseen := fresh 0 (Nat.succ_pos steps)
      rw [after] at here unseen
      rw [walkFlaw?, if_neg (by rw [unseen]; decide)]
      have onward := ih left (step + 1) (chain.next label) (visited.setIfInBounds label true)
        (Nat.lt_of_succ_lt_succ short)
      simp only [after_next, Array.size_setIfInBounds] at onward
      rw [Nat.add_assoc, Nat.add_comm 1] at onward
      apply onward
      · exact fun fewer bound => stays (fewer + 1) (Nat.succ_le_succ bound)
      · intro fewer bound
        rw [unmarked_iff visited label _ here]
        exact ⟨distinct 0 (fewer + 1) (Nat.succ_pos fewer) (Nat.succ_lt_succ bound),
          fresh (fewer + 1) (Nat.succ_lt_succ bound)⟩
      · exact fun first second order bound =>
          distinct (first + 1) (second + 1) (Nat.succ_lt_succ order) (Nat.succ_lt_succ bound)
      · apply Classical.or_iff_not_imp_left.mpr
        intro unmarked
        rw [Bool.not_eq_true, unmarked_iff visited label _ here] at unmarked
        obtain ⟨apart, clear⟩ := unmarked
        obtain marked | ⟨fewer, bound, same⟩ := again
        · rw [clear] at marked
          cases marked
        · cases fewer with
          | zero => exact absurd same apart
          | succ fewer => exact ⟨fewer, Nat.lt_of_succ_lt_succ bound, same⟩

section permutations

variable (chain : Chain) (present : 0 < chain.size) (entered : chain.Permutes)

include present entered

theorem stays_inside (steps : Nat) : chain.after steps 0 < chain.size :=
  after_inside chain present ((permutes_iff chain).mp entered).2 steps

/-- Different labels lead to different labels, so a walk can be followed backwards. -/
theorem back_of_again (first more : Nat) (same : chain.after first 0 = chain.after (first + more) 0) :
    chain.after more 0 = 0 := by
  have stays := stays_inside chain present entered
  have distinct := ((permutes_iff chain).mp entered).1
  rw [successors_map] at distinct
  induction first with
  | zero =>
      rw [Nat.zero_add] at same
      exact same.symm
  | succ first ih =>
      rw [Nat.succ_add] at same
      apply ih
      exact List.inj_on_of_nodup_map distinct (List.mem_range.mpr (stays _))
        (List.mem_range.mpr (stays _)) same

theorem returns : ∃ steps, steps ≤ chain.size ∧ chain.ReturnsIn steps := by
  have stays := stays_inside chain present entered
  have some_return : ∃ steps, 0 < steps ∧ steps ≤ chain.size ∧ chain.after steps 0 = 0 := by
    apply Classical.byContradiction
    intro none_return
    have distinct : (chain.walk (chain.size + 1) 0).Nodup := by
      apply walk_nodup
      intro first second order bound same
      have later : first + (second - first) = second := by omega
      rw [← later] at same
      exact none_return ⟨second - first, by omega, by omega,
        back_of_again chain present entered _ _ same⟩
    have fewer : (chain.walk (chain.size + 1) 0).length ≤ (List.range chain.size).length := by
      apply List.Nodup.length_le_of_subset distinct
      intro label member
      obtain ⟨steps, _, rfl⟩ := List.mem_map.mp member
      exact List.mem_range.mpr (stays steps)
    rw [walk_length, List.length_range] at fewer
    omega
  classical
  obtain ⟨leaves, short, back⟩ := Nat.find_spec some_return
  refine ⟨Nat.find some_return, short, leaves, back, fun fewer positive early again => ?_⟩
  exact Nat.find_min some_return early ⟨positive, by omega, again⟩

theorem distinct_until (steps first second : Nat) (around : chain.ReturnsIn steps)
    (order : first < second) (bound : second < steps) :
    chain.after first 0 ≠ chain.after second 0 := by
  intro same
  have later : first + (second - first) = second := by omega
  rw [← later] at same
  exact around.least (second - first) (by omega) (by omega)
    (back_of_again chain present entered _ _ same)

theorem flaw_of_return (steps : Nat) (around : chain.ReturnsIn steps) (early : steps < chain.size) :
    chain.flaw? = some (.closesEarly 0 steps) := by
  have stays := stays_inside chain present entered
  have report := walkFlaw_again chain steps chain.size 0 0 (Array.replicate chain.size false) early
    (fun fewer _ => by rw [Array.size_replicate]; exact stays fewer)
    (fun fewer _ => by rw [Array.getElem?_replicate, if_pos (stays fewer)]; rfl)
    (fun first second => distinct_until chain present entered steps first second around)
    (Or.inr ⟨0, around.leaves, around.back.symm⟩)
  rw [flaw?, (entryFlaw_none_permutes chain).mpr entered]
  rw [around.back, Nat.zero_add] at report
  exact report

/-- A walk that is back after as many steps as there are labels has seen them all. -/
theorem single_of_return (around : chain.ReturnsIn chain.size) : chain.SingleCycle := by
  apply single_of_follows chain (chain.walk chain.size 0)
  apply follows_walk chain present _ around.back
  have distinct := walk_nodup chain chain.size 0 fun first second =>
    distinct_until chain present entered chain.size first second around
  apply perm_range _ _ distinct
  · intro label member
    obtain ⟨steps, _, rfl⟩ := List.mem_map.mp member
    exact stays_inside chain present entered steps
  · exact walk_length chain chain.size 0

end permutations

end returns

section verdicts

theorem guardedFlaw_some (chain : Chain) (present : 0 < chain.size) :
    guardedFlaw chain = some chain.flaw? := by
  -- the walk is only begun where no entry is at fault, and then every jump stays in the chain
  unfold guardedFlaw flaw?
  rw [guardedEntries_some chain.size 0 _ _ Array.size_replicate]
  cases entries : entryFlaw? 0 (Array.replicate chain.size false) chain.successors.toList with
  | some flaw => rfl
  | none =>
      have entered := (entryFlaw_none_permutes chain).mp entries
      exact guardedWalk_some chain chain.size 0 0 _ Array.size_replicate present
        (jumps_inside chain entered)

theorem flaw_none_iff (chain : Chain) (present : 0 < chain.size) :
    chain.flaw? = none ↔ chain.SingleCycle := by
  constructor
  · exact fun sound => single_of_follows chain _ (follows_of_sound chain present sound)
  · intro cycle
    exact sound_of_follows chain _ (follows_of_single chain present cycle) present

/-- What the check says of a chain: it looks inside its arrays only, accepts the single cycles
and no other chain, and reports the first jump at fault or else the return to label 0. -/
structure Judged (chain : Chain) : Prop where
  looks : guardedFlaw chain = some chain.flaw?
  accepts : chain.flaw? = none ↔ chain.SingleCycle
  names : ∀ label next, chain.FirstFault label next →
    chain.flaw? = some (if chain.size ≤ next then .jumpsOutside label else .enteredTwice next)
  faults : chain.Permutes ∨ ∃ label next, chain.FirstFault label next
  returns : chain.Permutes → ¬ chain.SingleCycle → ∃ steps, steps < chain.size ∧
    chain.ReturnsIn steps ∧ chain.flaw? = some (.closesEarly 0 steps)
  never : ∀ label, chain.flaw? ≠ some (.endsElsewhere label)

/-- Every chain is judged rightly, whatever its jumps are. -/
theorem check_judges (chain : Chain) (present : 0 < chain.size) : chain.Judged := by
  have faults : chain.Permutes ∨ ∃ label next, chain.FirstFault label next :=
    Classical.or_iff_not_imp_left.mpr (firstFault_of_broken chain)
  have back (entered : chain.Permutes) (split : ¬ chain.SingleCycle) :
      ∃ steps, steps < chain.size ∧ chain.ReturnsIn steps ∧
        chain.flaw? = some (.closesEarly 0 steps) := by
    obtain ⟨steps, short, around⟩ := returns chain present entered
    have early : steps < chain.size := by
      apply Nat.lt_of_le_of_ne short
      rintro rfl
      exact split (single_of_return chain present entered around)
    exact ⟨steps, early, around, flaw_of_return chain present entered steps around early⟩
  refine ⟨guardedFlaw_some chain present, flaw_none_iff chain present,
    flaw_of_firstFault chain, faults, back, ?_⟩
  intro label ended
  rcases faults with entered | ⟨place, next, first⟩
  · by_cases cycle : chain.SingleCycle
    · rw [(flaw_none_iff chain present).mpr cycle] at ended
      cases ended
    · obtain ⟨_, _, _, report⟩ := back entered cycle
      rw [report] at ended
      cases ended
  · rw [flaw_of_firstFault chain place next first] at ended
    split at ended <;> cases ended

/-- Two cycles of two labels each: the walk from label 0 is back after two steps. -/
theorem check_judges_pairs : 0 < (Chain.mk #[1, 0, 3, 2]).size ∧ (Chain.mk #[1, 0, 3, 2]).Judged ∧
    (Chain.mk #[1, 0, 3, 2]).flaw? = some (.closesEarly 0 2) :=
  ⟨by decide, check_judges _ (by decide), by decide⟩

end verdicts

end Microbench.Chain
