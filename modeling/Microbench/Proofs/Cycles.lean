import Microbench.Chain
/-!
Chains that are one cycle.

A chain follows an order if it leads from every label of the order to the next one and from
the last back to the first. A chain that follows an order of all its labels is one cycle:
from everywhere the walk meets every label before it is back. Linking an order gives a chain
that follows it, and the check of a chain accepts exactly the chains that follow some order.
-/
namespace Microbench.Chain

section walking

def next (chain : Chain) (label : Nat) : Nat := (chain.successor? label).getD 0

theorem successor_next (chain : Chain) (label : Nat) (inside : label < chain.size) :
    chain.successor? label = some (chain.next label) := by
  rw [next, successor?, Array.getElem?_eq_getElem inside]
  rfl

def after (chain : Chain) : Nat → Nat → Nat
  | 0, label => label
  | steps + 1, label => chain.next (chain.after steps label)

theorem after_next (chain : Chain) (steps label : Nat) :
    chain.after steps (chain.next label) = chain.after (steps + 1) label := by
  induction steps with
  | zero => rfl
  | succ steps ih =>
      rw [after, ih]
      rfl

theorem after_add (chain : Chain) (first second label : Nat) :
    chain.after (first + second) label = chain.after second (chain.after first label) := by
  induction second with
  | zero => rfl
  | succ second ih => rw [Nat.add_succ, after, ih, after]

def walk (chain : Chain) (steps start : Nat) : List Nat :=
  (List.range steps).map fun step => chain.after step start

theorem walk_length (chain : Chain) (steps start : Nat) :
    (chain.walk steps start).length = steps := by
  rw [walk, List.length_map, List.length_range]

theorem walk_place (chain : Chain) (steps start place : Nat) (inside : place < steps) :
    (chain.walk steps start)[place]? = some (chain.after place start) := by
  rw [walk, List.getElem?_map, List.getElem?_range inside]
  rfl

theorem walk_nodup (chain : Chain) (steps start : Nat)
    (distinct : ∀ first second, first < second → second < steps →
      chain.after first start ≠ chain.after second start) : (chain.walk steps start).Nodup := by
  apply List.pairwise_map.mpr
  apply List.pairwise_lt_range.imp_of_mem
  intro first second _ member order
  exact distinct first second order (List.mem_range.mp member)

theorem walk_add (chain : Chain) (first second start : Nat) :
    chain.walk (first + second) start =
      chain.walk first start ++ chain.walk second (chain.after first start) := by
  rw [walk, List.range_add, List.map_append, List.map_map]
  congr 1
  apply List.map_congr_left
  intro step _
  exact after_add chain first step start

end walking

section orders

/-- Labels without repetition, as many as there are, are all labels. -/
theorem perm_range (labels : List Nat) (size : Nat) (distinct : labels.Nodup)
    (below : ∀ label ∈ labels, label < size) (full : labels.length = size) :
    labels.Perm (List.range size) := by
  apply (List.perm_ext_iff_of_nodup distinct List.nodup_range).mpr
  intro label
  rw [List.mem_range]
  constructor
  · exact below label
  · intro inside
    apply Classical.byContradiction
    intro missing
    have fewer : (label :: labels).length ≤ (List.range size).length := by
      apply List.Nodup.length_le_of_subset (List.nodup_cons.mpr ⟨missing, distinct⟩)
      intro other member
      rcases List.mem_cons.mp member with rfl | found
      · exact List.mem_range.mpr inside
      · exact List.mem_range.mpr (below other found)
    rw [List.length_cons, List.length_range] at fewer
    omega

/-- A list begun at another place. -/
theorem begun_at (order : List Nat) (start place : Nat) (short : start ≤ order.length)
    (bound : place < order.length) :
    (order.drop start ++ order.take start)[place]? = order[(place + start) % order.length]? := by
  by_cases early : place < (order.drop start).length
  · rw [List.getElem?_append_left early, List.getElem?_drop, Nat.add_comm start]
    rw [List.length_drop] at early
    rw [Nat.mod_eq_of_lt (by omega)]
  · rw [List.getElem?_append_right (Nat.le_of_not_lt early)]
    rw [List.length_drop] at early ⊢
    have wrapped : (place + start) % order.length = place + start - order.length := by
      rw [Nat.mod_eq_sub_mod (by omega), Nat.mod_eq_of_lt (by omega)]
    rw [wrapped, List.getElem?_take_of_lt (by omega)]
    congr 1
    omega

theorem begun_at_length (order : List Nat) (start : Nat) (short : start ≤ order.length) :
    (order.drop start ++ order.take start).length = order.length := by
  rw [List.length_append, List.length_drop, List.length_take]
  omega

structure Follows (chain : Chain) (order : List Nat) : Prop where
  all : order.Perm (List.range chain.size)
  leads : ∀ place, place < order.length →
    order[(place + 1) % order.length]? = order[place]?.map chain.next

namespace Follows

variable {chain : Chain} {order : List Nat} (follows : chain.Follows order)

include follows

theorem length : order.length = chain.size := by
  rw [follows.all.length_eq, List.length_range]

theorem distinct : order.Nodup := follows.all.nodup_iff.mpr List.nodup_range

theorem place_of_label (label : Nat) (inside : label < chain.size) :
    ∃ place, place < order.length ∧ order[place]? = some label := by
  have member := follows.all.mem_iff.mpr (List.mem_range.mpr inside)
  obtain ⟨place, bound, found⟩ := List.getElem_of_mem member
  exact ⟨place, bound, by rw [List.getElem?_eq_getElem bound, found]⟩

theorem after_place (place steps : Nat) (bound : place < order.length) :
    order[(place + steps) % order.length]? = order[place]?.map (chain.after steps) := by
  induction steps with
  | zero =>
      rw [Nat.add_zero, Nat.mod_eq_of_lt bound]
      exact Option.map_id'.symm
  | succ steps ih =>
      have here : (place + steps) % order.length < order.length := Nat.mod_lt _ (by omega)
      have ahead := follows.leads _ here
      rw [Nat.mod_add_mod] at ahead
      rw [← Nat.add_assoc, ahead, ih, Option.map_map]
      rfl

theorem map_after (steps : Nat) (short : steps ≤ order.length) :
    order.map (chain.after steps) = order.drop steps ++ order.take steps := by
  apply List.ext_getElem?
  intro place
  rw [List.getElem?_map]
  by_cases bound : place < order.length
  · rw [begun_at order steps place short bound, follows.after_place place steps bound]
  · have outside := Nat.le_of_not_lt bound
    rw [List.getElem?_eq_none outside,
      List.getElem?_eq_none (by rw [begun_at_length order steps short]; exact outside)]
    rfl

theorem begun_perm (start : Nat) :
    (order.drop start ++ order.take start).Perm (List.range chain.size) := by
  apply List.perm_append_comm.trans
  rw [List.take_append_drop]
  exact follows.all

theorem perm_after (steps : Nat) (short : steps ≤ order.length) :
    ((List.range chain.size).map (chain.after steps)).Perm (List.range chain.size) := by
  apply (follows.all.symm.map _).trans
  rw [follows.map_after steps short]
  exact follows.begun_perm steps

/-- A walk of as many steps as there are labels goes through the order from where it began. -/
theorem walk_begun (place start : Nat) (bound : place < order.length)
    (found : order[place]? = some start) :
    chain.walk chain.size start = order.drop place ++ order.take place := by
  have short := Nat.le_of_lt bound
  have length := follows.length
  apply List.ext_getElem?
  intro steps
  by_cases inside : steps < order.length
  · rw [begun_at order place steps short inside, Nat.add_comm steps,
      follows.after_place place steps bound, found, walk_place _ _ _ _ (by omega)]
    rfl
  · have outside := Nat.le_of_not_lt inside
    rw [List.getElem?_eq_none (by rw [walk_length]; omega),
      List.getElem?_eq_none (by rw [begun_at_length order place short]; exact outside)]

end Follows

end orders

section cycles

structure SingleCycle (chain : Chain) : Prop where
  leaves : chain.edges.map Edge.current = List.range chain.size
  enters : (chain.edges.map Edge.next).Perm (List.range chain.size)
  visits : ∀ start, start < chain.size →
    (chain.walk chain.size start).Perm (List.range chain.size)
  closes : ∀ start, start < chain.size → chain.after chain.size start = start
  open_before : ∀ start steps, start < chain.size → 0 < steps → steps < chain.size →
    chain.after steps start ≠ start

theorem successors_map (chain : Chain) :
    chain.successors.toList = (List.range chain.size).map chain.next := by
  apply List.ext_getElem
  · simp [size]
  · intro label bound _
    rw [Array.length_toList] at bound
    simp [next, successor?, bound]

theorem currents (chain : Chain) : chain.edges.map Edge.current = List.range chain.size := by
  rw [edges, List.map_map, List.range_eq_range', size, ← Array.length_toList]
  exact List.zipIdx_map_snd 0 chain.successors.toList

theorem nexts (chain : Chain) : chain.edges.map Edge.next = chain.successors.toList := by
  rw [edges, List.map_map]
  exact List.zipIdx_map_fst 0 chain.successors.toList

theorem single_of_follows (chain : Chain) (order : List Nat) (follows : chain.Follows order) :
    chain.SingleCycle := by
  have length := follows.length
  constructor
  case leaves => exact currents chain
  case enters =>
    rw [nexts, successors_map]
    by_cases empty : order.length = 0
    · rw [length] at empty
      rw [empty]
      exact List.Perm.refl _
    · exact follows.perm_after 1 (by omega)
  case visits =>
    intro start inside
    obtain ⟨place, bound, found⟩ := follows.place_of_label start inside
    rw [follows.walk_begun place start bound found]
    exact follows.begun_perm place
  case closes =>
    -- as many steps as labels lead to the same place of the order
    intro start inside
    obtain ⟨place, bound, found⟩ := follows.place_of_label start inside
    have around := follows.after_place place chain.size bound
    rw [← length, Nat.add_mod_right, Nat.mod_eq_of_lt bound, found] at around
    rw [← length]
    exact (Option.some.inj around).symm
  case open_before =>
    -- a return after fewer steps would put one label at two places of the order
    intro start steps inside positive early same
    obtain ⟨place, bound, found⟩ := follows.place_of_label start inside
    have ahead := follows.after_place place steps bound
    rw [found, Option.map_some, same, ← found] at ahead
    have again := (List.getElem?_inj (Nat.mod_lt _ (by omega)) follows.distinct).mp ahead
    rw [← length] at early
    by_cases straight : place + steps < order.length
    · rw [Nat.mod_eq_of_lt straight] at again
      omega
    · rw [Nat.mod_eq_sub_mod (by omega), Nat.mod_eq_of_lt (by omega)] at again
      omega

namespace SingleCycle

variable {chain : Chain} (cycle : chain.SingleCycle)

include cycle

theorem stays (start steps : Nat) (inside : start < chain.size) :
    chain.after steps start < chain.size := by
  have entered := cycle.enters
  rw [nexts, successors_map] at entered
  induction steps with
  | zero => exact inside
  | succ steps ih =>
      apply List.mem_range.mp
      rw [← entered.mem_iff]
      exact List.mem_map.mpr ⟨_, List.mem_range.mpr ih, rfl⟩

/-- Every label is met for the first time before the walk has gone around. -/
theorem meets (start label : Nat) (begun : start < chain.size) (inside : label < chain.size) :
    ∃ distance, distance < chain.size ∧ chain.after distance start = label ∧
      ∀ earlier, earlier < distance → chain.after earlier start ≠ label := by
  have met := (cycle.visits start begun).mem_iff.mpr (List.mem_range.mpr inside)
  obtain ⟨distance, bound, rfl⟩ := List.mem_map.mp met
  have short := List.mem_range.mp bound
  refine ⟨distance, short, rfl, ?_⟩
  intro earlier before same
  have later : earlier + (distance - earlier) = distance := by omega
  rw [← later, after_add] at same
  exact cycle.open_before _ _ (cycle.stays start earlier begun) (by omega) (by omega) same.symm

theorem walk_around (rounds steps start : Nat) (inside : start < chain.size) :
    chain.walk ((rounds + 1) * chain.size + steps) start =
      chain.walk chain.size start ++ chain.walk (rounds * chain.size + steps) start := by
  have total : (rounds + 1) * chain.size + steps = chain.size + (rounds * chain.size + steps) := by
    rw [Nat.succ_mul]
    omega
  rw [total, walk_add, cycle.closes start inside]

/-- A walk of so many rounds and one step more meets its start once for each of them. -/
theorem count_start (rounds start : Nat) (inside : start < chain.size) :
    (chain.walk (rounds * chain.size + 1) start).count start = rounds + 1 := by
  induction rounds with
  | zero => simp [walk, after]
  | succ rounds ih =>
      have once : (chain.walk chain.size start).count start = 1 := by
        rw [(cycle.visits start inside).count_eq, List.nodup_range.count,
          if_pos (List.mem_range.mpr inside)]
      rw [cycle.walk_around rounds 1 start inside, List.count_append, once, ih, Nat.add_comm]

end SingleCycle

end cycles

section check

theorem entryFlaw_none_iff (label : Nat) (entered : Array Bool) (labels : List Nat) :
    entryFlaw? label entered labels = none ↔
      labels.Nodup ∧ ∀ next ∈ labels, entered[next]? = some false := by
  induction labels generalizing label entered with
  | nil => simp [entryFlaw?]
  | cons next rest ih =>
      unfold entryFlaw?
      cases seen : entered[next]? with
      | none => simp [seen]
      | some taken =>
          cases taken with
          | true => simp [seen]
          | false =>
              simp only [ih, List.nodup_cons, List.mem_cons, forall_eq_or_imp, seen, true_and]
              have inside : next < entered.size := (Array.getElem?_eq_some_iff.mp seen).1
              constructor
              · rintro ⟨distinct, free⟩
                have fresh : next ∉ rest := by
                  intro again
                  have marked := free next again
                  simp [inside] at marked
                refine ⟨⟨fresh, distinct⟩, fun other member => ?_⟩
                have different : next ≠ other := fun same => fresh (same ▸ member)
                rw [← free other member, Array.getElem?_setIfInBounds_ne different]
              · rintro ⟨⟨fresh, distinct⟩, free⟩
                refine ⟨distinct, fun other member => ?_⟩
                have different : next ≠ other := fun same => fresh (same ▸ member)
                rw [Array.getElem?_setIfInBounds_ne different, free other member]

theorem unmarked_iff (visited : Array Bool) (label other : Nat) (inside : label < visited.size) :
    (visited.setIfInBounds label true)[other]?.getD false = false ↔
      label ≠ other ∧ visited[other]?.getD false = false := by
  by_cases same : label = other
  · subst same
    simp [inside]
  · rw [Array.getElem?_setIfInBounds_ne same]
    simp [same]

/-- The walk finds no flaw exactly when it meets fresh labels only and ends at label 0. -/
theorem walkFlaw_none_iff (chain : Chain) (left step label : Nat) (visited : Array Bool)
    (size : visited.size = chain.size) (stays : ∀ steps, steps < left →
      chain.after steps label < chain.size) :
    walkFlaw? chain.successors left step visited label = none ↔
      chain.after left label = 0 ∧
      (∀ steps, steps < left → visited[chain.after steps label]?.getD false = false) ∧
      ∀ first second, first < second → second < left →
        chain.after first label ≠ chain.after second label := by
  -- what is marked in one step is what the labels met later have to differ from
  induction left generalizing step label visited with
  | zero => simp [walkFlaw?, after]
  | succ left ih =>
      have here : label < visited.size := size ▸ stays 0 (Nat.succ_pos left)
      have onward := ih (step + 1) (chain.next label) (visited.setIfInBounds label true)
        (by rw [Array.size_setIfInBounds, size]) (fun steps bound => by
          rw [after_next]
          exact stays (steps + 1) (Nat.succ_lt_succ bound))
      simp only [after_next, unmarked_iff visited label _ here] at onward
      unfold walkFlaw?
      cases seen : visited[label]?.getD false with
      | true =>
          simp only [↓reduceIte, reduceCtorEq, false_iff]
          rintro ⟨_, fresh, _⟩
          have unseen := fresh 0 (Nat.succ_pos left)
          rw [after, seen] at unseen
          cases unseen
      | false =>
          apply Iff.trans onward
          constructor
          · rintro ⟨closed, fresh, distinct⟩
            refine ⟨closed, fun steps bound => ?_, fun first second order bound => ?_⟩
            · cases steps with
              | zero => exact seen
              | succ steps => exact (fresh steps (Nat.lt_of_succ_lt_succ bound)).2
            · cases second with
              | zero => cases order
              | succ second =>
                  have later := Nat.lt_of_succ_lt_succ bound
                  cases first with
                  | zero => exact (fresh second later).1
                  | succ first => exact distinct first second (Nat.lt_of_succ_lt_succ order) later
          · rintro ⟨closed, fresh, distinct⟩
            refine ⟨closed, fun steps bound => ⟨?_, ?_⟩, fun first second order bound => ?_⟩
            · exact distinct 0 (steps + 1) (Nat.succ_pos steps) (Nat.succ_lt_succ bound)
            · exact fresh (steps + 1) (Nat.succ_lt_succ bound)
            · exact distinct (first + 1) (second + 1) (Nat.succ_lt_succ order)
                (Nat.succ_lt_succ bound)

theorem after_inside (chain : Chain) (present : 0 < chain.size)
    (jumps : ∀ next ∈ chain.successors.toList, next < chain.size) (steps : Nat) :
    chain.after steps 0 < chain.size := by
  induction steps with
  | zero => exact present
  | succ steps ih =>
      apply jumps
      rw [successors_map]
      exact List.mem_map.mpr ⟨_, List.mem_range.mpr ih, rfl⟩

/-- A walk through all labels that ends where it began is an order that the chain follows. -/
theorem follows_walk (chain : Chain) (present : 0 < chain.size)
    (all : (chain.walk chain.size 0).Perm (List.range chain.size))
    (closed : chain.after chain.size 0 = 0) : chain.Follows (chain.walk chain.size 0) := by
  refine ⟨all, fun place bound => ?_⟩
  rw [walk_length] at bound ⊢
  rw [walk_place chain _ 0 place bound]
  -- only the last label of the walk leads back to its first
  by_cases last : place + 1 < chain.size
  · rw [Nat.mod_eq_of_lt last, walk_place chain _ 0 _ last]
    rfl
  · have full : place + 1 = chain.size := by omega
    rw [full, Nat.mod_self, walk_place chain _ 0 0 present, Option.map_some]
    have ended : chain.next (chain.after place 0) = chain.after (place + 1) 0 := rfl
    rw [ended, full, closed]
    rfl

theorem follows_of_single (chain : Chain) (present : 0 < chain.size) (cycle : chain.SingleCycle) :
    chain.Follows (chain.walk chain.size 0) :=
  follows_walk chain present (cycle.visits 0 present) (cycle.closes 0 present)

theorem follows_of_sound (chain : Chain) (present : 0 < chain.size) (sound : chain.flaw? = none) :
    chain.Follows (chain.walk chain.size 0) := by
  unfold flaw? at sound
  split at sound
  · cases sound
  · next entries =>
      obtain ⟨_, free⟩ := (entryFlaw_none_iff _ _ _).mp entries
      have jumps : ∀ next ∈ chain.successors.toList, next < chain.size := by
        intro next member
        have inside := (Array.getElem?_eq_some_iff.mp (free next member)).1
        rwa [Array.size_replicate] at inside
      have stays := after_inside chain present jumps
      obtain ⟨closed, _, distinct⟩ := (walkFlaw_none_iff chain chain.size 0 0
        (Array.replicate chain.size false) Array.size_replicate fun steps _ => stays steps).mp sound
      apply follows_walk chain present _ closed
      apply perm_range _ _ (walk_nodup chain chain.size 0 distinct)
      · intro label member
        obtain ⟨steps, _, rfl⟩ := List.mem_map.mp member
        exact stays steps
      · exact walk_length chain chain.size 0

theorem sound_of_follows (chain : Chain) (order : List Nat) (follows : chain.Follows order)
    (present : 0 < chain.size) : chain.flaw? = none := by
  have cycle := single_of_follows chain order follows
  have entered : chain.successors.toList.Perm (List.range chain.size) := nexts chain ▸ cycle.enters
  have jumps : ∀ next ∈ chain.successors.toList, next < chain.size :=
    fun next member => List.mem_range.mp (entered.mem_iff.mp member)
  have entries : entryFlaw? 0 (Array.replicate chain.size false) chain.successors.toList = none := by
    refine (entryFlaw_none_iff _ _ _).mpr ⟨entered.nodup_iff.mpr List.nodup_range, ?_⟩
    intro next member
    simp [jumps next member]
  have stays := after_inside chain present jumps
  unfold flaw?
  rw [entries]
  refine (walkFlaw_none_iff chain chain.size 0 0 _ Array.size_replicate fun steps _ =>
    stays steps).mpr ⟨cycle.closes 0 present, ?_, ?_⟩
  · intro steps _
    simp [stays steps]
  · intro first second earlier bound same
    have later : first + (second - first) = second := by omega
    rw [← later, after_add] at same
    exact cycle.open_before _ _ (stays first) (by omega) (by omega) same.symm

end check

section linking

theorem links_getElem (order : List Nat) (place : Nat) (bound : place < order.length) :
    ∃ label next, order[place]? = some label ∧ order[(place + 1) % order.length]? = some next ∧
      (links order)[place]? = some (label, next) := by
  have here := List.getElem?_eq_getElem bound
  have wrapped : (place + 1) % order.length < order.length := Nat.mod_lt _ (by omega)
  have there := List.getElem?_eq_getElem wrapped
  have ahead : (order.tail ++ order.take 1)[place]? = order[(place + 1) % order.length]? := by
    rw [← List.drop_one]
    exact begun_at order 1 place (by omega) bound
  refine ⟨_, _, here, there, ?_⟩
  rw [links, List.getElem?_zip_eq_some]
  exact ⟨here, ahead.trans there⟩

theorem links_currents (order : List Nat) : (links order).map Prod.fst = order := by
  cases order with
  | nil => rfl
  | cons first rest =>
      apply List.map_fst_zip
      have short : 1 ≤ (first :: rest).length := Nat.succ_pos rest.length
      rw [← List.drop_one]
      exact Nat.le_of_eq (begun_at_length (first :: rest) 1 short).symm

/-- Links of distinct labels with empty slots fill these slots and no others. -/
theorem fill_ok (slots : Array (Option Nat)) (pairs : List (Nat × Nat))
    (distinct : (pairs.map Prod.fst).Nodup)
    (empty : ∀ pair ∈ pairs, slots[pair.1]? = some none) :
    ∃ filled, fill slots pairs = .ok filled ∧ filled.size = slots.size ∧
      (∀ pair ∈ pairs, filled[pair.1]? = some (some pair.2)) ∧
      ∀ label, label ∉ pairs.map Prod.fst → filled[label]? = slots[label]? := by
  -- the slots of the pairs to come stay empty, since no label comes twice
  induction pairs generalizing slots with
  | nil => exact ⟨slots, rfl, rfl, by simp, fun _ _ => rfl⟩
  | cons pair rest ih =>
      obtain ⟨current, next⟩ := pair
      obtain ⟨fresh, others⟩ := List.nodup_cons.mp distinct
      have free := empty (current, next) List.mem_cons_self
      have inside : current < slots.size := (Array.getElem?_eq_some_iff.mp free).1
      have apart (pair : Nat × Nat) (member : pair ∈ rest) : current ≠ pair.1 := by
        rintro rfl
        exact fresh (List.mem_map.mpr ⟨pair, member, rfl⟩)
      obtain ⟨filled, done, size, linked, kept⟩ := ih (slots.setIfInBounds current (some next)) others
        (fun pair member => by
          rw [Array.getElem?_setIfInBounds_ne (apart pair member)]
          exact empty pair (List.mem_cons_of_mem _ member))
      refine ⟨filled, ?_, ?_, ?_, ?_⟩
      · simp only [fill, free]
        exact done
      · rw [size, Array.size_setIfInBounds]
      · intro pair member
        rcases List.mem_cons.mp member with rfl | later
        · rw [kept current fresh]
          simp [inside]
        · exact linked pair later
      · intro label absent
        rw [List.map_cons, List.mem_cons, not_or] at absent
        rw [kept label absent.2, Array.getElem?_setIfInBounds_ne (Ne.symm absent.1)]

theorem fill_size (slots filled : Array (Option Nat)) (pairs : List (Nat × Nat))
    (done : fill slots pairs = .ok filled) : filled.size = slots.size := by
  induction pairs generalizing slots with
  | nil =>
      cases done
      rfl
  | cons pair rest ih =>
      unfold fill at done
      split at done
      · rw [ih _ done, Array.size_setIfInBounds]
      · cases done

theorem sizeFault_none_iff (size : Nat) : sizeFault? size = none ↔
    1 <<< size.log2 = size ∧ minSize ≤ size ∧ size ≤ 1 <<< maxExponent := by
  unfold sizeFault?
  by_cases power : 1 <<< size.log2 = size
  · by_cases small : size < minSize
    · simp [power, small, Nat.not_le.mpr small]
    · by_cases large : 1 <<< maxExponent < size
      · simp [power, small, large, Nat.not_le.mpr large]
      · simp [power, small, large, Nat.not_lt.mp small, Nat.not_lt.mp large]
  · simp [power]

theorem present_of_accepted {size : Nat} (accepted : sizeFault? size = none) : 0 < size := by
  obtain ⟨_, least, _⟩ := (sizeFault_none_iff size).mp accepted
  exact Nat.lt_of_lt_of_le (by decide) least

/-- An order of all labels, as many as a chain may have, is linked to a chain that follows it. -/
theorem ofOrder_follows (order : List Nat) (all : order.Perm (List.range order.length))
    (accepted : sizeFault? order.length = none) :
    ∃ chain, ofOrder order = .ok chain ∧ chain.size = order.length ∧ chain.Follows order := by
  have present := present_of_accepted accepted
  have currents := links_currents order
  obtain ⟨filled, done, filledSize, linked, _⟩ :=
    fill_ok (Array.replicate order.length none) (links order)
      (currents.symm ▸ all.nodup_iff.mpr List.nodup_range) (by
        intro pair member
        have label : pair.1 ∈ order := currents ▸ List.mem_map.mpr ⟨pair, member, rfl⟩
        simp [List.mem_range.mp (all.mem_iff.mp label)])
  let chain : Chain := ⟨filled.map (·.getD 0)⟩
  have size : chain.size = order.length := by
    rw [Chain.size, Array.size_map, filledSize, Array.size_replicate]
  have follows : chain.Follows order := by
    constructor
    · rw [size]
      exact all
    · intro place bound
      obtain ⟨label, next, here, there, pair⟩ := links_getElem order place bound
      have slot : filled[label]? = some (some next) := linked (label, next) (List.mem_of_getElem? pair)
      rw [there, here, Option.map_some, Chain.next, successor?, Array.getElem?_map, slot]
      rfl
  refine ⟨chain, ?_, size, follows⟩
  simp only [ofOrder, accepted, done]
  rw [sound_of_follows chain order follows (size ▸ present)]

/-- What comes of an order is of an accepted size and has passed the check. -/
theorem ofOrder_checked (order : List Nat) (chain : Chain) (made : ofOrder order = .ok chain) :
    sizeFault? chain.size = none ∧ chain.flaw? = none := by
  simp only [ofOrder] at made
  split at made
  · cases made
  · next accepted =>
    split at made
    · cases made
    · next slots filled =>
      split at made
      · cases made
      · next sound =>
        cases made
        have full := fill_size _ _ _ filled
        rw [Array.size_replicate] at full
        refine ⟨?_, sound⟩
        rw [size, Array.size_map, full]
        exact accepted

theorem single_of_order (order : List Nat) (chain : Chain) (made : ofOrder order = .ok chain) :
    chain.SingleCycle := by
  obtain ⟨accepted, sound⟩ := ofOrder_checked order chain made
  exact single_of_follows chain _ (follows_of_sound chain (present_of_accepted accepted) sound)

end linking

end Microbench.Chain
