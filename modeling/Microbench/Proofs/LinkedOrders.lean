import Mathlib.Data.List.Chain
import Microbench.Proofs.ChainFlaws
import Microbench.Proofs.RandomChains
/-!
Which orders can be linked.

An order is linked exactly when it has an accepted length and is a permutation of its labels.
What stops the linking of any other order is the first label that is too large or stands in the
order for the second time, and the check of the finished chain never has anything to add.

The slots that are filled need no type of their own. In a table of words the largest word can
mark an empty slot, although nothing keeps it from being copied into one: the label that is
copied is the next to be placed, and a label as large as the mark has no slot.
-/
namespace Microbench.Chain

section marks

/-- The largest word, which marks an empty slot. -/
def emptySlot : Nat := 0xFFFFFFFFFFFFFFFF

def fillWords : Array Nat → List (Nat × Nat) → Except Nat (Array Nat)
  | slots, [] => .ok slots
  | slots, (current, next) :: rest =>
    if slots.size ≤ current ∨ slots[current]? ≠ some emptySlot then .error current
    else fillWords (slots.setIfInBounds current next) rest

def ofOrderWords (order : List Nat) : Except Refusal Chain :=
  let size := order.length
  match sizeFault? size with
  | some fault => .error (.size fault)
  | none =>
    match fillWords (Array.replicate size emptySlot) (links order) with
    | .error label => .error (.broken size (.notUnique label size))
    | .ok slots =>
      match (Chain.mk slots).flaw? with
      | some flaw => .error (.broken size flaw)
      | none => .ok ⟨slots⟩

def marked (slots : Array (Option Nat)) : Array Nat := slots.map (·.getD emptySlot)

theorem marked_getElem (slots : Array (Option Nat)) (label : Nat) :
    (marked slots)[label]? = slots[label]?.map fun held => held.getD emptySlot :=
  Array.getElem?_map

theorem marked_set (slots : Array (Option Nat)) (label next : Nat) :
    (marked slots).setIfInBounds label next = marked (slots.setIfInBounds label (some next)) := by
  rw [marked, marked, Array.map_setIfInBounds]
  rfl

theorem fillWords_marked (slots : Array (Option Nat)) (pairs : List (Nat × Nat))
    (small : slots.size ≤ emptySlot) (linked : pairs.IsChain fun first second => first.2 = second.1)
    (honest : ∀ label : Nat, slots[label]? = some (some emptySlot) →
      ∀ pair ∈ pairs.head?, pair.1 = emptySlot) :
    fillWords (marked slots) pairs = (fill slots pairs).map marked := by
  -- a slot holds the mark only while the mark itself is the next label to be placed, and that one
  -- stops the filling. So no slot that is filled is ever taken for an empty one.
  induction pairs generalizing slots with
  | nil => rfl
  | cons pair rest ih =>
      obtain ⟨current, next⟩ := pair
      have size : (marked slots).size = slots.size := Array.size_map
      unfold fillWords fill
      rw [size, marked_getElem]
      cases slot : slots[current]? with
      | none =>
          have outside := Array.getElem?_eq_none_iff.mp slot
          rw [if_pos (.inl outside)]
          rfl
      | some held =>
          have inside : current < slots.size := (Array.getElem?_eq_some_iff.mp slot).1
          cases held with
          | some taken =>
              have other : taken ≠ emptySlot := by
                rintro rfl
                have same : current = emptySlot := honest current slot (current, next) rfl
                omega
              rw [if_pos (.inr fun same => other (Option.some.inj same))]
              rfl
          | none =>
              rw [if_neg (by simp [inside]), marked_set]
              obtain ⟨follows, later⟩ := List.isChain_cons.mp linked
              apply ih _ (by rwa [Array.size_setIfInBounds]) later
              intro label holds pair member
              by_cases same : current = label
              · rw [same, Array.getElem?_setIfInBounds_self, if_pos (same ▸ inside)] at holds
                rw [← follows pair member]
                exact Option.some.inj (Option.some.inj holds)
              · rw [Array.getElem?_setIfInBounds_ne same] at holds
                have again : current = emptySlot := honest label holds (current, next) rfl
                omega

theorem links_chained (order : List Nat) :
    (links order).IsChain fun first second => first.2 = second.1 := by
  have length : (links order).length = order.length := by
    rw [← List.length_map (f := Prod.fst), links_currents]
  apply List.isChain_iff_getElem.mpr
  intro place bound
  obtain ⟨_, next, _, ahead, here⟩ := links_getElem order place (by omega)
  obtain ⟨label, _, found, _, there⟩ := links_getElem order (place + 1) (by omega)
  rw [Nat.mod_eq_of_lt (by omega), found] at ahead
  rw [(List.getElem?_eq_some_iff.mp here).2, (List.getElem?_eq_some_iff.mp there).2]
  exact (Option.some.inj ahead).symm

end marks

section strays

/-- A label that has no slot, or whose slot an earlier place of the order has taken. -/
def Stray (order : List Nat) (place label : Nat) : Prop :=
  order[place]? = some label ∧
    (order.length ≤ label ∨ ∃ earlier, earlier < place ∧ order[earlier]? = some label)

structure FirstStray (order : List Nat) (place label : Nat) : Prop where
  stray : Stray order place label
  least : ∀ earlier other, earlier < place → ¬ Stray order earlier other

/-- An order that is read as the jumps of a chain has its strays where that chain is at fault. -/
theorem stray_iff_faulty (order : List Nat) (place label : Nat) :
    Stray order place label ↔ (Chain.mk order.toArray).Faulty place label := by
  simp only [Stray, Faulty, successor?, size, List.getElem?_toArray, List.size_toArray]

theorem firstStray_or_all (order : List Nat) :
    order.Perm (List.range order.length) ∨ ∃ place label, FirstStray order place label := by
  by_cases all : (Chain.mk order.toArray).Permutes
  · left
    simpa only [Permutes, size, List.size_toArray] using all
  · right
    obtain ⟨place, label, fault, least⟩ := firstFault_of_broken _ all
    refine ⟨place, label, (stray_iff_faulty _ _ _).mpr fault, fun earlier other before stray => ?_⟩
    exact least earlier other before ((stray_iff_faulty _ _ _).mp stray)

theorem fill_append (slots : Array (Option Nat)) (front back : List (Nat × Nat)) :
    fill slots (front ++ back) = (fill slots front).bind fun filled => fill filled back := by
  induction front generalizing slots with
  | nil => rfl
  | cons pair front ih =>
      rw [List.cons_append, fill, fill]
      split
      · exact ih _
      · rfl

theorem fill_of_firstStray (order : List Nat) (place label : Nat)
    (first : FirstStray order place label) :
    fill (Array.replicate order.length none) (links order) = .error label := by
  -- the labels in front of the first stray one fill slots of their own, and it finds none
  obtain ⟨found, stray⟩ := first.stray
  have bound : place < order.length := (List.getElem?_eq_some_iff.mp found).1
  have sound := front_sound (Chain.mk order.toArray) place fun earlier other before fault =>
    first.least earlier other before ((stray_iff_faulty _ _ _).mpr fault)
  simp only [size, List.size_toArray] at sound
  obtain ⟨distinct, below⟩ := sound
  obtain ⟨same, next, here, _, link⟩ := links_getElem order place bound
  cases found.symm.trans here
  have currents : ((links order).take place).map Prod.fst = order.take place := by
    rw [List.map_take, links_currents]
  obtain ⟨filled, done, _, linked, kept⟩ := fill_ok (Array.replicate order.length none)
    ((links order).take place) (by rw [currents]; exact distinct) (by
      intro pair member
      have placed : pair.1 ∈ order.take place := currents ▸ List.mem_map_of_mem member
      rw [Array.getElem?_replicate, if_pos (below _ placed)])
  rw [currents] at kept
  have parts : (links order).take place ++ (label, next) :: (links order).drop (place + 1) =
      links order := by
    obtain ⟨inside, here⟩ := List.getElem?_eq_some_iff.mp link
    rw [← here, List.getElem_cons_drop, List.take_append_drop]
  have taken : filled[label]? ≠ some none := by
    by_cases again : label ∈ order.take place
    · rw [← currents] at again
      obtain ⟨pair, member, rfl⟩ := List.mem_map.mp again
      rw [linked pair member]
      simp
    · rw [kept label again]
      rcases stray with outside | ⟨earlier, before, repeated⟩
      · rw [Array.getElem?_replicate, if_neg (Nat.not_lt.mpr outside)]
        simp
      · apply absurd (List.mem_of_getElem? (i := earlier) _) again
        rw [List.getElem?_take, if_pos before, repeated]
  rw [← parts, fill_append, done]
  show fill filled ((label, next) :: _) = _
  unfold fill
  split
  · next empty => exact absurd empty taken
  · rfl

theorem perm_of_filled (order : List Nat) (filled : Array (Option Nat))
    (done : fill (Array.replicate order.length none) (links order) = .ok filled) :
    order.Perm (List.range order.length) := by
  rcases firstStray_or_all order with all | ⟨place, label, first⟩
  · exact all
  · rw [fill_of_firstStray order place label first] at done
    cases done

end strays

section linking

/-- Distinct labels, as many as there are slots, leave none of them empty. -/
theorem marked_filled (order : List Nat) (filled : Array (Option Nat))
    (done : fill (Array.replicate order.length none) (links order) = .ok filled) :
    marked filled = filled.map (·.getD 0) := by
  have all := perm_of_filled order filled done
  have currents := links_currents order
  obtain ⟨same, again, size, linked, _⟩ := fill_ok (Array.replicate order.length none) (links order)
    (currents.symm ▸ all.nodup_iff.mpr List.nodup_range) (by
      intro pair member
      have label : pair.1 ∈ order := currents ▸ List.mem_map_of_mem member
      rw [Array.getElem?_replicate, if_pos (List.mem_range.mp (all.mem_iff.mp label))])
  cases again.symm.trans done
  rw [Array.size_replicate] at size
  apply Array.map_congr_left
  intro held member
  obtain ⟨label, inside, rfl⟩ := Array.getElem_of_mem member
  have placed : label ∈ (links order).map Prod.fst := by
    rw [currents, all.mem_iff, List.mem_range, ← size]
    exact inside
  obtain ⟨pair, listed, rfl⟩ := List.mem_map.mp placed
  rw [(Array.getElem?_eq_some_iff.mp (linked pair listed)).2]
  rfl

theorem ofOrderWords_eq (order : List Nat) : ofOrderWords order = ofOrder order := by
  cases accepted : sizeFault? order.length with
  | some fault => simp only [ofOrderWords, ofOrder, accepted]
  | none =>
      obtain ⟨_, _, most⟩ := (sizeFault_none_iff _).mp accepted
      have small : (Array.replicate order.length (none : Option Nat)).size ≤ emptySlot := by
        rw [Array.size_replicate]
        exact Nat.le_trans most (by decide)
      have words := fillWords_marked _ (links order) small (links_chained order) (by
        intro label holds
        rw [Array.getElem?_replicate] at holds
        split at holds <;> cases holds)
      have start : marked (Array.replicate order.length none) =
          Array.replicate order.length emptySlot := Array.map_replicate
      rw [start] at words
      simp only [ofOrderWords, ofOrder, accepted, words]
      cases done : fill (Array.replicate order.length none) (links order) with
      | error label => rfl
      | ok filled =>
          have tables := marked_filled order filled done
          cases found : (Chain.mk (filled.map (·.getD 0))).flaw? with
          | some flaw => simp only [Except.map, tables, found]
          | none => simp only [Except.map, tables, found]

/-- What comes of linking an order: a chain that leads from every label to the next one, or the
fault of the length, or the first label that is out of place. -/
structure Linked (order : List Nat) : Prop where
  accepts : (∃ chain, ofOrder order = .ok chain) ↔
    (∃ exponent, 2 ≤ exponent ∧ exponent ≤ 20 ∧ order.length = 2 ^ exponent) ∧
      order.Perm (List.range order.length)
  leads : ∀ chain, ofOrder order = .ok chain → ∀ place, place < order.length →
    ∃ label next, order[place]? = some label ∧ order[(place + 1) % order.length]? = some next ∧
      chain.successor? label = some next
  lists : ∀ chain, ofOrder order = .ok chain →
    chain.edges.map Edge.current = List.range order.length
  refuses : ∀ fault, sizeFault? order.length = some fault → ofOrder order = .error (.size fault)
  names : sizeFault? order.length = none → ∀ place label, FirstStray order place label →
    ofOrder order = .error (.broken order.length (.notUnique label order.length)) ∧
      (Flaw.notUnique label order.length).reason =
        "label " ++ toString label ++ " is not a unique member of 0.." ++ toString order.length
  strays : order.Perm (List.range order.length) ∨ ∃ place label, FirstStray order place label
  sound : sizeFault? order.length = none → ∀ filled,
    fill (Array.replicate order.length none) (links order) = .ok filled →
      (Chain.mk (filled.map (·.getD 0))).flaw? = none
  words : ofOrderWords order = ofOrder order

theorem ofOrder_of_stray (order : List Nat) (accepted : sizeFault? order.length = none)
    (place label : Nat) (first : FirstStray order place label) :
    ofOrder order = .error (.broken order.length (.notUnique label order.length)) := by
  simp only [ofOrder, accepted, fill_of_firstStray order place label first]

theorem ofOrder_ok_iff (order : List Nat) : (∃ chain, ofOrder order = .ok chain) ↔
    sizeFault? order.length = none ∧ order.Perm (List.range order.length) := by
  constructor
  · rintro ⟨chain, made⟩
    cases accepted : sizeFault? order.length with
    | some fault =>
        simp only [ofOrder, accepted] at made
        cases made
    | none =>
        refine ⟨rfl, ?_⟩
        rcases firstStray_or_all order with all | ⟨place, label, first⟩
        · exact all
        · rw [ofOrder_of_stray order accepted place label first] at made
          cases made
  · rintro ⟨accepted, all⟩
    obtain ⟨chain, made, _⟩ := ofOrder_follows order all accepted
    exact ⟨chain, made⟩

theorem follows_of_ofOrder (order : List Nat) (chain : Chain) (made : ofOrder order = .ok chain) :
    chain.size = order.length ∧ chain.Follows order := by
  obtain ⟨accepted, all⟩ := (ofOrder_ok_iff order).mp ⟨chain, made⟩
  obtain ⟨linked, again, size, follows⟩ := ofOrder_follows order all accepted
  cases made.symm.trans again
  exact ⟨size, follows⟩

/-- Every list of numbers is linked as it should be, the mark of an empty slot among them. -/
theorem orders_linked (order : List Nat) : Linked order := by
  constructor
  case accepts => rw [ofOrder_ok_iff, accepted_iff_power]
  case leads =>
    intro chain made place bound
    obtain ⟨size, follows⟩ := follows_of_ofOrder order chain made
    have here := List.getElem?_eq_getElem bound
    have ahead := follows.leads place bound
    rw [here, Option.map_some] at ahead
    have inside : order[place] < chain.size :=
      List.mem_range.mp (follows.all.mem_iff.mp (List.getElem_mem bound))
    exact ⟨_, _, here, ahead, successor_next chain _ inside⟩
  case lists =>
    intro chain made
    rw [currents, (follows_of_ofOrder order chain made).1]
  case refuses =>
    intro fault refused
    simp only [ofOrder, refused]
  case names =>
    exact fun accepted place label first => ⟨ofOrder_of_stray order accepted place label first, rfl⟩
  case strays => exact firstStray_or_all order
  case sound =>
    intro accepted filled done
    obtain ⟨chain, made, _⟩ := ofOrder_follows order (perm_of_filled order filled done) accepted
    simp only [ofOrder, accepted, done] at made
    split at made
    · cases made
    · next none_found => exact none_found
  case words => exact ofOrderWords_eq order

-- The mark is copied into the slot of 2, and then stops the filling as a label of its own.
example : ofOrderWords [2, emptySlot, 2, 1] = .error (.broken 4 (.notUnique emptySlot 4)) := by
  decide

end linking

end Microbench.Chain
