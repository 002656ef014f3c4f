import Mathlib.Data.List.Rotate
import Mathlib.Probability.Distributions.Uniform
import Microbench.Proofs.Cycles
/-!
Which orders are linked to one chain.

Two orders of all labels are linked to the same chain exactly when one is a rotation of the
other, and every single cycle is what the order of its own walk is linked to. So there are as
many orders for a cycle as it has labels. If all orders are equally likely, so are the cycles.
-/
namespace Microbench.Chain

section following

variable {chain other : Chain} {order second : List Nat} (follows : chain.Follows order)

include follows

namespace Follows

theorem unique (same : other.Follows order) : chain = other := by
  have sizes : chain.size = other.size := follows.length.symm.trans same.length
  have nexts : ∀ label ∈ List.range chain.size, chain.next label = other.next label := by
    intro label member
    obtain ⟨place, bound, found⟩ := follows.place_of_label label (List.mem_range.mp member)
    have ahead := follows.leads place bound
    rw [same.leads place bound, found] at ahead
    exact (Option.some.inj ahead).symm
  have tables : chain.successors.toList = other.successors.toList := by
    rw [successors_map, successors_map, ← sizes]
    exact List.map_congr_left nexts
  exact congrArg Chain.mk (Array.toList_inj.mp tables)

theorem rotate (steps : Nat) : chain.Follows (order.rotate steps) := by
  constructor
  · exact (order.rotate_perm steps).trans follows.all
  · intro place bound
    rw [List.length_rotate] at bound ⊢
    have here : (place + steps) % order.length < order.length := Nat.mod_lt _ (by omega)
    have ahead := follows.leads _ here
    rw [List.getElem?_rotate bound, List.getElem?_rotate (Nat.mod_lt _ (by omega)), ← ahead,
      Nat.mod_add_mod, Nat.mod_add_mod, Nat.add_right_comm]

theorem rotated (also : chain.Follows second) : order.IsRotated second := by
  -- both orders are a walk from the first label of the second one
  cases second with
  | nil =>
      have none := follows.length.trans also.length.symm
      rw [List.eq_nil_of_length_eq_zero none]
  | cons start rest =>
      have inside : start < chain.size :=
        List.mem_range.mp (also.all.mem_iff.mp List.mem_cons_self)
      obtain ⟨place, bound, found⟩ := follows.place_of_label start inside
      refine ⟨place, ?_⟩
      rw [List.rotate_eq_drop_append_take (Nat.le_of_lt bound),
        ← follows.walk_begun place start bound found,
        also.walk_begun 0 start (Nat.succ_pos rest.length) rfl]
      exact List.append_nil (start :: rest)

end Follows

end following

section linking

variable {size : Nat} (accepted : sizeFault? size = none)

include accepted

/-- An order of so many labels is linked to the one chain that follows it. -/
theorem order_linked (order : List Nat) (all : order.Perm (List.range size)) :
    ∃ chain, ofOrder order = .ok chain ∧ chain.size = size ∧ chain.Follows order := by
  have length : order.length = size := by rw [all.length_eq, List.length_range]
  subst length
  exact ofOrder_follows order all accepted

theorem ofOrder_iff_follows (order : List Nat) (all : order.Perm (List.range size))
    (chain : Chain) : ofOrder order = .ok chain ↔ chain.Follows order := by
  obtain ⟨linked, made, _, follows⟩ := order_linked accepted order all
  rw [made, Except.ok.injEq]
  constructor
  · rintro rfl
    exact follows
  · exact follows.unique

theorem ofOrder_eq_iff_rotated (first second : List Nat) (all : first.Perm (List.range size))
    (also : second.Perm (List.range size)) :
    ofOrder first = ofOrder second ↔ first.IsRotated second := by
  obtain ⟨chain, made, _, follows⟩ := order_linked accepted first all
  rw [made, eq_comm, ofOrder_iff_follows accepted second also chain]
  constructor
  · exact follows.rotated
  · rintro ⟨steps, rfl⟩
    exact follows.rotate steps

end linking

section counting

def orders (size : Nat) : Finset (List Nat) := (List.range size).permutations.toFinset

theorem mem_orders (size : Nat) (order : List Nat) :
    order ∈ orders size ↔ order.Perm (List.range size) := by
  rw [orders, List.mem_toFinset, List.mem_permutations]

theorem orders_card (size : Nat) : (orders size).card = size.factorial := by
  rw [orders, List.toFinset_card_of_nodup (List.nodup_permutations _ List.nodup_range),
    List.length_permutations, List.length_range]

theorem orders_nonempty (size : Nat) : (orders size).Nonempty :=
  ⟨List.range size, (mem_orders size _).mpr (List.Perm.refl _)⟩

variable {size : Nat} (accepted : sizeFault? size = none) {chain : Chain}
  (full : chain.size = size) (cycle : chain.SingleCycle)

include accepted full cycle

theorem linked_iff_rotated (order : List Nat) : order ∈ orders size ∧ ofOrder order = .ok chain ↔
    order.IsRotated (chain.walk size 0) := by
  subst full
  have follows := follows_of_single chain (present_of_accepted accepted) cycle
  constructor
  · rintro ⟨member, made⟩
    rw [ofOrder_iff_follows accepted order ((mem_orders _ _).mp member)] at made
    exact made.rotated follows
  · intro turned
    have all : order.Perm (List.range chain.size) := turned.perm.trans follows.all
    obtain ⟨steps, rfl⟩ := turned.symm
    exact ⟨(mem_orders _ _).mpr all,
      (ofOrder_iff_follows accepted _ all chain).mpr (follows.rotate steps)⟩

/-- There are as many orders for a single cycle as it has labels. -/
theorem linked_card : ((orders size).filter fun order => ofOrder order = .ok chain).card = size := by
  have turned : (orders size).filter (fun order => ofOrder order = .ok chain) =
      (chain.walk size 0).cyclicPermutations.toFinset := by
    ext order
    rw [Finset.mem_filter, linked_iff_rotated accepted full cycle, List.mem_toFinset,
      List.mem_cyclicPermutations_iff]
  have all := cycle.visits 0 (full ▸ present_of_accepted accepted)
  rw [full] at all
  have nonempty : chain.walk size 0 ≠ [] := by
    have length := walk_length chain size 0
    have present := present_of_accepted accepted
    rintro empty
    rw [empty, List.length_nil] at length
    omega
  rw [turned, List.toFinset_card_of_nodup (all.nodup_iff.mpr List.nodup_range).cyclicPermutations,
    List.length_cyclicPermutations_of_ne_nil _ nonempty, walk_length]

end counting

section drawing

noncomputable def drawn (size : Nat) : PMF (Except Refusal Chain) :=
  (PMF.uniformOfFinset (orders size) (orders_nonempty size)).map ofOrder

variable {size : Nat} (accepted : sizeFault? size = none)

include accepted

theorem drawn_single {chain : Chain} (full : chain.size = size) (cycle : chain.SingleCycle) :
    drawn size (.ok chain) = ((size - 1).factorial : ENNReal)⁻¹ := by
  classical
  have several : size ≠ 0 := Nat.ne_of_gt (present_of_accepted accepted)
  rw [← PMF.toOuterMeasure_apply_singleton, drawn, PMF.toOuterMeasure_map_apply,
    PMF.toOuterMeasure_uniformOfFinset_apply, orders_card]
  simp only [Set.mem_preimage, Set.mem_singleton_iff]
  rw [linked_card accepted full cycle, ← Nat.mul_factorial_pred several, Nat.cast_mul]
  calc (size : ENNReal) / (size * (size - 1).factorial)
    _ = (size * 1) / (size * (size - 1).factorial) := by rw [mul_one]
    _ = 1 / (size - 1).factorial := ENNReal.mul_div_mul_left _ _ (Nat.cast_ne_zero.mpr several)
        (ENNReal.natCast_ne_top size)
    _ = ((size - 1).factorial : ENNReal)⁻¹ := one_div _

theorem drawn_support (result : Except Refusal Chain) (possible : result ∈ (drawn size).support) :
    ∃ chain, result = .ok chain ∧ chain.size = size ∧ chain.SingleCycle := by
  rw [drawn, PMF.mem_support_map_iff] at possible
  obtain ⟨order, chosen, rfl⟩ := possible
  rw [PMF.mem_support_uniformOfFinset_iff, mem_orders] at chosen
  obtain ⟨chain, made, full, follows⟩ := order_linked accepted order chosen
  exact ⟨chain, made, full, single_of_follows chain order follows⟩

end drawing

/-- Orders are linked to one chain exactly if they are rotations of each other, and every chain
that passes the check is reached. So single cycles are drawn as evenly as orders are. -/
theorem orders_sample_cycles (size : Nat) (accepted : sizeFault? size = none) :
    (∀ order : List Nat, order.Perm (List.range size) →
      ∃ chain, ofOrder order = .ok chain ∧ chain.size = size ∧ chain.SingleCycle) ∧
    (∀ first second : List Nat, first.Perm (List.range size) → second.Perm (List.range size) →
      (ofOrder first = ofOrder second ↔ first.IsRotated second)) ∧
    (∀ chain : Chain, chain.size = size → chain.flaw? = none →
      chain.SingleCycle ∧ ∃ order, order.Perm (List.range size) ∧ ofOrder order = .ok chain) ∧
    (∀ chain : Chain, chain.size = size → chain.SingleCycle →
      ((orders size).filter fun order => ofOrder order = .ok chain).card = size ∧
      drawn size (.ok chain) = ((size - 1).factorial : ENNReal)⁻¹) ∧
    ∀ result ∈ (drawn size).support,
      ∃ chain, result = .ok chain ∧ chain.size = size ∧ chain.SingleCycle := by
  refine ⟨?_, ofOrder_eq_iff_rotated accepted, ?_, ?_, drawn_support accepted⟩
  · intro order all
    obtain ⟨chain, made, full, follows⟩ := order_linked accepted order all
    exact ⟨chain, made, full, single_of_follows chain order follows⟩
  · rintro chain rfl sound
    have follows := follows_of_sound chain (present_of_accepted accepted) sound
    exact ⟨single_of_follows chain _ follows, _, follows.all,
      (ofOrder_iff_follows accepted _ follows.all chain).mpr follows⟩
  · intro chain full cycle
    exact ⟨linked_card accepted full cycle, drawn_single accepted full cycle⟩

theorem orders_sample_cycles_four : sizeFault? 4 = none ∧
    ofOrder [2, 0, 3, 1] = ofOrder [3, 1, 2, 0] ∧
    ofOrder [2, 0, 3, 1] ≠ ofOrder [2, 3, 0, 1] ∧
    ((orders 4).filter fun order => ofOrder order = .ok ⟨#[3, 2, 0, 1]⟩).card = 4 ∧
    drawn 4 (.ok ⟨#[3, 2, 0, 1]⟩) = (6 : ENNReal)⁻¹ := by
  obtain ⟨_, rotations, reached, counted, _⟩ := orders_sample_cycles 4 (by decide)
  have turned : List.IsRotated [2, 0, 3, 1] [3, 1, 2, 0] := ⟨2, rfl⟩
  have cycle := (reached ⟨#[3, 2, 0, 1]⟩ rfl (by decide)).1
  obtain ⟨several, even⟩ := counted ⟨#[3, 2, 0, 1]⟩ rfl cycle
  refine ⟨by decide, (rotations _ _ (by decide) (by decide)).mpr turned, ?_, several, ?_⟩
  · rw [Ne, rotations _ _ (by decide) (by decide), List.isRotated_iff_mem_map_range]
    decide
  · rw [even]
    rfl

end Microbench.Chain
