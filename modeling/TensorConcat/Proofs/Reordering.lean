import TensorConcat.Proofs.Coordinates

/-!
# Axes in another order

An order names each index of a list once, and the inverse order gives the place of each index
in it. Reordering with one and then with the other gives the list back. When axes are reordered
and the indices of a coordinate with them, the coordinate is below the extents as before, and
it addresses the same element.
-/

namespace TensorConcat

section Lists
variable {α β : Type} {order : List Nat} {n : Nat}

/-- The entries that an order names, in that order. -/
def reorder (order : List Nat) (xs : List α) : List α := order.filterMap (xs[·]?)

/-- The place of each index in an order. -/
def inverseOrder (order : List Nat) : List Nat := (List.range order.length).map order.idxOf

@[simp] theorem length_inverseOrder (order : List Nat) :
    (inverseOrder order).length = order.length := by simp [inverseOrder]

theorem reorder_map (order : List Nat) (g : α → β) (xs : List α) :
    reorder order (xs.map g) = (reorder order xs).map g := by
  simp [reorder, List.map_filterMap]

theorem reorder_zip (order : List Nat) {xs : List α} {ys : List β} (h : xs.length = ys.length) :
    reorder order (xs.zip ys) = (reorder order xs).zip (reorder order ys) := by
  obtain ⟨ps, rfl, rfl⟩ : ∃ ps : List (α × β), xs = ps.map Prod.fst ∧ ys = ps.map Prod.snd :=
    ⟨xs.zip ys, (List.map_fst_zip (Nat.le_of_eq h)).symm,
      (List.map_snd_zip (Nat.le_of_eq h.symm)).symm⟩
  rw [reorder_map, reorder_map, List.zip_map', List.zip_map', List.map_id', List.map_id']

theorem getElem?_reorder {xs : List α} (below : ∀ i ∈ order, i < xs.length) (j : Nat) :
    (reorder order xs)[j]? = order[j]?.bind (xs[·]?) := by
  induction order generalizing j with
  | nil => simp [reorder]
  | cons i order ih =>
    have hi := List.getElem?_eq_getElem (below i (by simp))
    rw [reorder, List.filterMap_cons_some hi]
    cases j with
    | zero => simp [hi]
    | succ j => simpa [reorder] using ih (fun i hi => below i (by simp [hi])) j

theorem filterMap_getElem?_range (xs : List α) :
    (List.range xs.length).filterMap (xs[·]?) = xs := by
  induction xs with
  | nil => rfl
  | cons x xs ih => simpa [List.range_succ_eq_map, List.filterMap_map, Function.comp_def] using ih

section Orders
variable (perm : order.Perm (List.range n))
include perm

theorem length_of_perm_range : order.length = n := by rw [perm.length_eq, List.length_range]

theorem nodup_of_perm_range : order.Nodup := perm.nodup_iff.mpr List.nodup_range

theorem mem_of_perm_range {i : Nat} : i ∈ order ↔ i < n := by
  rw [perm.mem_iff, List.mem_range]

theorem inverseOrder_perm : (inverseOrder order).Perm (List.range n) := by
  have hlength := length_of_perm_range perm
  have hnodup : (inverseOrder order).Nodup := by
    refine List.Nodup.map_on (fun i hi j _ same => ?_) List.nodup_range
    rw [hlength, List.mem_range] at hi
    exact (List.idxOf_inj ((mem_of_perm_range perm).mpr hi)).mp same
  have hbelow : ∀ i ∈ inverseOrder order, i ∈ List.range n := by
    intro i hi
    rcases List.mem_map.mp hi with ⟨j, hj, rfl⟩
    rw [hlength, List.mem_range] at hj
    rw [List.mem_range, ← hlength]
    exact List.idxOf_lt_length_of_mem ((mem_of_perm_range perm).mpr hj)
  apply (hnodup.subperm hbelow).perm_of_length_le
  rw [List.length_range, length_inverseOrder, hlength]

/-- An order that names each index once lists the same entries. -/
theorem reorder_perm {xs : List α} (length : xs.length = n) : (reorder order xs).Perm xs := by
  have hpicked := perm.filterMap (xs[·]?)
  rwa [← length, filterMap_getElem?_range] at hpicked

theorem length_reorder {xs : List α} (length : xs.length = n) :
    (reorder order xs).length = n := (reorder_perm perm length).length_eq.trans length

theorem getElem?_inverseOrder {i : Nat} (hi : i < n) :
    (inverseOrder order)[i]? = some (order.idxOf i) := by
  rw [inverseOrder, length_of_perm_range perm, List.getElem?_map, List.getElem?_range hi]
  rfl

/-- Lists reordered with the inverse order and then with the order are as they were. -/
theorem reorder_inverseOrder {xs : List α} (length : xs.length = n) :
    reorder order (reorder (inverseOrder order) xs) = xs := by
  have hinverse := inverseOrder_perm perm
  have hlength := length_of_perm_range perm
  have hback := length_reorder hinverse length
  apply List.ext_getElem?
  intro j
  rw [getElem?_reorder fun i hi => hback.symm ▸ (mem_of_perm_range perm).mp hi]
  by_cases hj : j < order.length
  · have hmem := (mem_of_perm_range perm).mp (List.getElem_mem hj)
    rw [List.getElem?_eq_getElem hj, Option.bind_some,
      getElem?_reorder fun i hi => length.symm ▸ (mem_of_perm_range hinverse).mp hi,
      getElem?_inverseOrder perm hmem, Option.bind_some,
      (nodup_of_perm_range perm).idxOf_getElem]
  · rw [List.getElem?_eq_none (Nat.not_lt.mp hj), List.getElem?_eq_none (by omega)]
    rfl

/-- Lists reordered with an order and then with its inverse are as they were. -/
theorem inverseOrder_reorder {xs : List α} (length : xs.length = n) :
    reorder (inverseOrder order) (reorder order xs) = xs := by
  have hinverse := inverseOrder_perm perm
  have hback := length_reorder perm length
  apply List.ext_getElem?
  intro j
  rw [getElem?_reorder fun i hi => hback.symm ▸ (mem_of_perm_range hinverse).mp hi]
  by_cases hj : j < n
  · have hplace := List.idxOf_lt_length_of_mem ((mem_of_perm_range perm).mpr hj)
    rw [getElem?_inverseOrder perm hj, Option.bind_some,
      getElem?_reorder fun i hi => length.symm ▸ (mem_of_perm_range perm).mp hi,
      List.getElem?_eq_getElem hplace, Option.bind_some, List.getElem_idxOf]
  · rw [List.getElem?_eq_none (by rw [length_of_perm_range hinverse]; omega),
      List.getElem?_eq_none (by omega)]
    rfl

end Orders

end Lists

section Axes
variable {order : List Nat} {c : List Nat}

theorem extents_reorder (order : List Nat) (axes : List Axis) :
    Axis.extents (reorder order axes) = reorder order (Axis.extents axes) :=
  (reorder_map order _ axes).symm

theorem within_reorder {ds : List Nat} (perm : order.Perm (List.range ds.length))
    (length : c.length = ds.length) :
    Within (reorder order ds) (reorder order c) ↔ Within ds c := by
  have hpairs := reorder_perm perm (show (ds.zip c).length = ds.length by simp [length])
  rw [within_iff_zip, within_iff_zip, ← reorder_zip order length.symm,
    length_reorder perm length, length_reorder perm rfl]
  simp only [length, true_and]
  exact forall_congr' fun p => by rw [hpairs.mem_iff]

theorem position_reorder {axes : List Axis} (perm : order.Perm (List.range axes.length))
    (length : c.length = axes.length) :
    Axis.position (reorder order axes) (reorder order c) = Axis.position axes c := by
  have hpairs := reorder_perm perm (show (axes.zip c).length = axes.length by simp [length])
  rw [Axis.position_eq_sum, Axis.position_eq_sum, ← reorder_zip order length.symm]
  exact (hpairs.map _).sum_nat

end Axes

end TensorConcat
