import TensorConcat.Proofs.Packing
import TensorConcat.Tensor.Copy

/-!
# Writing elements one after another

A heap is known by its storages' sizes and bytes. A tensor cuts its storage into
elements of one size, so two of its positions share a byte only if they are equal,
and a change that is confined to the elements at some positions is a relation
between heaps that composes.

`scatter` writes a list of elements in turn, each value being computed from the
heap at its turn. When the positions are distinct and no value depends on a
written element, the order of the list does not matter: every listed element gets
the value it has in the heap the writing starts from.
-/

namespace TensorConcat

namespace Heap

theorem ext_byte {h k : Heap} (count : h.storages.size = k.storages.size)
    (capacity : ∀ s, h.capacity s = k.capacity s) (byte : ∀ s i, h.byte s i = k.byte s i) :
    h = k := by
  obtain ⟨hs⟩ := h
  obtain ⟨ks⟩ := k
  simp only [Heap.mk.injEq]
  apply Array.ext count
  intro s hs₁ hs₂
  have hcap := capacity s
  have hbyte := byte s
  simp only [Heap.capacity, Heap.byte, Heap.bytes, Array.getD_eq_getD_getElem?,
    Array.getElem?_eq_getElem hs₁, Array.getElem?_eq_getElem hs₂, Option.getD_some] at hcap hbyte
  apply Array.ext hcap
  intro i hi₁ hi₂
  simpa [Array.getElem?_eq_getElem hi₁, Array.getElem?_eq_getElem hi₂] using hbyte i

theorem getD_load (h : Heap) (s start : Nat) {count i : Nat} (hi : i < count) :
    (h.load s start count).getD i 0 = h.byte s (start + i) := by
  simp [load, hi]

end Heap

namespace Tensor

theorem elementSize_pos (t : Tensor) : 0 < t.elementSize := DType.size_pos t.dtype

/-- Byte `i` of storage `s` belongs to the element at a position. -/
def Occupies (t : Tensor) (position s i : Nat) : Prop :=
  s = t.storage ∧ (t.offset + position) * t.elementSize ≤ i ∧
    i < (t.offset + position + 1) * t.elementSize

/-- Byte `i` of storage `s` belongs to some element of the view. -/
def Addresses (t : Tensor) (s i : Nat) : Prop :=
  ∃ c, Within t.dims c ∧ t.Occupies (Axis.position t.axes c) s i

/-- No byte is addressed by both views. -/
def Apart (t u : Tensor) : Prop := ∀ s i, t.Addresses s i → ¬u.Addresses s i

/-- Every element lies in the storage. -/
def Inside (t : Tensor) (h : Heap) : Prop :=
  ∀ c, Within t.dims c →
    (t.offset + Axis.position t.axes c + 1) * t.elementSize ≤ h.capacity t.storage

/-- Distinct coordinates address distinct elements. -/
def Distinct (t : Tensor) : Prop :=
  ∀ c e, Within t.dims c → Within t.dims e →
    Axis.position t.axes c = Axis.position t.axes e → c = e

/-- Heap `k` is heap `h` but for the elements at some positions. -/
structure ChangedAt (t : Tensor) (changed : Nat → Prop) (h k : Heap) : Prop where
  count : k.storages.size = h.storages.size
  capacity : ∀ s, k.capacity s = h.capacity s
  byte : ∀ s i, (∀ p, changed p → ¬t.Occupies p s i) → k.byte s i = h.byte s i

/-- A view lies in its storage when its largest position does. -/
theorem inside_iff {t : Tensor} {h : Heap} : t.Inside h ↔
    (0 < t.numel → (t.offset + Axis.reach t.axes + 1) * t.elementSize ≤ h.capacity t.storage) := by
  constructor
  · intro inside pos
    rcases Axis.exists_position_eq_reach pos with ⟨c, hc, hreach⟩
    rw [← hreach]
    exact inside c hc
  · intro room c hc
    have hle := Axis.position_le_reach hc
    exact (Nat.mul_le_mul_right _ (by omega)).trans (room hc.volume_pos)

theorem occupies_iff {t : Tensor} {p s i : Nat} :
    t.Occupies p s i ↔ s = t.storage ∧ i / t.elementSize = t.offset + p := by
  unfold Occupies
  rw [Nat.div_eq_iff t.elementSize_pos, Nat.add_mul _ 1, Nat.one_mul]
  have := t.elementSize_pos
  constructor
  · intro hrange
    rcases hrange with ⟨hs, hlo, hhi⟩
    exact ⟨hs, hlo, by omega⟩
  · intro hrange
    rcases hrange with ⟨hs, hlo, hhi⟩
    exact ⟨hs, hlo, by omega⟩

theorem Occupies.position_eq {t : Tensor} {p q s i : Nat} (hp : t.Occupies p s i)
    (hq : t.Occupies q s i) : p = q := by
  have h₁ := (occupies_iff.mp hp).2
  have h₂ := (occupies_iff.mp hq).2
  omega

theorem occupies_add {t : Tensor} {p j : Nat} (hj : j < t.elementSize) :
    t.Occupies p t.storage ((t.offset + p) * t.elementSize + j) := by
  refine ⟨rfl, by omega, ?_⟩
  rw [Nat.add_mul _ 1, Nat.one_mul]
  omega

/-- The bytes of an element, by their place in it. -/
theorem Occupies.exists_eq {t : Tensor} {p s i : Nat} (h : t.Occupies p s i) :
    s = t.storage ∧ ∃ j < t.elementSize, i = (t.offset + p) * t.elementSize + j := by
  obtain ⟨hs, hlo, hhi⟩ := h
  rw [Nat.add_mul _ 1, Nat.one_mul] at hhi
  exact ⟨hs, i - (t.offset + p) * t.elementSize, by omega, by omega⟩

@[simp] theorem length_loadElement (t : Tensor) (h : Heap) (p : Nat) :
    (t.loadElement h p).length = t.elementSize := Heap.length_load ..

theorem getD_loadElement (t : Tensor) (h : Heap) (p : Nat) {j : Nat} (hj : j < t.elementSize) :
    (t.loadElement h p).getD j 0 = h.byte t.storage ((t.offset + p) * t.elementSize + j) :=
  Heap.getD_load _ _ _ hj

theorem loadElement_congr {t : Tensor} {h k : Heap} {p : Nat}
    (same : ∀ i, t.Occupies p t.storage i → k.byte t.storage i = h.byte t.storage i) :
    t.loadElement k p = t.loadElement h p :=
  List.map_congr_left fun _ hj => same _ (occupies_add (List.mem_range.mp hj))

theorem loadElement_eq_iff {t : Tensor} {h : Heap} {p : Nat} {bytes : List UInt8}
    (length : bytes.length = t.elementSize) :
    t.loadElement h p = bytes ↔ ∀ j < t.elementSize,
      h.byte t.storage ((t.offset + p) * t.elementSize + j) = bytes.getD j 0 := by
  constructor
  · intro hcase j hj
    rcases hcase with rfl
    exact (t.getD_loadElement h p hj).symm
  · intro same
    apply List.ext_getElem (by simp [length])
    intro j h₁ h₂
    have hj : j < t.elementSize := length ▸ h₂
    have := same j hj
    rw [← t.getD_loadElement h p hj] at this
    rwa [List.getD_eq_getElem _ _ h₁, List.getD_eq_getElem _ _ h₂] at this

namespace ChangedAt
variable {t : Tensor} {P Q : Nat → Prop} {h k l : Heap}

theorem refl (t : Tensor) (P : Nat → Prop) (h : Heap) : t.ChangedAt P h h :=
  ⟨rfl, fun _ => rfl, fun _ _ _ => rfl⟩

theorem mono (hk : t.ChangedAt P h k) (sub : ∀ p, P p → Q p) : t.ChangedAt Q h k :=
  ⟨hk.count, hk.capacity, fun s i none => hk.byte s i fun p hp => none p (sub p hp)⟩

theorem trans (hk : t.ChangedAt P h k) (hl : t.ChangedAt P k l) : t.ChangedAt P h l :=
  ⟨hl.count.trans hk.count, fun s => (hl.capacity s).trans (hk.capacity s),
    fun s i none => (hl.byte s i none).trans (hk.byte s i none)⟩

/-- Elements that no changed position shares a byte with keep their value. -/
theorem loadElement {u : Tensor} (hk : t.ChangedAt P h k) {p : Nat}
    (none : ∀ i, u.Occupies p u.storage i → ∀ q, P q → ¬t.Occupies q u.storage i) :
    u.loadElement k p = u.loadElement h p :=
  loadElement_congr fun i hi => hk.byte _ i (none i hi)

theorem loadElement_self (hk : t.ChangedAt P h k) {p : Nat} (none : ¬P p) :
    t.loadElement k p = t.loadElement h p :=
  hk.loadElement fun _ hi _ hq ho => none (ho.position_eq hi ▸ hq)

/-- A heap is determined by what it is elsewhere and by the changed elements. -/
theorem ext (hk : t.ChangedAt P h k) (hl : t.ChangedAt P h l)
    (same : ∀ p, P p → t.loadElement k p = t.loadElement l p) : k = l := by
  refine Heap.ext_byte (hk.count.trans hl.count.symm)
    (fun s => (hk.capacity s).trans (hl.capacity s).symm) fun s i => ?_
  by_cases hany : ∃ p, P p ∧ t.Occupies p s i
  · obtain ⟨p, hp, ho⟩ := hany
    obtain ⟨rfl, j, hj, rfl⟩ := ho.exists_eq
    rw [← t.getD_loadElement k p hj, ← t.getD_loadElement l p hj, same p hp]
  · have none : ∀ p, P p → ¬t.Occupies p s i := fun p hp ho => hany ⟨p, hp, ho⟩
    rw [hk.byte s i none, hl.byte s i none]

end ChangedAt

theorem changedAt_storeElement (t : Tensor) (p : Nat) {bytes : List UInt8}
    (length : bytes.length = t.elementSize) (h : Heap) :
    t.ChangedAt (· = p) h (t.storeElement p bytes h) where
  count := Heap.storages_size_store ..
  capacity _ := Heap.capacity_store ..
  byte s i none := by
    unfold storeElement
    rw [Heap.byte_store, if_neg]
    intro hcase
    rcases hcase with ⟨hs, hlo, hhi, -⟩
    refine none p rfl ⟨hs, hlo, ?_⟩
    rw [Nat.add_mul _ 1, Nat.one_mul]
    omega

theorem loadElement_storeElement {t : Tensor} {p : Nat} {bytes : List UInt8} {h : Heap}
    (length : bytes.length = t.elementSize)
    (room : (t.offset + p + 1) * t.elementSize ≤ h.capacity t.storage) :
    t.loadElement (t.storeElement p bytes h) p = bytes := by
  rw [loadElement_eq_iff length]
  intro j hj
  rw [Nat.add_mul _ 1, Nat.one_mul] at room
  unfold storeElement
  rw [Heap.byte_store, if_pos ⟨rfl, by omega, by omega, by omega⟩, Nat.add_sub_cancel_left]

section Scatter
variable {ι : Type} (t : Tensor) (pos : ι → Nat) (val : ι → Heap → List UInt8)

/-- Writes an element for each entry of a list, in turn. -/
def scatter (xs : List ι) (h : Heap) : Heap :=
  xs.foldl (fun h x => t.storeElement (pos x) (val x h) h) h

/-- The positions a list of entries writes to. -/
def Hit (xs : List ι) (p : Nat) : Prop := ∃ x ∈ xs, pos x = p

variable {t pos val} {xs : List ι} {h : Heap}

theorem changedAt_scatter (length : ∀ x ∈ xs, ∀ k, (val x k).length = t.elementSize) :
    t.ChangedAt (Hit pos xs) h (t.scatter pos val xs h) := by
  induction xs generalizing h with
  | nil => exact .refl ..
  | cons x xs ih =>
    have hfirst := t.changedAt_storeElement (pos x) (length x (by simp) h) h
    have hrest := ih (h := t.storeElement (pos x) (val x h) h) fun y hy => length y (by simp [hy])
    refine (hfirst.mono ?_).trans (hrest.mono ?_)
    · intro q hcase
      rcases hcase with rfl
      exact ⟨x, by simp, rfl⟩
    · intro p hcase
      rcases hcase with ⟨y, hy, rfl⟩
      exact ⟨y, by simp [hy], rfl⟩

/-- What makes the order of the writes irrelevant. -/
structure Independent (t : Tensor) (pos : ι → Nat) (val : ι → Heap → List UInt8) (xs : List ι)
    (h : Heap) : Prop where
  length : ∀ x ∈ xs, ∀ k, (val x k).length = t.elementSize
  room : ∀ x ∈ xs, (t.offset + pos x + 1) * t.elementSize ≤ h.capacity t.storage
  nodup : (xs.map pos).Nodup
  stable : ∀ x ∈ xs, ∀ k, t.ChangedAt (Hit pos xs) h k → val x k = val x h

theorem Independent.init {x : ι} (ind : Independent t pos val (xs ++ [x]) h) :
    Independent t pos val xs h where
  length y hy := ind.length y (by simp [hy])
  room y hy := ind.room y (by simp [hy])
  nodup := by
    have := ind.nodup
    rw [List.map_append] at this
    exact (List.nodup_append.mp this).1
  stable y hy k hk := by
    refine ind.stable y (by simp [hy]) k (hk.mono ?_)
    intro p hcase
    rcases hcase with ⟨z, hz, rfl⟩
    exact ⟨z, by simp [hz], rfl⟩

/-- Every listed element ends with the value it has at the start. -/
theorem loadElement_scatter (ind : Independent t pos val xs h) :
    ∀ x ∈ xs, t.loadElement (t.scatter pos val xs h) (pos x) = val x h := by
  induction xs using List.reverseRecOn with
  | nil => simp
  | append_singleton xs x ih =>
    have hx : x ∈ xs ++ [x] := by simp
    have hinit : t.ChangedAt (Hit pos xs) h (t.scatter pos val xs h) :=
      changedAt_scatter ind.init.length
    have hval : val x (t.scatter pos val xs h) = val x h := by
      refine ind.stable x hx _ (hinit.mono ?_)
      intro p hcase
      rcases hcase with ⟨y, hy, rfl⟩
      exact ⟨y, by simp [hy], rfl⟩
    have hsplit : t.scatter pos val (xs ++ [x]) h =
        t.storeElement (pos x) (val x h) (t.scatter pos val xs h) := by
      simp only [scatter, List.foldl_append, List.foldl_cons, List.foldl_nil]
      rw [← scatter, hval]
    have hlast := t.changedAt_storeElement (pos x) (ind.length x hx h) (t.scatter pos val xs h)
    intro y hy
    rw [hsplit]
    rcases List.mem_append.mp hy with hy | hy
    · have hne : pos y ≠ pos x := by
        have hnodup := ind.nodup
        rw [List.map_append, List.map_singleton, List.nodup_append] at hnodup
        exact hnodup.2.2 _ (List.mem_map_of_mem hy) _ (by simp)
      rw [hlast.loadElement_self hne]
      exact ih ind.init y hy
    · obtain rfl := List.mem_singleton.mp hy
      refine loadElement_storeElement (ind.length y hx h) ?_
      rw [hinit.capacity]
      exact ind.room y hx

end Scatter

end Tensor

end TensorConcat
