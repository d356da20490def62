import TensorConcat.Proofs.Walking
import TensorConcat.Proofs.Writing

/-!
# What a copy does

A copy between views of one shape puts the converted element of the source at
every coordinate of the target and changes no other byte. The block move for
row-major views and the walk over the elements are two ways to do the same: both
leave a heap that this description determines.
-/

namespace TensorConcat.Tensor

/-- Some coordinate of the view has this position. -/
def Reaches (t : Tensor) (p : Nat) : Prop := ∃ c, Within t.dims c ∧ Axis.position t.axes c = p

theorem addresses_iff {t : Tensor} {s i : Nat} :
    t.Addresses s i ↔ ∃ p, t.Reaches p ∧ t.Occupies p s i := by
  constructor
  · intro hoccupied
    rcases hoccupied with ⟨c, hc, ho⟩
    exact ⟨_, ⟨c, hc, rfl⟩, ho⟩
  · intro hcase
    rcases hcase with ⟨_, ⟨c, hc, rfl⟩, ho⟩
    exact ⟨c, hc, ho⟩

theorem Apart.loadElement {t u : Tensor} (apart : t.Apart u) {h k : Heap}
    (hk : t.ChangedAt t.Reaches h k) {c : List Nat} (hc : Within u.dims c) :
    u.loadElement k (Axis.position u.axes c) = u.loadElement h (Axis.position u.axes c) :=
  hk.loadElement fun i hi q hq ho => apart _ i (addresses_iff.mpr ⟨q, hq, ho⟩) ⟨c, hc, hi⟩

/-- Views of different storages share no byte. -/
theorem apart_of_storage_ne {t u : Tensor} (differ : t.storage ≠ u.storage) : t.Apart u := by
  intro s i ht hu
  obtain ⟨c, -, hs, -⟩ := ht
  obtain ⟨e, -, hs', -⟩ := hu
  exact differ (hs.symm.trans hs')

section Walked
variable {target source : Tensor}

theorem walk_dims {σ : Type} (t u : Tensor) (same : t.dims = u.dims) (f : Nat → Nat → σ → σ)
    (s : σ) : Odometer.walk t.dims t.strides u.strides f s =
      (coordinates t.dims).foldl
        (fun s c => f (Axis.position t.axes c) (Axis.position u.axes c) s) s := by
  have ht : t.dims.length = t.strides.length := by simp [dims, strides, Axis.extents, Axis.strides]
  have hu : t.dims.length = u.strides.length := by
    rw [same]
    simp [dims, strides, Axis.extents, Axis.strides]
  rw [Odometer.walk_eq_foldl ht hu]
  apply List.foldl_ext _ _ _
  intro s c _
  rw [show Axis.pair t.dims t.strides = t.axes from Axis.pair_extents_strides _, same,
    show Axis.pair u.dims u.strides = u.axes from Axis.pair_extents_strides _]

/-- The element that a copy puts at a coordinate of the target. -/
def converted [FloatCasts] (target source : Tensor) (c : List Nat) (h : Heap) : List UInt8 :=
  convertElement source.dtype target.dtype (source.loadElement h (Axis.position source.axes c))

@[simp] theorem length_converted [FloatCasts] (target source : Tensor) (c : List Nat) (h : Heap) :
    (converted target source c h).length = target.elementSize :=
  length_convertElement (length_loadElement ..)

theorem copyElements_eq_scatter [FloatCasts] (same : target.dims = source.dims) (h : Heap) :
    copyElements target source h =
      target.scatter (Axis.position target.axes) (converted target source)
        (coordinates target.dims) h :=
  walk_dims target source same _ h

theorem hit_coordinates {t : Tensor} {p : Nat} :
    Hit (Axis.position t.axes) (coordinates t.dims) p ↔ t.Reaches p := by
  simp only [Hit, Reaches, mem_coordinates]

theorem distinct_iff_nodup {t : Tensor} :
    t.Distinct ↔ ((coordinates t.dims).map (Axis.position t.axes)).Nodup := by
  rw [List.nodup_map_iff_inj_on (nodup_coordinates _)]
  simp only [mem_coordinates]
  constructor
  · intro distinct c hc e he same
    exact distinct c e hc he same
  · intro injective c e hc he same
    exact injective c hc e he same


variable [FloatCasts]

/-- The writes of a copy between views that share no byte do not depend on each other. -/
theorem independent_converted (same : target.dims = source.dims) (distinct : target.Distinct)
    (apart : target.Apart source) {h : Heap} (inside : target.Inside h) :
    Independent target (Axis.position target.axes) (converted target source)
      (coordinates target.dims) h where
  length _ _ _ := length_converted ..
  room c hc := inside c (mem_coordinates.mp hc)
  nodup := distinct_iff_nodup.mp distinct
  stable c hc k hk := by
    have hc : Within source.dims c := same ▸ mem_coordinates.mp hc
    have hk := hk.mono fun p hp => hit_coordinates.mp hp
    unfold converted
    rw [apart.loadElement hk hc]

theorem changedAt_copyElements (same : target.dims = source.dims) (h : Heap) :
    target.ChangedAt target.Reaches h (copyElements target source h) := by
  rw [copyElements_eq_scatter same]
  refine (changedAt_scatter fun c _ k => length_converted ..).mono fun p hp => ?_
  exact hit_coordinates.mp hp

theorem loadElement_copyElements (same : target.dims = source.dims) (distinct : target.Distinct)
    (apart : target.Apart source) {h : Heap} (inside : target.Inside h) {c : List Nat}
    (hc : Within target.dims c) :
    target.loadElement (copyElements target source h) (Axis.position target.axes c) =
      converted target source c h := by
  rw [copyElements_eq_scatter same]
  exact loadElement_scatter (independent_converted same distinct apart inside) c
    (mem_coordinates.mpr hc)

end Walked

theorem PackedIn.reaches_iff {t : Tensor} {f : MemoryFormat} (h : t.PackedIn f) {p : Nat} :
    t.Reaches p ↔ p < t.numel := by
  constructor
  · intro hcase
    rcases hcase with ⟨c, hc, rfl⟩
    exact MemoryFormat.position_lt h hc
  · intro hp
    exact ⟨_, MemoryFormat.within_unrank hp, MemoryFormat.position_unrank h hp⟩

theorem PackedIn.distinct {t : Tensor} {f : MemoryFormat} (h : t.PackedIn f) : t.Distinct :=
  fun _ _ hc he same => MemoryFormat.position_injective h hc he same

/-- A view lies in its storage when its last element does. -/
theorem PackedIn.inside {t : Tensor} {f : MemoryFormat} (h : t.PackedIn f) {k : Heap}
    (room : (t.offset + t.numel) * t.elementSize ≤ k.capacity t.storage) : t.Inside k := by
  intro c hc
  have hp : Axis.position t.axes c < t.numel := MemoryFormat.position_lt h hc
  exact (Nat.mul_le_mul_right _ (by omega)).trans room

section Block
variable {target source : Tensor}

theorem changedAt_copyBlock (packed : target.PackedIn .contiguous) (h : Heap) :
    target.ChangedAt target.Reaches h (copyBlock target source h) where
  count := Heap.storages_size_store ..
  capacity _ := Heap.capacity_store ..
  byte s i none := by
    unfold copyBlock
    rw [Heap.byte_store, if_neg]
    intro hcase
    rcases hcase with ⟨rfl, hlo, hhi, -⟩
    rw [Heap.length_load, start, ← Nat.add_mul] at hhi
    have hpos := target.elementSize_pos
    have hq : target.offset ≤ i / target.elementSize :=
      (Nat.le_div_iff_mul_le hpos).mpr hlo
    have hlt : i / target.elementSize < target.offset + target.numel :=
      (Nat.div_lt_iff_lt_mul hpos).mpr hhi
    refine none (i / target.elementSize - target.offset) ?_ (occupies_iff.mpr ⟨rfl, by omega⟩)
    exact packed.reaches_iff.mpr (by omega)

theorem loadElement_copyBlock [FloatCasts] (same : target.dims = source.dims)
    (dtype : target.dtype = source.dtype)
    (packed : target.PackedIn .contiguous) (dense : source.PackedIn .contiguous) {h : Heap}
    (inside : target.Inside h) {c : List Nat} (hc : Within target.dims c) :
    target.loadElement (copyBlock target source h) (Axis.position target.axes c) =
      converted target source c h := by
  have hp : Axis.position target.axes c = index target.dims c :=
    MemoryFormat.position_eq_index packed hc
  have hs : Axis.position source.axes c = index target.dims c := by
    have hc : Within source.dims c := same ▸ hc
    rw [same]
    exact MemoryFormat.position_eq_index dense hc
  have hsize : source.elementSize = target.elementSize := by simp [elementSize, dtype]
  have hlt : index target.dims c < target.numel := index_lt hc
  have hroom := inside c hc
  rw [hp] at hroom
  unfold converted
  rw [dtype, convertElement_self, hs, hp, loadElement_eq_iff (by simp [hsize])]
  intro j hj
  have hrow : (index target.dims c + 1) * target.elementSize ≤ target.numel * target.elementSize :=
    Nat.mul_le_mul_right _ hlt
  rw [Nat.add_mul, Nat.one_mul] at hrow
  rw [Nat.add_mul, Nat.one_mul, Nat.add_mul] at hroom
  rw [getD_loadElement _ _ _ (by omega), hsize, copyBlock, Heap.byte_store, start, start, hsize,
    Heap.length_load, Nat.add_mul, Nat.add_mul,
    if_pos ⟨rfl, by omega, by omega, by omega⟩, Heap.getD_load _ _ _ (by omega)]
  congr 1
  omega

end Block

section Matching
variable {target source : Tensor}

theorem not_within_of_numel_eq_zero {t : Tensor} (h : t.numel = 0) {c : List Nat} :
    ¬Within t.dims c := fun hc => by
  have := hc.volume_pos
  have hzero : volume t.dims = 0 := h
  omega

variable [FloatCasts]

/-- A copy changes elements of the target only, whatever the source is. -/
theorem changedAt_copyMatching (same : target.dims = source.dims) (fits : target.numel ≤ wordMax)
    (h : Heap) : target.ChangedAt target.Reaches h (copyMatching target source h) := by
  unfold copyMatching
  split
  · exact .refl ..
  · rename_i hne
    split
    · rename_i hblock
      simp only [Bool.and_eq_true] at hblock
      exact changedAt_copyBlock
        (packedIn_of_isContiguousIn hblock.1.2 (Nat.pos_of_ne_zero hne) fits) h
    · exact changedAt_copyElements same h

/-- A copy between views that share no byte puts the converted source element at every
coordinate of the target. -/
theorem loadElement_copyMatching (same : target.dims = source.dims) (fits : target.numel ≤ wordMax)
    (distinct : target.Distinct) (apart : target.Apart source) {h : Heap}
    (inside : target.Inside h) {c : List Nat} (hc : Within target.dims c) :
    target.loadElement (copyMatching target source h) (Axis.position target.axes c) =
      converted target source c h := by
  unfold copyMatching
  split
  · rename_i hzero
    exact absurd hc (not_within_of_numel_eq_zero hzero)
  · rename_i hne
    have hpos : 0 < target.numel := Nat.pos_of_ne_zero hne
    have hnumel : source.numel = target.numel := by
      unfold numel
      rw [same]
    split
    · rename_i hblock
      simp only [Bool.and_eq_true, decide_eq_true_eq] at hblock
      exact loadElement_copyBlock same hblock.1.1
        (packedIn_of_isContiguousIn hblock.1.2 hpos fits)
        (packedIn_of_isContiguousIn hblock.2 (hnumel ▸ hpos) (hnumel ▸ fits)) inside hc
    · exact loadElement_copyElements same distinct apart inside hc

end Matching

end TensorConcat.Tensor
