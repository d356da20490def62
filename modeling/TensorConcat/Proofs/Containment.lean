import TensorConcat.Backend.Basic
import TensorConcat.Proofs.Aliasing
import TensorConcat.Proofs.Growth
import TensorConcat.Proofs.Reordering
import TensorConcat.Proofs.Steadiness

/-!
# Views stay inside their storages

Every operation that gives a tensor gives one whose elements lie in the bytes of its storage.
Views inherit this from the tensor they are taken from, as the largest position of a view is
all that has to be compared; constructors and resizing lay a tensor out densely, so that its
positions stay below the number of its elements. Memory only ever gets storages, whose sizes
never change, so what is inside stays inside.
-/

namespace TensorConcat

/-- The old storages are all there, and as large as they were. -/
structure Heap.Grows (h k : Heap) : Prop where
  count : h.storages.size ≤ k.storages.size
  capacity : ∀ s < h.storages.size, k.capacity s = h.capacity s

namespace Heap
variable {h k l : Heap}

theorem Grows.refl (h : Heap) : h.Grows h := ⟨Nat.le_refl _, fun _ _ => rfl⟩

theorem Grows.trans (first : h.Grows k) (second : k.Grows l) : h.Grows l where
  count := first.count.trans second.count
  capacity s hs := by rw [second.capacity s (hs.trans_le first.count), first.capacity s hs]

theorem Extends.grows (extends_ : h.Extends k) : h.Grows k :=
  ⟨extends_.count, fun _ hs => extends_.capacity hs⟩

theorem SameSizes.grows (same : h.SameSizes k) : h.Grows k :=
  ⟨Nat.le_of_eq same.count.symm, fun s _ => same.capacity s⟩

theorem allocate_push {old : Array UInt8} {count s : Nat}
    (hok : h.allocate old count = .ok (s, k)) :
    s = h.storages.size ∧ k.storages.size = h.storages.size + 1 ∧ h.Grows k ∧ k.capacity s = count := by
  unfold allocate at hok
  split at hok
  · have hpush := Except.ok.inj hok
    have hs : h.storages.size = s := congrArg Prod.fst hpush
    have hk : (h.push (putBytes (Array.replicate count 0) 0 old.toList)).2 = k :=
      congrArg Prod.snd hpush
    subst hs hk
    exact ⟨rfl, by simp [Heap.push], (Extends.push _ _).grows, by simp [Heap.capacity, bytes_push]⟩
  · exact absurd hok (by simp)

end Heap

section Dense
variable {ds c : List Nat}

/-- Strides stop at the largest word, so they may fall short of the extents' products but are
never larger. -/
theorem span_le_volume (pos : 0 < volume ds) : span ds ≤ volume ds := by
  induction ds with
  | nil => exact Nat.le_refl 1
  | cons d ds ih =>
    rw [volume_cons] at pos ⊢
    have hd : 0 < d := Nat.pos_of_mul_pos_right pos
    have hrest := ih (Nat.pos_of_mul_pos_left pos)
    rw [span, saturatingMul, Nat.max_eq_left hd, Nat.mul_comm d]
    exact (Nat.min_le_left _ _).trans (Nat.mul_le_mul_right d hrest)

theorem position_denseStrides_lt (hc : Within ds c) :
    Axis.position (Axis.pair ds (denseStrides ds)) c < volume ds := by
  induction ds generalizing c with
  | nil => exact Nat.one_pos
  | cons d ds ih =>
    cases c with
    | nil => exact absurd hc (by simp [Within])
    | cons i is =>
      have hrest := ih hc.2
      have hspan := span_le_volume hc.2.volume_pos
      have hrow : (i + 1) * volume ds ≤ d * volume ds := Nat.mul_le_mul_right _ hc.1
      have hstep : i * span ds ≤ i * volume ds := Nat.mul_le_mul_left i hspan
      change i * span ds + Axis.position (Axis.pair ds (denseStrides ds)) is < d * volume ds
      rw [Nat.add_mul, Nat.one_mul] at hrow
      omega

theorem MemoryFormat.position_axes_lt (f : MemoryFormat) (hc : Within ds c) :
    Axis.position (f.axes ds) c < volume ds := by
  have hlength : c.length = (f.axes ds).length := by rw [length_axes, hc.length_eq]
  rw [← Axis.position_arrange f hlength, arrange_axes, ← f.volume_arrange]
  exact position_denseStrides_lt ((within_arrange f hc.length_eq).mpr hc)

end Dense

namespace Tensor
variable {t : Tensor} {h k : Heap}

/-- A tensor of one axis or more, with a stride for each axis, on a storage that there is and that
has room for each of the elements it addresses. -/
structure Placed (t : Tensor) (h : Heap) : Prop where
  rank_pos : 1 ≤ t.rank
  strides : t.strides.length = t.rank
  known : t.storage < h.storages.size
  inside : t.Inside h

theorem length_strides (t : Tensor) : t.strides.length = t.rank := List.length_map _

namespace Placed

theorem grows (placed : t.Placed h) (grown : h.Grows k) : t.Placed k where
  rank_pos := placed.rank_pos
  strides := placed.strides
  known := placed.known.trans_le grown.count
  inside c hc := by
    rw [grown.capacity t.storage placed.known]
    exact placed.inside c hc

/-- Room for as many elements as there are is enough for a tensor that is laid out densely. -/
theorem of_dense {dims : List Nat} {f : MemoryFormat} (axes : t.axes = f.axes dims)
    (nonempty : dims ≠ []) (known : t.storage < h.storages.size)
    (room : (t.offset + volume dims) * t.elementSize ≤ h.capacity t.storage) : t.Placed h where
  rank_pos := by
    rw [rank, axes, f.length_axes]
    exact List.length_pos_iff.mpr nonempty
  strides := t.length_strides
  known := known
  inside c hc := by
    rw [Tensor.dims, axes, f.extents_axes] at hc
    have hlt := f.position_axes_lt hc
    rw [← axes] at hlt
    exact (Nat.mul_le_mul_right _ (by omega)).trans room

end Placed

/-- A tensor that an operation has given: placed in memory that has grown, on a storage of its own
or with the storage and the type of a tensor that it was given. -/
structure Given (sources : List Tensor) (h : Heap) (t : Tensor) (k : Heap) : Prop where
  grown : h.Grows k
  placed : t.Placed k
  origin : h.storages.size ≤ t.storage ∨ ∃ u ∈ sources, t.storage = u.storage ∧ t.dtype = u.dtype

theorem Given.mono {sources more : List Tensor} (given : Given sources h t k)
    (sub : ∀ u ∈ sources, u ∈ more) : Given more h t k where
  grown := given.grown
  placed := given.placed
  origin := by
    rcases given.origin with hfresh | ⟨u, hu, hsame⟩
    · exact .inl hfresh
    · exact .inr ⟨u, sub u hu, hsame⟩

theorem Given.of_fresh (given : Given [] h t k) (sources : List Tensor) : Given sources h t k :=
  given.mono fun _ hu => absurd hu (by simp)

/-- Writing bytes takes nothing away. -/
theorem Given.written {sources : List Tensor} {l : Heap} (given : Given sources h t k)
    (same : k.SameSizes l) : Given sources h t l where
  grown := given.grown.trans same.grows
  placed := given.placed.grows same.grows
  origin := given.origin

/-- What is given from something given is given. -/
theorem Given.trans {sources : List Tensor} {v : Tensor} {l : Heap} (first : Given sources h t k)
    (second : Given [t] k v l) : Given sources h v l where
  grown := first.grown.trans second.grown
  placed := second.placed
  origin := by
    rcases second.origin with hfresh | ⟨u, hu, hstorage, hdtype⟩
    · exact .inl (first.grown.count.trans hfresh)
    · rw [List.mem_singleton.mp hu] at hstorage hdtype
      rw [hstorage, hdtype]
      exact first.origin

/-- Another view of the storage of a tensor. -/
theorem Given.view {v : Tensor} (placed : v.Placed h) (storage : v.storage = t.storage)
    (dtype : v.dtype = t.dtype) : Given [t] h v h where
  grown := .refl h
  placed := placed
  origin := .inr ⟨t, List.mem_singleton_self t, storage, dtype⟩

section Operations
variable {dims : List Nat} {dtype : DType} {f : MemoryFormat} {v : Tensor}

theorem checkShape_eq_ok {a : Unit} : checkShape dims = .ok a ↔ dims ≠ [] := by
  unfold checkShape
  cases dims with
  | nil => simp
  | cons d ds => simp

theorem given_zeros (hok : zeros dims dtype f h = .ok (t, k)) : Given [] h t k := by
  unfold zeros at hok
  rcases checked_bind.mp hok with ⟨_, hshape, hok⟩
  rcases checked_bind.mp hok with ⟨⟨s, k'⟩, hallocate, hok⟩
  rcases Prod.mk.inj (Except.ok.inj hok) with ⟨rfl, rfl⟩
  have hpush := Heap.allocate_push hallocate
  constructor
  · exact hpush.2.2.1
  · apply Placed.of_dense rfl (checkShape_eq_ok.mp hshape)
    · change s < k'.storages.size
      omega
    · change (0 + volume dims) * dtype.size ≤ k'.capacity s
      rw [hpush.2.2.2, Nat.zero_add]
  · exact .inl (Nat.le_of_eq hpush.1.symm)

theorem given_ofBytes {bytes : List UInt8} (hok : ofBytes dims dtype bytes h = .ok (t, k)) :
    Given [] h t k := by
  unfold ofBytes at hok
  rcases checked_bind.mp hok with ⟨_, hshape, hok⟩
  by_cases hlength : bytes.length ≠ volume dims * dtype.size
  · simp only [if_pos hlength] at hok
    exact absurd hok throw_bind_ne_ok
  · simp only [if_neg hlength] at hok
    rcases Prod.mk.inj (Except.ok.inj hok) with ⟨rfl, rfl⟩
    constructor
    · exact (Heap.Extends.push h _).grows
    · apply Placed.of_dense rfl (checkShape_eq_ok.mp hshape)
      · simp [Heap.push]
      · change (0 + volume dims) * dtype.size ≤ (h.push bytes.toArray).2.capacity h.storages.size
        rw [Heap.capacity_push, Nat.zero_add, List.size_toArray]
        exact Nat.le_of_eq (not_not.mp hlength).symm
    · exact .inl (Nat.le_refl _)

theorem given_ofElements {elements : List (List UInt8)}
    (hok : ofElements dims dtype elements h = .ok (t, k)) : Given [] h t k := by
  unfold ofElements at hok
  rcases checked_bind.mp hok with ⟨_, hshape, hok⟩
  by_cases hlength : elements.length ≠ volume dims
  · rw [if_pos hlength] at hok
    exact absurd hok throw_bind_ne_ok
  · rw [if_neg hlength] at hok
    exact given_ofBytes hok

/-- What a strided view is, and the room that has been found for it. -/
theorem asStrided_spec {strides : List Nat} {offset : Nat}
    (hok : t.asStrided dims strides offset h = .ok v) :
    dims ≠ [] ∧ dims.length = strides.length ∧
      v = { t with offset := offset, axes := Axis.pair dims strides } ∧
      (0 < v.numel → (offset + v.maxOffset + 1) * t.elementSize ≤ h.capacity t.storage) := by
  unfold asStrided at hok
  rcases checked_bind.mp hok with ⟨_, hshape, hok⟩
  have hnonempty := checkShape_eq_ok.mp hshape
  by_cases hcount : dims.length ≠ strides.length
  · simp only [if_pos hcount] at hok
    exact absurd hok throw_bind_ne_ok
  · simp only [if_neg hcount] at hok
    have hcount := not_not.mp hcount
    split at hok
    · split at hok
      · exact absurd hok throw_bind_ne_ok
      · rename_i hroom
        have hv := Except.ok.inj hok
        subst hv
        exact ⟨hnonempty, hcount, rfl, fun _ => Nat.not_lt.mp hroom⟩
    · rename_i hempty
      have hv := Except.ok.inj hok
      subst hv
      exact ⟨hnonempty, hcount, rfl, fun pos => absurd pos hempty⟩

theorem given_asStrided {strides : List Nat} {offset : Nat} (placed : t.Placed h)
    (hok : t.asStrided dims strides offset h = .ok v) : Given [t] h v h := by
  rcases asStrided_spec hok with ⟨hnonempty, hcount, rfl, hroom⟩
  refine .view ⟨?_, length_strides _, placed.known, inside_iff.mpr fun pos => ?_⟩ rfl rfl
  · rw [rank_eq, Tensor.dims, Axis.extents_pair hcount]
    exact List.length_pos_iff.mpr hnonempty
  · have hfits := hroom pos
    rw [maxOffset, if_neg pos.ne'] at hfits
    exact hfits

/-- A cut view is the slab of the part that is kept. -/
theorem narrow_spec {axis start length : Nat} (hok : t.narrow axis start length = .ok v) :
    axis < t.dims.length ∧ start + length ≤ t.extentAt axis ∧ v = t.slab axis start length := by
  have hnarrow := hok
  unfold narrow at hok
  split at hok
  · exact absurd hok (by simp)
  · rename_i a ha
    rcases List.getElem?_eq_some_iff.mp ha with ⟨haxis, rfl⟩
    split at hok
    · exact absurd hok (by simp)
    · rename_i hroom
      have hextent : t.extentAt axis = t.axes[axis].extent := by
        simp [extentAt, Tensor.dims, Axis.extents, haxis]
      have hroom : start + length ≤ t.extentAt axis := by omega
      rw [narrow_eq_slab haxis hroom] at hnarrow
      exact ⟨t.length_axes_eq ▸ haxis, hroom, (Except.ok.inj hnarrow).symm⟩

theorem given_narrow {axis start length : Nat} (placed : t.Placed h)
    (hok : t.narrow axis start length = .ok v) : Given [t] h v h := by
  rcases narrow_spec hok with ⟨haxis, hroom, rfl⟩
  refine .view ⟨?_, length_strides _, placed.known, placed.inside.slab haxis hroom⟩ rfl rfl
  rw [rank_eq, dims_slab, List.length_set, ← rank_eq]
  exact placed.rank_pos

/-- The same elements with the axes in another order. -/
def reordered (t : Tensor) (order : List Nat) : Tensor := { t with axes := reorder order t.axes }

/-- The orders that are accepted are those that name each axis once. -/
theorem permute_eq_ok {order : List Nat} : t.permute order = .ok v ↔
    order.Perm (List.range t.rank) ∧ v = t.reordered order := by
  constructor
  · intro hok
    unfold permute at hok
    split at hok
    · exact absurd hok (by simp)
    · rename_i hlength
      split at hok
      · rename_i hvalid
        simp only [Bool.and_eq_true, List.all_eq_true, decide_eq_true_eq] at hvalid
        refine ⟨?_, (Except.ok.inj hok).symm⟩
        apply (hvalid.2.subperm fun i hi => List.mem_range.mpr (hvalid.1 i hi)).perm_of_length_le
        rw [List.length_range, not_not.mp hlength]
      · exact absurd hok (by simp)
  · intro haccepted
    rcases haccepted with ⟨hperm, rfl⟩
    have hlength := length_of_perm_range hperm
    have hvalid : order.all (· < t.rank) && order.Nodup := by
      simp only [Bool.and_eq_true, List.all_eq_true, decide_eq_true_eq]
      exact ⟨fun i hi => (mem_of_perm_range hperm).mp hi, nodup_of_perm_range hperm⟩
    rw [permute, if_neg (not_not.mpr hlength), if_pos hvalid]
    rfl

theorem given_permute {order : List Nat} (placed : t.Placed h) (hok : t.permute order = .ok v) :
    Given [t] h v h := by
  rcases permute_eq_ok.mp hok with ⟨horder, rfl⟩
  have hperm := reorder_perm horder rfl
  refine .view ⟨?_, length_strides _, placed.known, inside_iff.mpr fun pos => ?_⟩ rfl rfl
  · exact placed.rank_pos.trans (Nat.le_of_eq hperm.length_eq.symm)
  · have hroom := inside_iff.mp placed.inside
    have hnumel : volume (Axis.extents (reorder order t.axes)) = t.numel :=
      volume_perm (hperm.map _)
    rw [← Axis.reach_perm hperm] at hroom
    exact hroom (hnumel ▸ pos)

theorem given_toFormat [FloatCasts] (placed : t.Placed h) (hok : t.toFormat f h = .ok (v, k)) :
    Given [t] h v k := by
  unfold toFormat at hok
  split at hok
  · rcases Prod.mk.inj (Except.ok.inj hok) with ⟨rfl, rfl⟩
    exact .view placed rfl rfl
  · rcases checked_bind.mp hok with ⟨⟨out, l⟩, hzeros, hok⟩
    rcases Prod.mk.inj (Except.ok.inj hok) with ⟨rfl, rfl⟩
    have hgiven := (given_zeros hzeros).written (sameSizes_copyMatching out t l)
    exact hgiven.of_fresh [t]

theorem nonempty_of_resize (hok : t.resize dims f h = .ok (v, k)) : dims ≠ [] := by
  unfold resize at hok
  rcases checked_bind.mp hok with ⟨_, hshape, -⟩
  exact checkShape_eq_ok.mp hshape

theorem given_resize (placed : t.Placed h) (hok : t.resize dims f h = .ok (v, k)) :
    Given [t] h v k := by
  have hresized := resize_spec hok
  have hnonempty := nonempty_of_resize hok
  have hgrown := (resize_extends hok).grows
  have hplace := resize_place hok
  constructor
  · exact hgrown
  · apply Placed.of_dense hresized.axes hnonempty _ hresized.room
    rcases hplace with ⟨hsame, rfl⟩ | ⟨hfresh, hcount, -, -⟩
    · exact hsame ▸ placed.known
    · omega
  · rcases hplace with ⟨hsame, -⟩ | ⟨hfresh, -⟩
    · exact .inr ⟨t, List.mem_singleton_self t, hsame, hresized.dtype⟩
    · exact .inl (Nat.le_of_eq hfresh.symm)

theorem given_resizeTarget (placed : t.Placed h) (hok : t.resizeTarget dims f h = .ok (some v)) :
    Given [t] h v h := by
  unfold resizeTarget at hok
  rcases checked_bind.mp hok with ⟨_, hshape, hok⟩
  exact given_resize placed (resize_of_target (checkShape_eq_ok.mp hshape) (Except.ok.inj hok))

end Operations

end Tensor

end TensorConcat
