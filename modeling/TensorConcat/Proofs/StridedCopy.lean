import TensorConcat.Proofs.SlabFilling
import TensorConcat.SoftwareCasts

/-!
# A copy is exact and touches nothing else

What a copy between views that share no byte leaves behind can be said without saying how it is
done: each element of the target is the converted element of the source, and each byte that no
element of the target occupies is as it was. There is only one such heap, so the block move and the
walk over the elements make the same one.

The block move is taken when the strides of both views count their elements in words. A target whose
elements are distinct and lie in a storage has no more of them than the storage has bytes.
-/

namespace TensorConcat

/-- A heap in which the elements of a view are those of another one, and nothing else is changed. -/
structure IsCopy [FloatCasts] (target source : Tensor) (h k : Heap) : Prop where
  changed : target.ChangedAt target.Reaches h k
  element : ∀ c, Within target.dims c →
    target.loadElement k (Axis.position target.axes c) = target.converted source c h

namespace IsCopy
variable {target source : Tensor} {h k l : Heap} [FloatCasts]

theorem byte (copied : IsCopy target source h k) {s i : Nat} (gap : ¬target.Addresses s i) :
    k.byte s i = h.byte s i :=
  copied.changed.byte s i fun p hp ho => gap (Tensor.addresses_iff.mpr ⟨p, hp, ho⟩)

/-- Elements and gaps make up the whole heap. -/
theorem unique (hk : IsCopy target source h k) (hl : IsCopy target source h l) : k = l := by
  refine hk.changed.ext hl.changed fun p reached => ?_
  obtain ⟨c, hc, rfl⟩ := reached
  rw [hk.element c hc, hl.element c hc]

theorem of_empty (empty : target.numel = 0) : IsCopy target source h h where
  changed := .refl ..
  element _ hc := absurd hc (Tensor.not_within_of_numel_eq_zero empty)

end IsCopy

namespace Tensor
variable {target source : Tensor} {h : Heap}

/-- Distinct elements inside a storage are no more than its bytes. -/
theorem numel_le_capacity {t : Tensor} (inside : t.Inside h) (distinct : t.Distinct) :
    t.numel ≤ h.capacity t.storage := by
  have hsubset : (coordinates t.dims).map (Axis.position t.axes) ⊆
      List.range (h.capacity t.storage) := by
    intro p hp
    obtain ⟨c, hc, rfl⟩ := List.mem_map.mp hp
    have hroom := inside c (mem_coordinates.mp hc)
    have hsize := Nat.le_mul_of_pos_right (t.offset + Axis.position t.axes c + 1) t.elementSize_pos
    exact List.mem_range.mpr (by omega)
  have hcount := (List.subperm_of_subset (distinct_iff_nodup.mp distinct) hsubset).length_le
  rwa [List.length_map, length_coordinates, List.length_range] at hcount

theorem isCopy_copyElements [FloatCasts] (same : target.dims = source.dims)
    (inside : target.Inside h) (distinct : target.Distinct) (apart : target.Apart source) :
    IsCopy target source h (copyElements target source h) where
  changed := changedAt_copyElements same h
  element _ hc := loadElement_copyElements same distinct apart inside hc

theorem isCopy_copyMatching [FloatCasts] (same : target.dims = source.dims)
    (fits : target.numel ≤ wordMax)
    (inside : target.Inside h) (distinct : target.Distinct) (apart : target.Apart source) :
    IsCopy target source h (copyMatching target source h) where
  changed := changedAt_copyMatching same fits h
  element _ hc := loadElement_copyMatching same fits distinct apart inside hc

theorem copyBlock_of_empty (empty : target.numel = 0) : copyBlock target source h = h := by
  refine Heap.ext_byte (Heap.storages_size_store ..) (fun _ => Heap.capacity_store ..) fun s i => ?_
  rw [copyBlock, Heap.byte_store, if_neg]
  rw [Heap.length_load, empty, Nat.zero_mul]
  omega

/-- The block move of row-major views of one type. -/
theorem isCopy_copyBlock [FloatCasts] (same : target.dims = source.dims)
    (fits : target.numel ≤ wordMax)
    (dtype : target.dtype = source.dtype) (ht : target.isContiguous = true)
    (hs : source.isContiguous = true) (inside : target.Inside h) :
    IsCopy target source h (copyBlock target source h) := by
  have hnumel : source.numel = target.numel := by rw [numel, numel, same]
  cases Nat.eq_zero_or_pos target.numel with
  | inl hzero =>
    rw [copyBlock_of_empty hzero]
    exact .of_empty hzero
  | inr hpos =>
    have hpacked := packedIn_of_isContiguousIn ht hpos fits
    have hdense := packedIn_of_isContiguousIn hs (hnumel ▸ hpos) (hnumel ▸ fits)
    exact ⟨changedAt_copyBlock hpacked h,
      fun _ hc => loadElement_copyBlock same dtype hpacked hdense inside hc⟩

end Tensor

/-- A copy between unequal shapes stops before anything is written. -/
theorem copySlab_refused [FloatCasts] {slab input : Tensor} (differ : slab.dims ≠ input.dims)
    (m : Machine) : copySlab slab input m =
      (.error (.backend (.execution (.slab (.copyShape slab.dims input.dims)))), m) := by
  rw [copySlab, Tensor.checkCopy, if_pos differ]
  rfl

/-- A strided copy is exact and touches nothing else. Of views of one shape, the target with
distinct elements in a storage whose size is a word and no byte in common with the source: it
succeeds, every element of the target becomes that of the source, bit for bit or converted, every
byte between or around the elements of the target stays, and both ways of copying lead there.
Views of different shapes are refused, and nothing is changed. -/
theorem strided_copy_exact [FloatCasts] (target source : Tensor) (h : Heap) :
    (target.dims = source.dims → h.capacity target.storage ≤ wordMax → target.Inside h →
      target.Distinct → target.Apart source →
      ∃ k, target.copy source h = .ok k ∧
        (∀ m : Machine, m.heap = h → copySlab target source m = (.ok (), m.withHeap k)) ∧
        (∀ c, Within target.dims c →
          target.loadElement k (Axis.position target.axes c) =
            if source.dtype = target.dtype then
              source.loadElement h (Axis.position source.axes c)
            else
              (Scalar.read source.dtype
                (source.loadElement h (Axis.position source.axes c))).write target.dtype) ∧
        (∀ s i, ¬target.Addresses s i → k.byte s i = h.byte s i) ∧
        (k.storages.size = h.storages.size ∧ ∀ s, k.capacity s = h.capacity s) ∧
        k = target.copyElements source h ∧
        (target.dtype = source.dtype → target.isContiguous = true → source.isContiguous = true →
          k = target.copyBlock source h)) ∧
    (target.dims ≠ source.dims →
      target.copy source h = .error (.copyShape target.dims source.dims) ∧
        ∀ m : Machine, copySlab target source m =
          (.error (.backend (.execution (.slab (.copyShape target.dims source.dims)))), m)) := by
  constructor
  · intro same words inside distinct apart
    have hfits : target.numel ≤ wordMax := (Tensor.numel_le_capacity inside distinct).trans words
    have hcopy := Tensor.isCopy_copyMatching same hfits inside distinct apart
    refine ⟨target.copyMatching source h, ?copied, ?run, hcopy.element, fun s i => hcopy.byte,
      ⟨hcopy.changed.count, hcopy.changed.capacity⟩,
      hcopy.unique (Tensor.isCopy_copyElements same inside distinct apart), ?block⟩
    case copied =>
      rw [Tensor.copy, Tensor.checkCopy, if_neg (not_not.mpr same)]
      rfl
    case run =>
      intro m hm
      rw [copySlab_run same, hm]
    case block =>
      intro dtype ht hs
      exact hcopy.unique (Tensor.isCopy_copyBlock same hfits dtype ht hs inside)
  · intro differ
    refine ⟨?_, copySlab_refused differ⟩
    rw [Tensor.copy, Tensor.checkCopy, if_pos differ]
    rfl

/-- Six bytes, and fourteen that are all set. -/
def copyHeap : Heap := ⟨#[#[9, 250, 2, 3, 4, 5], Array.replicate 14 255]⟩

/-- A transposed view of the six bytes, with an axis of extent one between. -/
def crossed : Tensor := ⟨0, 1, [⟨2, 1⟩, ⟨1, 5⟩, ⟨2, 3⟩], .u8⟩

/-- The same elements without that axis. -/
def squeezed : Tensor := ⟨0, 1, [⟨2, 1⟩, ⟨2, 3⟩], .u8⟩

/-- A view of wider elements with a gap after each of them. -/
def spaced : Tensor := ⟨1, 0, [⟨2, 4⟩, ⟨1, 7⟩, ⟨2, 2⟩], .i16⟩

theorem strided_copy_exact_spaced :
    (spaced.dims = crossed.dims ∧ copyHeap.capacity 1 ≤ wordMax ∧ spaced.Inside copyHeap ∧
      spaced.Distinct ∧ spaced.Apart crossed) ∧
    (∃ k, spaced.copy crossed copyHeap = .ok k ∧ spaced.loadElement k 6 = [5, 0] ∧
      k.byte 1 2 = 255) ∧
    spaced.dims ≠ squeezed.dims ∧
      spaced.copy squeezed copyHeap = .error (.copyShape [2, 1, 2] [2, 2]) := by
  have hwords : copyHeap.capacity 1 ≤ wordMax := by decide
  have hinside : spaced.Inside copyHeap := by
    have hall : ∀ c ∈ coordinates spaced.dims,
        (spaced.offset + Axis.position spaced.axes c + 1) * spaced.elementSize ≤
          copyHeap.capacity spaced.storage := by decide
    intro c hc
    exact hall c (mem_coordinates.mpr hc)
  have hdistinct : spaced.Distinct := Tensor.distinct_iff_nodup.mpr (by decide)
  have hapart : spaced.Apart crossed := Tensor.apart_of_storage_ne (by decide)
  have hgap : ¬spaced.Addresses 1 2 := by
    have hall : ∀ c ∈ coordinates spaced.dims,
        ¬((spaced.offset + Axis.position spaced.axes c) * spaced.elementSize ≤ 2 ∧
          2 < (spaced.offset + Axis.position spaced.axes c + 1) * spaced.elementSize) := by decide
    intro addressed
    obtain ⟨c, hc, -, hbytes⟩ := addressed
    exact hall c (mem_coordinates.mpr hc) hbytes
  have hdiffer : spaced.dims ≠ squeezed.dims := by decide
  obtain ⟨k, hk, -, helement, hbyte, -⟩ :=
    (strided_copy_exact spaced crossed copyHeap).1 rfl hwords hinside hdistinct hapart
  have hlast : spaced.loadElement k 6 = [5, 0] :=
    (helement [1, 0, 1] (mem_coordinates.mp (by decide))).trans (by decide)
  have hkept : k.byte 1 2 = 255 := (hbyte 1 2 hgap).trans rfl
  exact ⟨⟨rfl, hwords, hinside, hdistinct, hapart⟩, ⟨k, hk, hlast, hkept⟩, hdiffer,
    ((strided_copy_exact spaced squeezed copyHeap).2 hdiffer).1⟩

end TensorConcat
