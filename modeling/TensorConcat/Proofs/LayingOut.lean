import TensorConcat.Proofs.Containment
import TensorConcat.Proofs.LinearAddressing
import TensorConcat.Proofs.ReadingOut
import TensorConcat.Proofs.StridedCopy
import TensorConcat.SoftwareCasts

/-!
# Laying a view out keeps its values

A view that lies densely in a format is its own layout in that format. Any other one is copied
into a storage that was not there, so nothing that was there changes, and each element of the copy
is the one at the same coordinate of the view. Reading out goes by coordinates, not by places, so
the copy reads what the view reads, and so does a copy of the copy in whichever format.

Views that repeat elements may have more of them than a storage can hold. Such a view is dense in no
format, as the storage it lies in would be too small, and it can neither be laid out nor read out.
-/

namespace TensorConcat

namespace Tensor
variable {t u : Tensor} {h k : Heap} {f : MemoryFormat}

/-- A tensor that has the values of a view, laid out in a format, in memory where all that was
there is as it was. It is the view itself when that is laid out so already, and on a storage of
its own otherwise. -/
structure LaidOut (t : Tensor) (f : MemoryFormat) (h : Heap) (u : Tensor) (k : Heap) : Prop where
  dtype : u.dtype = t.dtype
  dims : u.dims = t.dims
  contiguous : u.isContiguousIn f = true
  shared : u.storage = t.storage ↔ t.isContiguousIn f = true
  kept : t.isContiguousIn f = true → u = t ∧ k = h
  grown : h.Extends k
  placed : u.Placed k
  element : ∀ c, Within t.dims c →
    u.loadElement k (Axis.position u.axes c) = t.loadElement h (Axis.position t.axes c)

theorem LaidOut.refl (placed : t.Placed h) (contiguous : t.isContiguousIn f = true) :
    t.LaidOut f h t h where
  dtype := rfl
  dims := rfl
  contiguous := contiguous
  shared := ⟨fun _ => contiguous, fun _ => rfl⟩
  kept _ := ⟨rfl, rfl⟩
  grown := .refl h
  placed := placed
  element _ _ := rfl

theorem LaidOut.numel_eq (laidOut : t.LaidOut f h u k) :
    u.numel * u.elementSize = t.numel * t.elementSize := by
  rw [numel, elementSize, laidOut.dims, laidOut.dtype]
  rfl

/-- A layout reads what the view reads. -/
theorem LaidOut.readOut_eq (laidOut : t.LaidOut f h u k)
    (holds : t.numel * t.elementSize ≤ storageLimit) : u.readOut k = t.readOut h := by
  have hreading : u.SameReading k t h := by
    refine .of_elements laidOut.dtype laidOut.dims (laidOut.numel_eq ▸ holds) fun c hc => ?_
    exact laidOut.element c (laidOut.dims ▸ hc)
  obtain ⟨bytes, hu, ht⟩ := hreading.bytes
  rw [hu, ht]

section Zeros
variable {dims : List Nat} {dtype : DType}

/-- A tensor of zeros lies at the beginning of a storage that was not there. -/
theorem exists_zeros (nonempty : dims ≠ []) (room : volume dims * dtype.size ≤ storageLimit)
    (f : MemoryFormat) (h : Heap) :
    ∃ t k, zeros dims dtype f h = .ok (t, k) ∧ t.storage = h.storages.size ∧
      t.axes = f.axes dims ∧ t.dtype = dtype ∧ h.Extends k ∧ (h.Bounded → k.Bounded) := by
  have hshape := checkShape_eq_ok (a := ()).mpr nonempty
  have hallocate : h.allocate #[] (volume dims * dtype.size) = .ok (h.push _) := if_pos room
  refine ⟨⟨h.storages.size, 0, f.axes dims, dtype⟩, _, ?_, rfl, rfl, rfl, .push h _,
    fun bounded => bounded.allocate hallocate⟩
  rw [zeros, hshape, hallocate]
  rfl

theorem zeros_oversized (nonempty : dims ≠ []) (large : storageLimit < volume dims * dtype.size)
    (f : MemoryFormat) (h : Heap) : zeros dims dtype f h = .error (.fault .storageTooLarge) := by
  have hshape := checkShape_eq_ok (a := ()).mpr nonempty
  rw [zeros, hshape, Heap.allocate, if_neg (Nat.not_le.mpr large)]
  rfl

end Zeros

theorem Placed.dims_ne_nil (placed : t.Placed h) : t.dims ≠ [] := by
  have hrank := placed.rank_pos
  rw [rank_eq] at hrank
  exact List.length_pos_iff.mp hrank

/-- What lies densely in a storage is no larger than the storage. -/
theorem Placed.holds_of_contiguous (placed : t.Placed h) (bounded : h.Bounded)
    (contiguous : t.isContiguousIn f = true) : t.numel * t.elementSize ≤ storageLimit := by
  cases Nat.eq_zero_or_pos t.numel with
  | inl hzero =>
    rw [hzero, Nat.zero_mul]
    exact Nat.zero_le _
  | inr hpos =>
    have hreach : t.maxOffset = Axis.reach t.axes := if_neg hpos.ne'
    have hroom := (inside_iff.mp placed.inside hpos).trans (bounded.capacity_le t.storage)
    have hwords := Nat.le_mul_of_pos_right (t.offset + Axis.reach t.axes + 1) t.elementSize_pos
    have hsmall : t.maxOffset < wordMax := by
      unfold storageLimit at hroom
      unfold wordMax
      omega
    have hfits := numel_le_of_isContiguousIn contiguous hpos hsmall
    have hdense := (packedIn_of_isContiguousIn contiguous hpos hfits).isDense
    have hlast := maxOffset_of_isDense hpos hdense
    exact (Nat.mul_le_mul_right t.elementSize (by omega)).trans hroom

variable [FloatCasts]

/-- A view in a storage that was not there, laid out in a format, gets the values of another one by
copying. -/
theorem laidOut_copyMatching {out : Tensor} {l : Heap} (placed : t.Placed h)
    (holds : t.numel * t.elementSize ≤ storageLimit) (other : ¬t.isContiguousIn f = true)
    (axes : out.axes = f.axes t.dims) (dtype : out.dtype = t.dtype)
    (fresh : h.storages.size ≤ out.storage) (known : out.Placed l) (grown : h.Extends l) :
    t.LaidOut f h out (out.copyMatching t l) := by
  have hdims : out.dims = t.dims := by rw [Tensor.dims, axes, f.extents_axes]
  have hnumel : out.numel = t.numel := congrArg volume hdims
  have hpos : 0 < t.numel :=
    Nat.pos_of_ne_zero fun hzero => other (f.holds_of_volume_eq_zero hzero)
  have hfits := numel_le_wordMax holds
  have hpacked : out.PackedIn f := by
    rw [PackedIn, axes]
    exact f.packed_axes hpos hfits
  have hdiffer : out.storage ≠ t.storage := by
    have hknown := placed.known
    omega
  have hcopy : IsCopy out t l (out.copyMatching t l) :=
    isCopy_copyMatching hdims (hnumel ▸ hfits) known.inside hpacked.distinct
      (apart_of_storage_ne hdiffer)
  constructor
  case dtype => exact dtype
  case dims => exact hdims
  case contiguous => exact hpacked.isContiguousIn
  case shared => exact ⟨fun same => absurd same hdiffer, fun contiguous => absurd contiguous other⟩
  case kept => exact fun contiguous => absurd contiguous other
  case grown => exact grown.changedAt hcopy.changed fresh
  case placed => exact known.grows (sameSizes_copyMatching out t l).grows
  case element =>
    intro c hc
    rw [hcopy.element c (hdims ▸ hc), converted, dtype, convertElement_self,
      loadElement_extends grown placed.known]

/-- A view that fits into a storage can be laid out. -/
theorem exists_laidOut (bounded : h.Bounded) (placed : t.Placed h)
    (holds : t.numel * t.elementSize ≤ storageLimit) (f : MemoryFormat) :
    ∃ u k, t.toFormat f h = .ok (u, k) ∧ t.LaidOut f h u k ∧ k.Bounded := by
  by_cases hcontiguous : t.isContiguousIn f = true
  · exact ⟨t, h, if_pos hcontiguous, .refl placed hcontiguous, bounded⟩
  · obtain ⟨out, l, hzeros, hstorage, haxes, hdtype, hgrown, hbounded⟩ :=
      exists_zeros placed.dims_ne_nil holds f h
    have hlaidOut := laidOut_copyMatching placed holds hcontiguous haxes hdtype hstorage.ge
      (given_zeros hzeros).placed hgrown
    refine ⟨out, out.copyMatching t l, ?_, hlaidOut,
      (hbounded bounded).of_capacity (sameSizes_copyMatching out t l).capacity⟩
    rw [toFormat, if_neg hcontiguous, hzeros]
    rfl

/-- A view that does not fit into a storage cannot. -/
theorem toFormat_oversized (bounded : h.Bounded) (placed : t.Placed h)
    (large : storageLimit < t.numel * t.elementSize) (f : MemoryFormat) :
    t.toFormat f h = .error (.fault .storageTooLarge) := by
  have hother : ¬t.isContiguousIn f = true := fun contiguous =>
    Nat.not_lt.mpr (placed.holds_of_contiguous bounded contiguous) large
  rw [toFormat, if_neg hother, zeros_oversized placed.dims_ne_nil large]
  rfl

/-- Reading out is reading the block of the row-major layout. -/
theorem readOut_eq_contiguous (bounded : h.Bounded) (placed : t.Placed h) :
    t.readOut h =
      (t.contiguous h).map fun (u, k) => k.load u.storage u.start (u.numel * u.elementSize) := by
  by_cases holds : t.numel * t.elementSize ≤ storageLimit
  · obtain ⟨u, k, hrun, laidOut, -⟩ := exists_laidOut bounded placed holds .contiguous
    have hholds := laidOut.numel_eq ▸ holds
    have hblock : u.toBytes k = k.load u.storage u.start (u.numel * u.elementSize) :=
      if_pos laidOut.contiguous
    rw [contiguous, hrun, ← laidOut.readOut_eq holds, Tensor.readOut_eq hholds, hblock]
    rfl
  · have large := Nat.not_le.mp holds
    rw [contiguous, toFormat_oversized bounded placed large, readOut, if_pos large]
    rfl

end Tensor

/-- A view in its storage that another storage could hold: reading out lists the bytes of its
elements by coordinate; in either format it can be laid out, with its type and extents, sharing its
storage just when it lies so already, and with every byte that was there as it was; and the layout,
or a layout of that, reads the same. A view that no storage could hold can be neither laid out nor
read out. In any case reading out is reading the block of the row-major layout. -/
theorem layouts_keep_values [FloatCasts] {t : Tensor} {h : Heap} (bounded : h.Bounded)
    (placed : t.Placed h) : (t.numel * t.elementSize ≤ storageLimit →
      t.readOut h = .ok ((coordinates t.dims).flatMap fun c =>
        t.loadElement h (Axis.position t.axes c)) ∧
      ∀ f, ∃ u k, t.toFormat f h = .ok (u, k) ∧ t.LaidOut f h u k ∧ u.readOut k = t.readOut h ∧
        ∀ g, ∃ v l, u.toFormat g k = .ok (v, l) ∧ u.LaidOut g k v l ∧
          v.readOut l = t.readOut h) ∧
    (storageLimit < t.numel * t.elementSize →
      t.readOut h = .error (.fault .storageTooLarge) ∧
      ∀ f, t.toFormat f h = .error (.fault .storageTooLarge)) ∧
    t.readOut h =
      (t.contiguous h).map fun (u, k) => k.load u.storage u.start (u.numel * u.elementSize) := by
  refine ⟨fun holds => ⟨?_, fun f => ?_⟩, fun large => ⟨if_pos large, ?_⟩,
    Tensor.readOut_eq_contiguous bounded placed⟩
  · rw [Tensor.readOut_eq holds, Tensor.toBytes_eq (Tensor.numel_le_wordMax holds)]
  · obtain ⟨u, k, hrun, laidOut, hbounded⟩ := Tensor.exists_laidOut bounded placed holds f
    have hholds := laidOut.numel_eq ▸ holds
    refine ⟨u, k, hrun, laidOut, laidOut.readOut_eq holds, fun g => ?_⟩
    obtain ⟨v, l, hrunAgain, laidOutAgain, -⟩ :=
      Tensor.exists_laidOut hbounded laidOut.placed hholds g
    exact ⟨v, l, hrunAgain, laidOutAgain,
      (laidOutAgain.readOut_eq hholds).trans (laidOut.readOut_eq holds)⟩
  · exact Tensor.toFormat_oversized bounded placed large

section Sample

/-- Five elements of two bytes. -/
def stripHeap : Heap := ⟨#[#[0, 10, 1, 11, 2, 12, 3, 13, 4, 14]]⟩

/-- A view of the three in the middle: the second of them is seen four times, the others twice. -/
def strip : Tensor := ⟨0, 1, [⟨2, 1⟩, ⟨2, 0⟩, ⟨2, 1⟩], .i16⟩

theorem layouts_keep_values_strip :
    (stripHeap.Bounded ∧ strip.Placed stripHeap) ∧
    strip.readOut stripHeap = .ok [1, 11, 2, 12, 1, 11, 2, 12, 2, 12, 3, 13, 2, 12, 3, 13] ∧
    ∃ u k v l, strip.toFormat .channelsLast stripHeap = .ok (u, k) ∧ u.storage ≠ strip.storage ∧
      u.toFormat .contiguous k = .ok (v, l) ∧ v.readOut l = strip.readOut stripHeap := by
  have hbounded : stripHeap.Bounded := by
    unfold Heap.Bounded
    decide
  have hplaced : strip.Placed stripHeap :=
    ⟨by decide, by decide, by decide, Tensor.inside_iff.mpr fun _ => by decide⟩
  have hother : ¬strip.isContiguousIn .channelsLast = true := by decide
  obtain ⟨hbytes, hlayouts⟩ := (layouts_keep_values hbounded hplaced).1 (by decide)
  obtain ⟨u, k, hrun, laidOut, -, hagain⟩ := hlayouts .channelsLast
  obtain ⟨v, l, hback, -, hreads⟩ := hagain .contiguous
  exact ⟨⟨hbounded, hplaced⟩, hbytes.trans (by decide), u, k, v, l, hrun,
    fun same => hother (laidOut.shared.mp same), hback, hreads⟩

/-- One byte, seen as often as no storage can hold bytes. -/
def crowd : Tensor := ⟨0, 0, [⟨3, 0⟩, ⟨2 ^ 31, 0⟩, ⟨2 ^ 31, 0⟩], .u8⟩

/-- The view of one byte lies in its storage, and has neither a layout nor bytes that could be read
out. -/
theorem oversized_view_has_no_layout :
    (⟨0, 0, [⟨1, 1⟩], .u8⟩ : Tensor).asStrided [3, 2 ^ 31, 2 ^ 31] [0, 0, 0] 0 ⟨#[#[0]]⟩ = .ok crowd ∧
      crowd.Placed ⟨#[#[0]]⟩ ∧
      crowd.readOut ⟨#[#[0]]⟩ = .error (.fault .storageTooLarge) ∧
      ∀ f, crowd.toFormat f ⟨#[#[0]]⟩ = .error (.fault .storageTooLarge) := by
  have hbounded : Heap.Bounded ⟨#[#[0]]⟩ := by
    unfold Heap.Bounded
    decide
  have hplaced : crowd.Placed ⟨#[#[0]]⟩ :=
    ⟨by decide, by decide, by decide, Tensor.inside_iff.mpr fun _ => by decide⟩
  have hlarge : storageLimit < crowd.numel * crowd.elementSize := by decide
  exact ⟨by rfl, hplaced, if_pos hlarge, Tensor.toFormat_oversized hbounded hplaced hlarge⟩

end Sample

end TensorConcat
