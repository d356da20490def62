import TensorConcat.Concat.Request
import TensorConcat.Proofs.Overlapping
import TensorConcat.Proofs.Running
import TensorConcat.Tensor.Resize

/-!
# Views that share no byte

The elements of a view lie in its byte range. So two dense views that the overlap test
does not report share no byte: they look at different storages, or their ranges are
apart. The test says nothing about other views.

A resized view lies at the same place of its old storage when that has room, and in a
storage that no other view knows when it has not.
-/

namespace TensorConcat

namespace Heap

/-- No storage is larger than the limit that every allocation keeps to. -/
def Bounded (h : Heap) : Prop := ∀ block ∈ h.storages, block.size ≤ storageLimit

theorem capacity_push (h : Heap) (block : Array UInt8) :
    (h.push block).2.capacity h.storages.size = block.size := by
  rw [capacity, bytes_push, if_pos rfl]

theorem Bounded.capacity_le {h : Heap} (bounded : h.Bounded) (s : Nat) :
    h.capacity s ≤ storageLimit := by
  rw [capacity, bytes]
  by_cases hs : s < h.storages.size
  · rw [Array.getD, dif_pos hs]
    exact bounded _ (Array.getElem_mem hs)
  · rw [Array.getD, dif_neg hs]
    exact Nat.zero_le _

theorem Bounded.of_capacity {h k : Heap} (bounded : h.Bounded)
    (same : ∀ s, k.capacity s = h.capacity s) : k.Bounded := by
  intro block hblock
  obtain ⟨s, hs, rfl⟩ := Array.getElem_of_mem hblock
  have hcapacity : k.capacity s = k.storages[s].size := by
    rw [capacity, bytes, Array.getD, dif_pos hs]
    rfl
  rw [← hcapacity, same]
  exact bounded.capacity_le s

theorem Bounded.allocate {h k : Heap} {old : Array UInt8} {count s : Nat} (bounded : h.Bounded)
    (hok : h.allocate old count = .ok (s, k)) : k.Bounded := by
  rw [Heap.allocate] at hok
  by_cases hlimit : count ≤ storageLimit
  · rw [if_pos hlimit] at hok
    obtain ⟨-, rfl⟩ := Prod.mk.inj (Except.ok.inj hok)
    intro block hblock
    rcases Array.mem_push.mp hblock with hold | rfl
    · exact bounded block hold
    · simpa using hlimit
  · rw [if_neg hlimit] at hok
    exact absurd hok (by simp)

end Heap

namespace Tensor

/-- Dense views that are not reported to overlap share no byte. -/
theorem apart_of_not_surelyOverlaps {t u : Tensor} (ht : t.isDense) (hu : u.isDense)
    (h : t.surelyOverlaps u = false) {s i : Nat} (hin : t.InByteRange s i) : ¬u.Addresses s i := by
  intro hau
  have hsolid : t.Solid := ⟨hin.numel_pos, ht⟩
  have hmem : (s, i) ∈ t.footprint := hsolid.mem_footprint.mpr hin
  cases answered : t.overlap u with
  | no => exact Set.disjoint_left.mp (Overlap.overlap_eq_iff.mp answered).disjoint hmem hau
  | tooHard =>
    obtain ⟨-, -, gapped⟩ := Overlap.overlap_eq_iff.mp answered
    simp [ht, hu] at gapped
  | full | partially =>
    rw [surelyOverlaps, answered] at h
    exact absurd h (by simp)

theorem checkDisjoint_iff {t : Tensor} {inputs : List Tensor} :
    checkDisjoint t inputs = .ok () ↔ ∀ u ∈ inputs, t.surelyOverlaps u = false := by
  unfold checkDisjoint overlapping?
  cases hfind : inputs.findIdx? (t.surelyOverlaps ·) with
  | none =>
    rw [List.findIdx?_eq_none_iff] at hfind
    exact ⟨fun _ => hfind, fun _ => rfl⟩
  | some index =>
    obtain ⟨hlt, hoverlap, -⟩ := List.findIdx?_eq_some_iff_getElem.mp hfind
    constructor
    · intro hok
      exact absurd hok (by simp)
    · intro hnone
      rw [hnone _ (List.getElem_mem hlt)] at hoverlap
      exact absurd hoverlap (by simp)

/-- What resizing has made of a view and of memory. -/
structure Resized (out : Tensor) (dims : List Nat) (f : MemoryFormat) (h : Heap) (t : Tensor)
    (k : Heap) : Prop where
  axes : t.axes = f.axes dims
  offset : t.offset = out.offset
  dtype : t.dtype = out.dtype
  room : (t.offset + volume dims) * t.elementSize ≤ k.capacity t.storage
  place : out.target? dims f h = some t ∧ k = h ∨
    t.storage = h.storages.size ∧ out.bytesFor dims ≤ storageLimit

theorem resize_spec {out t : Tensor} {dims : List Nat} {f : MemoryFormat} {h k : Heap}
    (hok : out.resize dims f h = .ok (t, k)) : Resized out dims f h t k := by
  unfold resize checkShape at hok
  by_cases hempty : dims.isEmpty
  · rw [if_pos hempty] at hok
    exact absurd hok (by simp [bind, Except.bind])
  · rw [if_neg hempty] at hok
    simp only [bind, Except.bind] at hok
    by_cases hroom : h.capacity out.storage < out.bytesFor dims
    · rw [if_pos hroom, Heap.allocate] at hok
      by_cases hlimit : out.bytesFor dims ≤ storageLimit
      · rw [if_pos hlimit] at hok
        obtain ⟨rfl, rfl⟩ := Prod.mk.inj (Except.ok.inj hok)
        refine ⟨rfl, rfl, rfl, ?_, .inr ⟨rfl, hlimit⟩⟩
        exact Nat.le_of_eq (by
          rw [show (h.push (putBytes (Array.replicate (out.bytesFor dims) 0) 0
            (h.bytes out.storage).toList)).1 = h.storages.size from rfl]
          simp [Heap.capacity_push, bytesFor, elementSize])
      · rw [if_neg hlimit] at hok
        exact absurd hok (by simp)
    · rw [if_neg hroom] at hok
      obtain ⟨rfl, rfl⟩ := Prod.mk.inj (Except.ok.inj hok)
      exact ⟨rfl, rfl, rfl, Nat.not_lt.mp hroom, .inl ⟨if_neg hroom, rfl⟩⟩

/-- Only a shape that no storage can hold is refused. -/
theorem resize_error {out : Tensor} {dims : List Nat} {f : MemoryFormat} {h : Heap}
    (nonempty : dims ≠ []) {e : Failure} (herror : out.resize dims f h = .error e) :
    e = .fault .storageTooLarge ∧ h.capacity out.storage < out.bytesFor dims ∧
      storageLimit < out.bytesFor dims := by
  unfold resize checkShape at herror
  rw [if_neg (by simpa using nonempty)] at herror
  simp only [bind, Except.bind] at herror
  by_cases hroom : h.capacity out.storage < out.bytesFor dims
  · rw [if_pos hroom, Heap.allocate] at herror
    by_cases hlimit : out.bytesFor dims ≤ storageLimit
    · rw [if_pos hlimit] at herror
      exact absurd herror (by simp [pure, Except.pure])
    · rw [if_neg hlimit] at herror
      exact ⟨(Except.error.inj herror).symm, hroom, Nat.not_le.mp hlimit⟩
  · rw [if_neg hroom] at herror
    exact absurd herror (by simp [pure, Except.pure])

section Target
variable {out t : Tensor} {dims : List Nat} {f : MemoryFormat} {h : Heap}

theorem storage_of_target (ht : out.target? dims f h = some t) : t.storage = out.storage := by
  unfold target? at ht
  split at ht
  · exact absurd ht (by simp)
  · rw [← Option.some.inj ht]

/-- A target is what resizing makes of the output, and it takes no memory. -/
theorem resize_of_target (nonempty : dims ≠ []) (ht : out.target? dims f h = some t) :
    out.resize dims f h = .ok (t, h) := by
  unfold target? at ht
  unfold resize checkShape
  rw [if_neg (by simpa using nonempty)]
  by_cases hroom : h.capacity out.storage < out.bytesFor dims
  · rw [if_pos hroom] at ht
    exact absurd ht (by simp)
  · rw [if_neg hroom] at ht
    rw [← Option.some.inj ht]
    simp only [bind, Except.bind, if_neg hroom]
    rfl

end Target

namespace Resized
variable {out t : Tensor} {dims : List Nat} {f : MemoryFormat} {h k : Heap}

theorem dims_eq (r : Resized out dims f h t k) : t.dims = dims := by
  rw [Tensor.dims, r.axes, f.extents_axes]

theorem numel_eq (r : Resized out dims f h t k) : t.numel = volume dims := by
  rw [numel, r.dims_eq]

theorem packedIn (r : Resized out dims f h t k) (pos : 0 < t.numel) (fits : t.numel ≤ wordMax) :
    t.PackedIn f := by
  rw [r.numel_eq] at pos fits
  unfold PackedIn
  rw [r.axes]
  exact f.packed_axes pos fits

theorem inside (r : Resized out dims f h t k) (fits : t.numel ≤ wordMax) : t.Inside k := by
  intro c hc
  refine (r.packedIn hc.volume_pos fits).inside ?_ c hc
  rw [r.numel_eq]
  exact r.room

theorem distinct (r : Resized out dims f h t k) (fits : t.numel ≤ wordMax) : t.Distinct :=
  fun c e hc => (r.packedIn hc.volume_pos fits).distinct c e hc

/-- The elements of a resized view can be counted, since there is no larger storage. -/
theorem numel_le (r : Resized out dims f h t k) (bounded : h.Bounded) : t.numel ≤ wordMax := by
  have hcapacity : (t.offset + volume dims) * t.elementSize ≤ storageLimit := by
    rcases r.place with ⟨htarget, rfl⟩ | ⟨-, hlimit⟩
    · exact r.room.trans (bounded.capacity_le _)
    · rw [r.offset, elementSize, r.dtype]
      exact hlimit
  have hle := Nat.le_mul_of_pos_right (t.offset + volume dims) t.elementSize_pos
  unfold storageLimit at hcapacity
  unfold wordMax
  rw [r.numel_eq]
  omega

/-- A dense view that passed the overlap check shares no byte with the resized one, nor does
it reach into its byte range. -/
theorem not_addresses (r : Resized out dims f h t k) {inputs : List Tensor}
    (checked : checkTarget (out.target? dims f h) inputs = .ok ()) (fits : t.numel ≤ wordMax)
    {u : Tensor} (hu : u ∈ inputs) (dense : u.isDense) (known : u.storage < h.storages.size)
    {s i : Nat} (hin : t.InByteRange s i) : ¬u.Addresses s i := by
  rcases r.place with ⟨htarget, -⟩ | ⟨hfresh, -⟩
  · rw [htarget] at checked
    have htdense : t.isDense = true := by
      rcases Nat.eq_zero_or_pos t.numel with hzero | hpos
      · simp [isDense, hzero]
      · exact (r.packedIn hpos fits).isDense
    exact apart_of_not_surelyOverlaps htdense dense (checkDisjoint_iff.mp checked u hu) hin
  · intro haddr
    have hsame := haddr.in_byteRange.1
    rw [hin.1, hfresh] at hsame
    omega

theorem apart (r : Resized out dims f h t k) {inputs : List Tensor}
    (checked : checkTarget (out.target? dims f h) inputs = .ok ()) (fits : t.numel ≤ wordMax)
    {u : Tensor} (hu : u ∈ inputs) (dense : u.isDense) (known : u.storage < h.storages.size) :
    t.Apart u :=
  fun _ _ ht => r.not_addresses checked fits hu dense known ht.in_byteRange

end Resized

end Tensor

end TensorConcat
