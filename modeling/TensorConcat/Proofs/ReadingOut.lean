import TensorConcat.Proofs.Interleaving

/-!
# Reading a tensor out

A row-major tensor is read as one block and any other element by element. Both list the bytes
of the elements in the order of their coordinates. So two tensors of one shape and type read
the same when they hold the same at every coordinate, however each of them is laid out and
wherever it lies.
-/

namespace TensorConcat

namespace Heap

theorem load_append (h : Heap) (storage start first second : Nat) :
    h.load storage start (first + second) =
      h.load storage start first ++ h.load storage (start + first) second := by
  simp [load, List.range_add, List.map_map, Function.comp_def, Nat.add_assoc]

/-- A block is read piece by piece. -/
theorem load_mul (h : Heap) (storage start count size : Nat) :
    h.load storage start (count * size) =
      (List.range count).flatMap fun n => h.load storage (start + n * size) size := by
  induction count with
  | zero => simp [load]
  | succ count ih => rw [Nat.succ_mul, load_append, ih, List.range_succ]; simp

end Heap

namespace Tensor

/-- The bytes at each coordinate, one coordinate after the other. -/
theorem toBytes_eq {t : Tensor} (fits : t.numel ≤ wordMax) (h : Heap) :
    t.toBytes h = (coordinates t.dims).flatMap fun c => t.loadElement h (Axis.position t.axes c) := by
  unfold toBytes
  split
  · rename_i hcontiguous
    rw [Heap.load_mul, coordinates_eq_map_digits, List.flatMap_map]
    apply List.flatMap_congr
    intro n hn
    have hn : n < volume t.dims := List.mem_range.mp hn
    have hpacked := packedIn_of_isContiguousIn hcontiguous (Nat.zero_lt_of_lt hn) fits
    have hposition : Axis.position t.axes (digits t.dims n) = n :=
      MemoryFormat.position_unrank hpacked hn
    rw [hposition, loadElement, start, Nat.add_mul]
  · rw [elements_eq, List.flatMap_def]

/-- Two tensors, each in its memory, have the same type and extents and read the same bytes. -/
structure SameReading (t : Tensor) (h : Heap) (u : Tensor) (k : Heap) : Prop where
  dtype : t.dtype = u.dtype
  dims : t.dims = u.dims
  bytes : ∃ bytes, t.readOut h = .ok bytes ∧ u.readOut k = .ok bytes

theorem readOut_eq {t : Tensor} (holds : t.numel * t.elementSize ≤ storageLimit) (h : Heap) :
    t.readOut h = .ok (t.toBytes h) := if_neg (Nat.not_lt.mpr holds)

/-- What can be read out has a number of elements that is a word. -/
theorem numel_le_wordMax {t : Tensor} (holds : t.numel * t.elementSize ≤ storageLimit) :
    t.numel ≤ wordMax := by
  have hsize := Nat.le_mul_of_pos_right t.numel t.elementSize_pos
  unfold storageLimit at holds
  unfold wordMax
  omega

/-- Tensors that hold the same at every coordinate read the same. -/
theorem SameReading.of_elements {t u : Tensor} {h k : Heap} (dtype : t.dtype = u.dtype)
    (dims : t.dims = u.dims) (holds : t.numel * t.elementSize ≤ storageLimit)
    (same : ∀ c, Within t.dims c → t.loadElement h (Axis.position t.axes c) =
      u.loadElement k (Axis.position u.axes c)) : t.SameReading h u k where
  dtype := dtype
  dims := dims
  bytes := by
    have hnumel : u.numel = t.numel := by rw [numel, numel, dims]
    have hsize : u.elementSize = t.elementSize := by rw [elementSize, elementSize, dtype]
    have holdsToo : u.numel * u.elementSize ≤ storageLimit := by rwa [hnumel, hsize]
    have hbytes : t.toBytes h = u.toBytes k := by
      rw [toBytes_eq (numel_le_wordMax holds), toBytes_eq (numel_le_wordMax holdsToo), ← dims]
      exact List.flatMap_congr fun c hc => same c (mem_coordinates.mp hc)
    exact ⟨t.toBytes h, readOut_eq holds h, hbytes ▸ readOut_eq holdsToo k⟩

end Tensor

end TensorConcat
