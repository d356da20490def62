import TensorConcat.Proofs.LaunchTrace

/-!
# The moves of a batch are the transfers of its parts

A launch over consecutive parts of a matching list computes, for every number below
the size of a part, the position that the transfer of that number writes. All sums and
products stay below the number of elements of the output, so nothing overflows, and
the items of each row share out the transfers of its part.
-/

namespace TensorConcat

open Number

/-- A transfer as places in memory. -/
def Transfer.move (out : Tensor) (f : MemoryFormat) (axis : Nat) (x : Transfer) : Move :=
  ⟨out.pointer.element out.elementSize (x.target out f axis),
    x.part.pointer.element out.elementSize x.number⟩

/-- Moving bytes between places in memory is transferring elements. -/
theorem replay_eq_scatter {out : Tensor} {f : MemoryFormat} {axis : Nat} {xs : List Transfer}
    (dtype : ∀ x ∈ xs, x.part.dtype = out.dtype) (h : Heap) :
    h.replay out.elementSize (xs.map (Transfer.move out f axis)) =
      out.scatter (Transfer.target out f axis) Transfer.value xs h := by
  rw [Heap.replay, List.foldl_map, Tensor.scatter]
  apply List.foldl_ext _ _ _
  intro k x hx
  have hsize : x.part.elementSize = out.elementSize := congrArg DType.size (dtype x hx)
  simp only [Transfer.move, Heap.move, Tensor.pointer, Pointer.element, Tensor.storeElement,
    Transfer.value, Tensor.loadElement, Tensor.start, hsize, Nat.add_mul]

/-- The record of a part whose slab begins at a place. -/
def recordOf (axis : Nat) (p : Nat × Tensor) : Descriptor Pointer :=
  ⟨p.2.pointer, UInt32.ofNat p.1, UInt32.ofNat (p.2.extentAt axis), UInt32.ofNat p.2.numel⟩

/-- The launch for consecutive parts. -/
def launchOf (out : Tensor) (axis start : Nat) (batch : List Tensor) : Launch :=
  ⟨out.pointer, out.elementSize, .ofAxes out.axes, axis,
    ((placed axis start batch).map (recordOf axis)).toArray⟩

/-- The transfers of one item, which starts at `x` and steps by `width`. -/
def itemTransfers (width : Nat) (p : Nat × Tensor) (x : Nat) : List Transfer :=
  (visits (UInt32.ofNat p.2.numel) (UInt32.ofNat width) (UInt32.ofNat x)).map
    fun w => ⟨p.1, p.2, w.toNat⟩

/-- The items of a row share out the transfers of its part. -/
theorem itemTransfers_perm {width : Nat} {p : Nat × Tensor} (pos : 0 < width)
    (fits : width < 2 ^ 32) (small : p.2.numel < 2 ^ 32) :
    ((List.range width).flatMap (itemTransfers width p)).Perm (transfersOf p) := by
  have hwidth := toNat_ofNat_of_lt fits
  have hcount := toNat_ofNat_of_lt small
  have hperm := @visits_perm (UInt32.ofNat p.2.numel) (UInt32.ofNat width) (by rwa [hwidth])
  rw [hwidth, hcount] at hperm
  have hmap := hperm.map fun w : UInt32 => (⟨p.1, p.2, w.toNat⟩ : Transfer)
  rw [List.map_flatMap, List.map_map] at hmap
  refine hmap.trans (List.Perm.of_eq (List.map_congr_left fun n hn => ?_))
  have hn := List.mem_range.mp hn
  simp only [Function.comp_apply, toNat_ofNat_of_lt (hn.trans small)]

theorem mem_transfersOf_of_item {width : Nat} {p : Nat × Tensor} (fits : width < 2 ^ 32)
    (small : p.2.numel < 2 ^ 32) {n : Nat} (hn : n < width) {x : Transfer}
    (hx : x ∈ itemTransfers width p n) : x ∈ transfersOf p :=
  (itemTransfers_perm (Nat.zero_lt_of_lt hn) fits small).mem_iff.mp
    (List.mem_flatMap.mpr ⟨n, List.mem_range.mpr hn, hx⟩)

section Parts
variable {out : Tensor} {f : MemoryFormat} {axis : Nat} {parts : List Tensor}

theorem writes_move {x : Transfer} {s i : Nat} :
    (x.move out f axis).Writes out.elementSize s i ↔ out.Occupies (x.target out f axis) s i := by
  simp only [Transfer.move, Move.Writes, Tensor.Occupies, Tensor.pointer, Pointer.element,
    Tensor.start, Nat.add_mul, Nat.one_mul]

theorem reads_move {x : Transfer} (dtype : x.part.dtype = out.dtype) {s i : Nat} :
    (x.move out f axis).Reads out.elementSize s i ↔ x.part.Occupies x.number s i := by
  have hsize : x.part.elementSize = out.elementSize := congrArg DType.size dtype
  simp only [Transfer.move, Move.Reads, Tensor.Occupies, Tensor.pointer, Pointer.element,
    Tensor.start, hsize, Nat.add_mul, Nat.one_mul]

/-- A transfer writes bytes of the output. -/
theorem addresses_of_writes (matching : Matches out f axis parts) {x : Transfer}
    (hx : x ∈ transfers axis 0 parts) {s i : Nat}
    (h : (x.move out f axis).Writes out.elementSize s i) : out.Addresses s i := by
  obtain ⟨p, hp, hx⟩ := List.mem_flatMap.mp hx
  exact ⟨_, (Transfer.within_coordinate matching hp hx).1, writes_move.mp h⟩

/-- A transfer reads bytes of its part. -/
theorem addresses_of_reads (matching : Matches out f axis parts) {x : Transfer}
    (hx : x ∈ transfers axis 0 parts) {s i : Nat}
    (h : (x.move out f axis).Reads out.elementSize s i) : x.part.Addresses s i := by
  obtain ⟨hmem, c, hc, hposition⟩ := reads_part matching hx
  exact ⟨c, hc, hposition ▸ (reads_move (matching.dtype _ hmem)).mp h⟩

theorem Matches.axis_lt_axes (matching : Matches out f axis parts) : axis < out.axes.length := by
  rw [← Axis.length_extents]
  exact matching.axis_lt

theorem numel_placed_le (matching : Matches out f axis parts) {p : Nat × Tensor}
    (hp : p ∈ placed axis 0 parts) : p.2.numel ≤ out.numel := by
  obtain ⟨hmem, hroom⟩ := matching.mem_placed hp
  rw [Tensor.numel, matching.fit _ hmem]
  exact volume_set_le (Nat.le_trans (Nat.le_add_left ..) hroom)

/-- The position of a transfer is that of the same coordinate in the part, moved up by whole
slabs. -/
theorem target_eq (matching : Matches out f axis parts) {p : Nat × Tensor}
    (hp : p ∈ placed axis 0 parts) {n : Nat} (hn : n < p.2.numel) :
    Transfer.target out f axis ⟨p.1, p.2, n⟩ =
      p.1 * out.strides.getD axis 0 + Axis.position out.axes (f.unrank p.2.dims n) := by
  have hfit := matching.fit _ (matching.mem_placed hp).1
  have hlen : (f.unrank p.2.dims n).length = out.axes.length := by
    rw [(f.within_unrank hn).length_eq, hfit, List.length_set]
    exact Axis.length_extents _
  rw [Nat.add_comm]
  exact Axis.position_set matching.axis_lt_axes hlen p.1

theorem target_lt (matching : Matches out f axis parts) {p : Nat × Tensor}
    (hp : p ∈ placed axis 0 parts) {x : Transfer} (hx : x ∈ transfersOf p) :
    x.target out f axis < out.numel := by
  have hwithin := (Transfer.within_coordinate matching hp hx).1
  exact MemoryFormat.position_lt (matching.packedIn hwithin) hwithin

section Word
variable (indexable : OutputLayout.Indexable out.axes) (small : out.numel < 2 ^ 32)
include indexable small

/-- The base of a part is found without overflow. -/
theorem base_eq (matching : Matches out f axis parts) {p : Nat × Tensor}
    (hp : p ∈ placed axis 0 parts) (pos : 0 < p.2.numel) :
    p.1 < 2 ^ 32 ∧ ∃ base, mulWord (recordOf axis p).offset ((OutputLayout.ofAxes out.axes).strideAt axis) =
      .ok base ∧ base.toNat = p.1 * out.strides.getD axis 0 := by
  have htarget := target_lt matching hp (mem_transfersOf.mpr ⟨rfl, rfl, pos⟩ : ⟨p.1, p.2, 0⟩ ∈ _)
  rw [target_eq matching hp pos] at htarget
  have hmul : p.1 * out.strides.getD axis 0 < 2 ^ 32 := by omega
  have hstart : p.1 < 2 ^ 32 := by
    have hroom := (matching.mem_placed hp).2
    have hextent : out.extentAt axis < 2 ^ 32 := OutputLayout.extent_lt indexable axis
    omega
  have hoffset : (recordOf axis p).offset.toNat = p.1 := toNat_ofNat_of_lt hstart
  have hstride := OutputLayout.toNat_strideAt indexable axis
  obtain ⟨base, hbase, heq⟩ := @mulWord_eq (recordOf axis p).offset
    ((OutputLayout.ofAxes out.axes).strideAt axis) (by rw [hoffset, hstride]; exact hmul)
  rw [hoffset, hstride] at heq
  exact ⟨hstart, base, hbase, heq⟩

/-- The move of an element is found without overflow. -/
theorem moveOf_eq (matching : Matches out f axis parts) {p : Nat × Tensor}
    (hp : p ∈ placed axis 0 parts) {base : UInt32}
    (hbase : base.toNat = p.1 * out.strides.getD axis 0) {w : UInt32} (hw : w.toNat < p.2.numel)
    (start : Nat) (batch : List Tensor) :
    (launchOf out axis start batch).moveOf (recordOf axis p) base w =
      .ok (Transfer.move out f axis ⟨p.1, p.2, w.toNat⟩) := by
  obtain ⟨hmem, hroom⟩ := matching.mem_placed hp
  have hfit := matching.fit _ hmem
  have hextent : (recordOf axis p).dimSize.toNat = p.2.extentAt axis := by
    have hextent : out.extentAt axis < 2 ^ 32 := OutputLayout.extent_lt indexable axis
    exact toNat_ofNat_of_lt (by omega)
  have hvolume : w.toNat < volume ((Axis.extents out.axes).set axis (recordOf axis p).dimSize.toNat) := by
    rw [hextent]
    exact hfit ▸ hw
  have hmember : ⟨p.1, p.2, w.toNat⟩ ∈ transfersOf p := mem_transfersOf.mpr ⟨rfl, rfl, hw⟩
  have hwithin := (Transfer.within_coordinate matching hp hmember).1
  obtain ⟨offset, hoffset, heq⟩ := OutputLayout.offsetOf_ofAxes indexable (matching.packedIn hwithin)
    (Nat.le_of_lt small) matching.axis_lt_axes (by rw [hextent]; exact Nat.le_trans (Nat.le_add_left ..) hroom)
    hvolume
  rw [hextent, ← show p.2.dims = (Axis.extents out.axes).set axis (p.2.extentAt axis) from hfit] at heq
  have htarget := target_eq matching hp hw
  have hlt := target_lt matching hp hmember
  obtain ⟨target, hadd, hsum⟩ := @addWord_eq base offset (by rw [hbase, heq]; omega)
  have htoNat : target.toNat = Transfer.target out f axis ⟨p.1, p.2, w.toNat⟩ := by
    rw [hsum, hbase, heq, htarget]
  simp only [Launch.moveOf, OutputLayout.offsetOfChecked_eq, launchOf, hoffset, hadd, bind,
    Except.bind, pure, Except.pure, htoNat]
  rfl

variable {g w n : UInt32} (fits : g.toNat * w.toNat < 2 ^ 32)
include fits

/-- The moves of an item are its transfers. -/
theorem moves_gridItem (matching : Matches out f axis parts) {start : Nat} {batch : List Tensor}
    {y x : Nat} {p : Nat × Tensor} (hy : y < 2 ^ 32) (hp : (placed axis start batch)[y]? = some p)
    (hparts : p ∈ placed axis 0 parts) (hx : x < g.toNat * w.toNat) :
    (launchOf out axis start batch).moves (Range2.gridItem g w n y x) =
      .ok ((itemTransfers (g.toNat * w.toNat) p x).map (Transfer.move out f axis)) := by
  have hrow : (Range2.gridItem g w n y x).group.y.toNat = y := toNat_ofNat_of_lt hy
  have hrecord : (launchOf out axis start batch).descriptors[(Range2.gridItem g w n y x).group.y.toNat]? =
      some (recordOf axis p) := by
    simp [hrow, launchOf, hp]
  have hfirst := @Range2.first_gridItem g w n fits y x hx
  have hcount : (recordOf axis p).elements.toNat = p.2.numel :=
    toNat_ofNat_of_lt ((numel_placed_le matching hparts).trans_lt small)
  unfold Launch.moves
  rw [hrecord]
  obtain ⟨product, hproduct, hadd⟩ := checked_bind.mp hfirst
  simp only [hproduct, hadd, bind, Except.bind]
  by_cases hle : (recordOf axis p).elements ≤ UInt32.ofNat x
  · have hnone : ¬(UInt32.ofNat x < UInt32.ofNat p.2.numel ∧ 0 < UInt32.ofNat (g.toNat * w.toNat)) :=
      fun h => UInt32.not_lt.mpr hle h.1
    rw [if_pos hle, itemTransfers, visits, dif_neg hnone]
    rfl
  · have hpos : 0 < p.2.numel := by
      have hlt := UInt32.lt_iff_toNat_lt.mp (UInt32.not_le.mp hle)
      omega
    obtain ⟨-, base, hbase, hbaseEq⟩ := base_eq indexable small matching hparts hpos
    have hstride := @Range2.stride_gridItem g w n fits y x
    rw [if_neg hle, show (launchOf out axis start batch).layout = .ofAxes out.axes from rfl,
      show (launchOf out axis start batch).joined = axis from rfl, hbase, hstride]
    refine (@mapM_eq_ok _ _ _ _ (fun v => Transfer.move out f axis ⟨p.1, p.2, v.toNat⟩) _
      fun v hv => ?_).trans ?_
    · have hwidth : 0 < (UInt32.ofNat (g.toNat * w.toNat)).toNat := by
        rw [toNat_ofNat_of_lt fits]
        exact Nat.zero_lt_of_lt hx
      have hlt := ((mem_visits hwidth).mp hv).2.1
      rw [hcount] at hlt
      exact moveOf_eq indexable small matching hparts hbaseEq hlt start batch
    · rw [itemTransfers, List.map_map]
      rfl

/-- An item of the grid reads the part of its row and writes the output. -/
theorem safe_gridItem (matching : Matches out f axis parts) {start : Nat} {batch : List Tensor}
    {y x : Nat} {p : Nat × Tensor} (hy : y < 2 ^ 32) (hp : (placed axis start batch)[y]? = some p)
    (hparts : p ∈ placed axis 0 parts) (hx : x < g.toNat * w.toNat) :
    (launchOf out axis start batch).ItemSafe out batch (Range2.gridItem g w n y x)
      ((itemTransfers (g.toNat * w.toNat) p x).map (Transfer.move out f axis)) := by
  have hcomputed := @moves_gridItem out f axis parts indexable small g w n fits matching start batch
    y x p hy hp hparts hx
  have hsmall := (numel_placed_le matching hparts).trans_lt small
  have hrow : (Range2.gridItem g w n y x).group.y.toNat = y := toNat_ofNat_of_lt hy
  have hinput : batch[y]? = some p.2 := by
    rw [← map_snd_placed axis start batch, List.getElem?_map, hp]
    rfl
  have hmem : ∀ z ∈ itemTransfers (g.toNat * w.toNat) p x, z.part = p.2 ∧ z ∈ transfers axis 0 parts := by
    intro z hz
    have hz := mem_transfersOf_of_item fits hsmall hx hz
    exact ⟨(mem_transfersOf.mp hz).2.1, List.mem_flatMap.mpr ⟨p, hparts, hz⟩⟩
  refine ⟨hcomputed, Launch.kernel_eq hcomputed, fun mv hmv => ?_, fun mv hmv s i hs => ?_⟩
  · obtain ⟨z, hz, rfl⟩ := List.mem_map.mp hmv
    obtain ⟨hpart, hz⟩ := hmem z hz
    rw [hrow]
    exact ⟨p.2, hinput, fun s i hs => hpart ▸ addresses_of_reads matching hz hs⟩
  · obtain ⟨z, hz, rfl⟩ := List.mem_map.mp hmv
    exact addresses_of_writes matching (hmem z hz).2 hs

/-- All items of a launch are safe, and together they make the transfers of its parts. -/
theorem safe_launchOf (matching : Matches out f axis parts) {start : Nat} {batch : List Tensor}
    (hparts : ∀ p ∈ placed axis start batch, p ∈ placed axis 0 parts) (hw : 0 < w.toNat)
    (hg : 0 < g.toNat) (hn : n.toNat = batch.length) :
    ∃ (mss : List (List Move)) (xs : List Transfer),
      List.Forall₂ ((launchOf out axis start batch).ItemSafe out batch) (Range2.grid g w n).items mss ∧
        mss.flatten = xs.map (Transfer.move out f axis) ∧ xs.Perm (transfers axis start batch) := by
  have hwidth : 0 < g.toNat * w.toNat := Nat.mul_pos hg hw
  -- Rows and items as pairs: a row is its number and its part.
  obtain ⟨pairs, hpairs⟩ : ∃ pairs, pairs = (placed axis start batch).zipIdx.flatMap fun q =>
    (List.range (g.toNat * w.toNat)).map fun x => (q, x) := ⟨_, rfl⟩
  have hitems : (Range2.grid g w n).items =
      pairs.map fun (q, x) => Range2.gridItem g w n q.2 x := by
    have hrange : List.range n.toNat = (placed axis start batch).zipIdx.map Prod.snd := by
      rw [hn, ← length_placed axis start batch, List.zipIdx_map_snd, List.range_eq_range']
    rw [Range2.items_grid hw fits, hpairs, List.map_flatMap, hrange, List.flatMap_map]
    simp only [List.map_map]
    rfl
  have hmem : ∀ q ∈ pairs, (placed axis start batch)[q.1.2]? = some q.1.1 ∧
      q.2 < g.toNat * w.toNat := by
    intro q hq
    rw [hpairs] at hq
    obtain ⟨r, hr, hq⟩ := List.mem_flatMap.mp hq
    obtain ⟨x, hx, rfl⟩ := List.mem_map.mp hq
    exact ⟨List.mem_zipIdx_iff_getElem?.mp hr, List.mem_range.mp hx⟩
  refine ⟨pairs.map fun (q, x) => (itemTransfers (g.toNat * w.toNat) q.1 x).map
    (Transfer.move out f axis), pairs.flatMap fun (q, x) => itemTransfers (g.toNat * w.toNat) q.1 x,
    ?_, ?_, ?_⟩
  · rw [hitems, List.forall₂_map_left_iff, List.forall₂_map_right_iff, List.forall₂_same]
    intro q hq
    obtain ⟨hrow, hx⟩ := hmem q hq
    obtain ⟨hlt, -⟩ := List.getElem?_eq_some_iff.mp hrow
    rw [length_placed, ← hn] at hlt
    exact safe_gridItem indexable small fits matching (hlt.trans n.toNat_lt) hrow
      (hparts _ (List.mem_of_getElem? hrow)) hx
  · rw [List.map_flatMap, List.flatMap_def]
  · rw [hpairs, List.flatMap_assoc, transfers]
    have hrows : (placed axis start batch).flatMap transfersOf =
        (placed axis start batch).zipIdx.flatMap fun q => transfersOf q.1 := by
      conv_lhs => rw [← List.zipIdx_map_fst 0 (placed axis start batch)]
      rw [List.flatMap_map]
    rw [hrows]
    apply List.Perm.flatMap_left _
    intro q hq
    rw [List.flatMap_map]
    have hq : q.1 ∈ placed axis start batch :=
      List.mem_of_getElem? (List.mem_zipIdx_iff_getElem?.mp hq)
    exact itemTransfers_perm hwidth fits ((numel_placed_le matching (hparts _ hq)).trans_lt small)

end Word

end Parts

end TensorConcat
