import TensorConcat.Concat.Reference
import TensorConcat.Proofs.Engines

/-!
# Interleaving joins the parts in row-major order

The reference route reads each part out in row-major order and takes from the parts in
rounds, one round for each index of the axes before the joined one. A round of a part
is the run of its elements that share these indices, so a round of all parts is the run
of elements of the joined tensor that share them, and the rounds one after another are
the joined tensor in row-major order. Written back over the resized output, they join
the parts. All parts are read before anything is written.
-/

namespace TensorConcat

/-- Pieces of one length, taken out of the list they make up. -/
theorem extract_flatMap {α β : Type} {f : α → List β} {k : Nat} {xs : List α}
    (length : ∀ x ∈ xs, (f x).length = k) {n : Nat} (hn : n < xs.length) :
    ((xs.flatMap f).toArray.extract (n * k) ((n + 1) * k)).toList = f xs[n] := by
  rw [Array.toList_extract, List.extract_eq_take_drop, Nat.succ_mul, Nat.add_sub_cancel_left]
  induction xs generalizing n with
  | nil => simp at hn
  | cons x xs ih =>
    have hx := length x (by simp)
    cases n with
    | zero => simp [← hx]
    | succ n =>
      have hrest := ih (fun y hy => length y (by simp [hy])) (by simpa using hn)
      rw [List.flatMap_cons, Nat.succ_mul, Nat.add_comm, ← hx, ← List.drop_drop, List.drop_left, hx,
        List.getElem_cons_succ]
      exact hrest

theorem coordinates_append (ds es : List Nat) :
    coordinates (ds ++ es) =
      (coordinates ds).flatMap fun a => (coordinates es).map fun b => a ++ b := by
  induction ds with
  | nil => simp [coordinates]
  | cons d ds ih =>
    simp only [List.cons_append, coordinates, ih, List.map_flatMap, List.flatMap_assoc,
      List.flatMap_map, List.map_map]
    rfl

/-- What a function of coordinates lists over the axes after the first few. -/
def block {α : Type} (g : List Nat → List α) (post : List Nat) (d : Nat) (a : List Nat) : List α :=
  (List.range d).flatMap fun i => (coordinates post).flatMap fun b => g (a ++ i :: b)

theorem flatMap_coordinates {α : Type} (g : List Nat → List α) (pre post : List Nat) (d : Nat) :
    (coordinates (pre ++ d :: post)).flatMap g = (coordinates pre).flatMap (block g post d) := by
  rw [coordinates_append, List.flatMap_assoc]
  apply List.flatMap_congr
  intro a _
  simp only [coordinates, block, List.flatMap_map, List.flatMap_assoc]

theorem length_block {α : Type} {g : List Nat → List α} {size : Nat}
    (length : ∀ c, (g c).length = size) (post : List Nat) (d : Nat) (a : List Nat) :
    (block g post d a).length = d * (volume post * size) := by
  simp [block, List.length_flatMap, length, List.map_const']

namespace Tensor

theorem elements_eq (t : Tensor) (h : Heap) :
    t.elements h = (coordinates t.dims).map fun c => t.loadElement h (Axis.position t.axes c) := by
  have hpush : ∀ (cs : List (List Nat)) (read : Array (List UInt8)),
      (cs.foldl (fun read c => read.push (t.loadElement h (Axis.position t.axes c))) read).toList =
        read.toList ++ cs.map fun c => t.loadElement h (Axis.position t.axes c) := by
    intro cs
    induction cs with
    | nil => simp
    | cons c cs ih =>
      intro read
      rw [List.foldl_cons, ih]
      simp
  rw [elements, walk_dims t t rfl, hpush]
  rfl

/-- A view read out in another type, coordinate by coordinate. -/
theorem bytesAs_eq [FloatCasts] (out t : Tensor) (h : Heap) :
    t.bytesAs out.dtype h = (coordinates t.dims).flatMap fun c => converted out t c h := by
  rw [bytesAs, elements_eq, List.flatMap_map]
  rfl

end Tensor

/-- The bytes of an element of the joined tensor. -/
def elementAt [FloatCasts] (out : Tensor) (axis : Nat) (parts : List Tensor) (h : Heap)
    (c : List Nat) : List UInt8 :=
  match sourceAt axis parts c with
  | some (t, e) => Tensor.converted out t e h
  | none => []

section Rounds
variable {out : Tensor} {h : Heap} [FloatCasts]

/-- What all parts list for one index of the axes before the joined one. -/
theorem flatMap_block (out : Tensor) (h : Heap) (post a : List Nat) (parts : List Tensor) :
    parts.flatMap (fun t => block (fun c => Tensor.converted out t c h) post (t.extentAt a.length) a) =
      block (elementAt out a.length parts h) post (totalExtent a.length parts) a := by
  induction parts with
  | nil => simp [block]
  | cons t ts ih =>
    have hindex : ∀ i b, (a ++ i :: b).getD a.length 0 = i := by simp
    rw [List.flatMap_cons, ih, totalExtent_cons]
    unfold block
    rw [List.range_add, List.flatMap_append, List.flatMap_map]
    congr 1
    · refine List.flatMap_congr fun i hi => List.flatMap_congr fun b _ => ?_
      rw [elementAt, sourceAt, hindex, if_pos (List.mem_range.mp hi)]
    · refine List.flatMap_congr fun i _ => List.flatMap_congr fun b _ => ?_
      have hlower : lowerAxis a.length (t.extentAt a.length) (a ++ (t.extentAt a.length + i) :: b) =
          a ++ i :: b := by
        rw [lowerAxis, hindex, Nat.add_sub_cancel_left]
        simp
      rw [elementAt, elementAt, sourceAt, hindex, if_neg (by omega), hlower]

/-- One round of a part is the run of its elements with the same indices before the axis. -/
theorem round_pieceOf {pre post : List Nat} {d : Nat} {t : Tensor}
    (ht : t.FitsShape (pre ++ d :: post) pre.length) {n : Nat} (hn : n < volume pre) :
    (Reference.pieceOf out.dtype pre.length h t).round n =
      block (fun c => Tensor.converted out t c h) post (t.extentAt pre.length) (digits pre n) := by
  have hdims : t.dims = pre ++ t.extentAt pre.length :: post := by
    rw [ht]
    simp
  have hpost : t.dims.drop (pre.length + 1) = post := by
    rw [hdims]
    simp
  have hchunk : ∀ a ∈ coordinates pre,
      (block (fun c => Tensor.converted out t c h) post (t.extentAt pre.length) a).length =
        t.extentAt pre.length * (volume post * out.dtype.size) :=
    fun a _ => length_block (fun c => Tensor.length_converted ..) _ _ _
  have hbytes : t.bytesAs out.dtype h = (coordinates pre).flatMap
      (block (fun c => Tensor.converted out t c h) post (t.extentAt pre.length)) := by
    rw [Tensor.bytesAs_eq, hdims, flatMap_coordinates]
  have hlength : n < (coordinates pre).length := by rwa [length_coordinates]
  have hdigits : (coordinates pre)[n] = digits pre n := by
    simp [coordinates_eq_map_digits]
  rw [Reference.Piece.round, Reference.pieceOf]
  dsimp only
  rw [hpost, hbytes, show t.dims.getD pre.length 0 = t.extentAt pre.length from rfl,
    extract_flatMap hchunk hlength, hdigits]

/-- The rounds one after another list the joined tensor in row-major order. -/
theorem joinedBytes_eq {inputs : List Tensor} {axis : Nat} {shape : List Nat} (f : MemoryFormat)
    (haxis : axis < shape.length) (fit : ∀ t ∈ counted inputs, t.FitsShape shape axis)
    (total : shape.getD axis 0 = totalExtent axis (counted inputs)) (pos : 0 < volume shape) :
    Reference.joinedBytes out.dtype ⟨axis, shape, f⟩ inputs h =
      (coordinates shape).flatMap (elementAt out axis (counted inputs) h) := by
  obtain ⟨pre, d, post, rfl, rfl⟩ : ∃ pre d post, shape = pre ++ d :: post ∧ axis = pre.length :=
    ⟨shape.take axis, shape[axis], shape.drop (axis + 1), by simp, by simp; omega⟩
  have hd : d = totalExtent pre.length (counted inputs) := by
    rw [← total]
    simp
  rw [Reference.joinedBytes, if_neg (Nat.ne_of_gt pos), flatMap_coordinates,
    coordinates_eq_map_digits pre, List.flatMap_map, Reference.interleave]
  have hpieces : ((live inputs).map fun p => Reference.pieceOf out.dtype pre.length h p.1) =
      (counted inputs).map (Reference.pieceOf out.dtype pre.length h) := by
    rw [← map_fst_live, List.map_map]
    rfl
  dsimp only
  rw [hpieces, List.take_left]
  apply List.flatMap_congr
  intro n hn
  have hlen := length_digits pre n
  rw [List.flatMap_map, hd, ← hlen, ← flatMap_block out h post (digits pre n), hlen]
  exact List.flatMap_congr fun t ht => round_pieceOf (fit t ht) (List.mem_range.mp hn)

theorem length_elementAt {axis : Nat} {parts : List Tensor} {c : List Nat} (hlen : axis < c.length)
    (hc : c.getD axis 0 < totalExtent axis parts) :
    (elementAt out axis parts h c).length = out.elementSize := by
  obtain ⟨t, e, hs⟩ := exists_sourceAt hlen hc
  rw [elementAt, hs]
  exact Tensor.length_converted ..

end Rounds

section Fill
variable {t : Tensor} {axis : Nat} {parts : List Tensor} {h : Heap}

/-- Filling a view writes the bytes of each coordinate over its element. -/
theorem fill_eq_scatter (fits : t.numel ≤ wordMax) (bytes : Array UInt8) (h : Heap) :
    t.fill bytes h = t.scatter (Axis.position t.axes)
      (fun c _ => (bytes.extract (index t.dims c * t.elementSize)
        ((index t.dims c + 1) * t.elementSize)).toList) (coordinates t.dims) h := by
  have hleft : t.dims.length = t.strides.length := by
    simp [Tensor.dims, Tensor.strides, Axis.extents, Axis.strides]
  have hright : t.dims.length = (MemoryFormat.contiguous.strides t.dims).length := by simp
  rw [Tensor.fill, Odometer.walk_eq_foldl hleft hright, Tensor.scatter]
  apply List.foldl_ext _ _ _
  intro k c hc
  have hc := mem_coordinates.mp hc
  have hindex : Axis.position (MemoryFormat.contiguous.axes t.dims) c = index t.dims c := by
    have hpacked := MemoryFormat.contiguous.packed_axes hc.volume_pos fits
    have heq := MemoryFormat.position_eq_index hpacked (c := c) (by rwa [MemoryFormat.extents_axes])
    rw [MemoryFormat.extents_axes] at heq
    exact heq
  rw [show Axis.pair t.dims t.strides = t.axes from Axis.pair_extents_strides _,
    show Axis.pair t.dims (MemoryFormat.contiguous.strides t.dims) =
      MemoryFormat.contiguous.axes t.dims from rfl, hindex]

/-- Writing the joined tensor back in row-major order joins the parts. -/
theorem joins_fill [FloatCasts] (haxis : axis < t.dims.length) (fits : t.numel ≤ wordMax)
    (distinct : t.Distinct)
    (total : totalExtent axis parts = t.extentAt axis) (inside : t.Inside h) :
    Joins t axis 0 parts h
      (t.fill ((coordinates t.dims).flatMap (elementAt t axis parts h)).toArray h) := by
  have hsource : ∀ c ∈ coordinates t.dims, axis < c.length ∧ c.getD axis 0 < totalExtent axis parts := by
    intro c hc
    have hc := mem_coordinates.mp hc
    rw [total]
    exact ⟨hc.length_eq ▸ haxis, hc.getD_lt haxis⟩
  have hvalue : ∀ c ∈ coordinates t.dims,
      (((coordinates t.dims).flatMap (elementAt t axis parts h)).toArray.extract
        (index t.dims c * t.elementSize) ((index t.dims c + 1) * t.elementSize)).toList =
          elementAt t axis parts h c := by
    intro c hc
    have hwithin := mem_coordinates.mp hc
    have hlt : index t.dims c < (coordinates t.dims).length := by
      rw [length_coordinates]
      exact index_lt hwithin
    rw [extract_flatMap (fun e he => length_elementAt (hsource e he).1 (hsource e he).2) hlt]
    congr 1
    simp [coordinates_eq_map_digits, digits_index hwithin]
  have hind : Tensor.Independent t (Axis.position t.axes)
      (fun c _ => (((coordinates t.dims).flatMap (elementAt t axis parts h)).toArray.extract
        (index t.dims c * t.elementSize) ((index t.dims c + 1) * t.elementSize)).toList)
      (coordinates t.dims) h := by
    refine ⟨fun c hc _ => ?_, fun c hc => inside c (mem_coordinates.mp hc),
      Tensor.distinct_iff_nodup.mp distinct, fun _ _ _ _ => rfl⟩
    rw [hvalue c hc]
    exact length_elementAt (hsource c hc).1 (hsource c hc).2
  rw [fill_eq_scatter fits]
  constructor
  · apply (Tensor.changedAt_scatter hind.length).mono
    intro p hp
    obtain ⟨c, hc, rfl⟩ := Tensor.hit_coordinates.mp hp
    refine ⟨c, hc, Nat.zero_le _, ?_, rfl⟩
    rw [total, Nat.zero_add]
    exact hc.getD_lt haxis
  · intro c hc _ u e hs
    rw [lowerAxis_zero] at hs
    have hmem := mem_coordinates.mpr hc
    rw [Tensor.loadElement_scatter hind c hmem, hvalue c hmem, elementAt, hs]

end Fill

namespace Reference
variable {out t : Tensor} {inputs : List Tensor} {dim : Int} {axis : Nat} {shape : List Nat}
  {f : MemoryFormat} {m : Machine} {k : Heap} [FloatCasts]

/-- The reference route carries out a request that joins inputs, and joins them, even where
they share bytes with the output. -/
theorem concatenate_joinable (joinable : Joinable m.heap out inputs dim axis shape f)
    (ht : out.resize shape f m.heap = .ok (t, k)) (fits : t.numel ≤ wordMax) :
    ∃ m', concatenate out inputs dim m = ⟨.ok (), t, m'⟩ ∧
      Joins t axis 0 (counted inputs) k m'.heap := by
  have hresized := Tensor.resize_spec ht
  refine ⟨m.withHeap (t.fill (joinedBytes out.dtype ⟨axis, shape, f⟩ inputs k).toArray k), ?_, ?_⟩
  · rw [concatenate, accept_of_joinable joinable]
    simp only [ht]
  · have hbytes : t.fill (joinedBytes out.dtype ⟨axis, shape, f⟩ inputs k).toArray k =
        t.fill ((coordinates t.dims).flatMap (elementAt t axis (counted inputs) k)).toArray k := by
      rcases Nat.eq_zero_or_pos (volume shape) with hzero | hpos
      · have hnone : coordinates t.dims = [] := by
          rw [← List.length_eq_zero_iff, length_coordinates, hresized.dims_eq, hzero]
        rw [fill_eq_scatter fits, fill_eq_scatter fits, hnone]
        rfl
      · rw [← hresized.dtype, joinedBytes_eq f joinable.axis_lt joinable.fit joinable.total hpos,
          hresized.dims_eq]
    change Joins t axis 0 (counted inputs) k (t.fill _ k)
    rw [hbytes]
    exact joins_fill (joinable.axis_lt_resized hresized) fits (hresized.distinct fits)
      (joinable.total_eq hresized) (hresized.inside fits)

theorem concatenate_rejected {r : Rejection} (hr : accept m.heap out inputs dim = .error r) :
    concatenate out inputs dim m = ⟨.error r.failure, out, m⟩ := by
  rw [concatenate, hr]

theorem concatenate_idle (nothing : Idle out inputs) :
    concatenate out inputs dim m = ⟨.ok (), out, m⟩ := by
  rw [concatenate, accept_of_idle nothing]

theorem concatenate_refused (joinable : Joinable m.heap out inputs dim axis shape f) {e : Failure}
    (he : out.resize shape f m.heap = .error e) :
    concatenate out inputs dim m = ⟨.error e, out, m⟩ := by
  rw [concatenate, accept_of_joinable joinable]
  simp only [he]

end Reference

end TensorConcat
