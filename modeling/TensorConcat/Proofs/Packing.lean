import TensorConcat.Proofs.Coordinates
import TensorConcat.Tensor.Basic

/-!
# Packed axes address a run of numbers

Axes that lie without gaps number their elements in memory order: the position of
a coordinate is its row-major number once axes and coordinate are listed from
outermost to innermost. So distinct coordinates have distinct positions, the
positions are the numbers below the volume, and the test that looks at sorted
strides alone (`Tensor.isDense`) accepts every packed view.

Products saturate at the largest word, so all of this is about volumes that fit
into one; a view with more elements has no storage.
-/

namespace TensorConcat

namespace MemoryFormat

@[simp] theorem arrange_restore {α : Type} (f : MemoryFormat) (xs : List α) :
    f.arrange (f.restore xs) = xs := by
  cases f with
  | contiguous => rfl
  | channelsLast =>
    match xs with
    | [] => rfl
    | [a] => rfl
    | [a, b] => rfl
    | n :: d :: e :: rest => simp [arrange, restore, List.dropLast_append_getLast]

@[simp] theorem length_restore {α : Type} (f : MemoryFormat) (xs : List α) :
    (f.restore xs).length = xs.length := by
  rw [← f.length_arrange (f.restore xs), arrange_restore]

@[simp] theorem length_strides (f : MemoryFormat) (dims : List Nat) :
    (f.strides dims).length = dims.length := by simp [strides]

theorem arrange_zipWith {α β γ : Type} (f : MemoryFormat) (g : α → β → γ) {xs : List α}
    {ys : List β} (h : xs.length = ys.length) :
    f.arrange (List.zipWith g xs ys) = List.zipWith g (f.arrange xs) (f.arrange ys) := by
  rw [← List.map_uncurry_zip_eq_zipWith, ← List.map_uncurry_zip_eq_zipWith, arrange_map,
    f.arrange_zip h]

@[simp] theorem extents_axes (f : MemoryFormat) (dims : List Nat) :
    Axis.extents (f.axes dims) = dims := Axis.extents_pair (by simp)

@[simp] theorem strides_axes (f : MemoryFormat) (dims : List Nat) :
    Axis.strides (f.axes dims) = f.strides dims := Axis.strides_pair (by simp)

@[simp] theorem length_axes (f : MemoryFormat) (dims : List Nat) :
    (f.axes dims).length = dims.length := by
  rw [← Axis.length_extents, extents_axes]

theorem extents_arrange (f : MemoryFormat) (axes : List Axis) :
    Axis.extents (f.arrange axes) = f.arrange (Axis.extents axes) := (f.arrange_map _ axes).symm

theorem volume_extents_arrange (f : MemoryFormat) (axes : List Axis) :
    volume (Axis.extents (f.arrange axes)) = volume (Axis.extents axes) := by
  rw [extents_arrange, volume_arrange]

@[simp] theorem arrange_strides (f : MemoryFormat) (dims : List Nat) :
    f.arrange (f.strides dims) = denseStrides (f.arrange dims) := by rw [strides, arrange_restore]

theorem arrange_axes (f : MemoryFormat) (dims : List Nat) :
    f.arrange (f.axes dims) = Axis.pair (f.arrange dims) (denseStrides (f.arrange dims)) := by
  rw [axes, Axis.pair, f.arrange_zipWith _ (by simp), arrange_strides]
  rfl

end MemoryFormat

theorem saturatingMul_eq {a b : Nat} (h : a * b ≤ wordMax) : saturatingMul a b = a * b :=
  Nat.min_eq_left h

/-- The part of a volume that the inner axes have fits when the whole does. -/
theorem volume_tail_le {d : Nat} {ds : List Nat} (pos : 0 < volume (d :: ds)) :
    volume ds ≤ volume (d :: ds) :=
  Nat.le_mul_of_pos_left _ (Nat.pos_of_mul_pos_right pos)

theorem span_eq_volume {ds : List Nat} (pos : 0 < volume ds) (fits : volume ds ≤ wordMax) :
    span ds = volume ds := by
  induction ds with
  | nil => rfl
  | cons d ds ih =>
    have hd : 0 < d := Nat.pos_of_mul_pos_right pos
    have htail := volume_tail_le pos
    rw [span, ih (Nat.pos_of_mul_pos_left pos) (htail.trans fits), Nat.max_eq_left hd,
      saturatingMul_eq (by rwa [Nat.mul_comm]), Nat.mul_comm, volume_cons]

theorem span_le (ds : List Nat) : span ds ≤ wordMax := by
  cases ds with
  | nil => exact Nat.succ_le_of_lt (by decide)
  | cons d ds => exact Nat.min_le_right _ _

/-- The block that an axis makes of the one inside of it. -/
theorem span_cons {d : Nat} (ds : List Nat) (pos : 0 < d) :
    span (d :: ds) = if d = 1 then span ds else saturatingMul (span ds) d := by
  rw [span, Nat.max_eq_left pos]
  by_cases hone : d = 1
  · rw [if_pos hone, hone, saturatingMul_eq (by rw [Nat.mul_one]; exact span_le ds), Nat.mul_one]
  · rw [if_neg hone]

/-- Dense strides are packed, also where they saturate. -/
theorem packedSpan_denseStrides {ds : List Nat} (pos : 0 < volume ds) :
    packedSpan (Axis.pair ds (denseStrides ds)) = some (span ds) := by
  induction ds with
  | nil => rfl
  | cons d ds ih =>
    have hinner := ih (Nat.pos_of_mul_pos_left pos)
    simp only [Axis.pair] at hinner
    simp only [denseStrides, Axis.pair, List.zipWith_cons_cons, packedSpan, hinner, if_true,
      span_cons ds (Nat.pos_of_mul_pos_right pos)]
    split <;> rfl

/-- What `packedSpan` says of the axis it looks at last. -/
theorem packedSpan_cons {a : Axis} {inner : List Axis} {block : Nat}
    (h : packedSpan (a :: inner) = some block) :
    ∃ b, packedSpan inner = some b ∧ (a.extent = 1 ∨ a.stride = b) := by
  simp only [packedSpan] at h
  split at h
  · exact absurd h (by simp)
  · rename_i b hb
    refine ⟨b, hb, ?_⟩
    by_cases h1 : a.extent = 1
    · exact .inl h1
    · rw [if_neg h1] at h
      by_cases hs : a.stride = b
      · exact .inr hs
      · rw [if_neg hs] at h
        exact absurd h (by simp)

/-- Axes, outermost first, that are packed and have elements which words can count. -/
structure Packed (axes : List Axis) : Prop where
  span : (packedSpan axes).isSome
  pos : 0 < volume (Axis.extents axes)
  fits : volume (Axis.extents axes) ≤ wordMax

namespace Packed

theorem tail {a : Axis} {inner : List Axis} (h : Packed (a :: inner)) : Packed inner where
  span := by
    obtain ⟨block, hblock⟩ := Option.isSome_iff_exists.mp h.span
    obtain ⟨b, hb, -⟩ := packedSpan_cons hblock
    simp [hb]
  pos := Nat.pos_of_mul_pos_left h.pos
  fits := (volume_tail_le h.pos).trans h.fits

theorem span_eq {axes : List Axis} (h : Packed axes) :
    packedSpan axes = some (volume (Axis.extents axes)) := by
  induction axes with
  | nil => rfl
  | cons a inner ih =>
    obtain ⟨block, hblock⟩ := Option.isSome_iff_exists.mp h.span
    obtain ⟨b, hb, hstep⟩ := packedSpan_cons hblock
    have hinner := ih h.tail
    obtain rfl : b = volume (Axis.extents inner) := by
      rw [hinner] at hb
      exact (Option.some.inj hb).symm
    have hfits : volume (Axis.extents inner) * a.extent ≤ wordMax := by
      rw [Nat.mul_comm]
      exact h.fits
    simp only [packedSpan, hb, Axis.extents_cons, volume_cons]
    by_cases h1 : a.extent = 1
    · rw [if_pos h1, h1, Nat.one_mul]
    · rw [if_neg h1, if_pos (hstep.resolve_left h1), saturatingMul_eq hfits, Nat.mul_comm]

/-- An axis that takes steps steps over just the block inside of it. -/
theorem stride_eq {a : Axis} {inner : List Axis} (h : Packed (a :: inner)) (ha : a.extent ≠ 1) :
    a.stride = volume (Axis.extents inner) := by
  obtain ⟨b, hb, hstep⟩ := packedSpan_cons h.span_eq
  rw [h.tail.span_eq] at hb
  exact (hstep.resolve_left ha).trans (Option.some.inj hb).symm

theorem position_eq_index {axes : List Axis} (h : Packed axes) {c : List Nat}
    (hc : Within (Axis.extents axes) c) :
    Axis.position axes c = index (Axis.extents axes) c := by
  induction axes generalizing c with
  | nil => rfl
  | cons a inner ih => cases c with
    | nil => rfl
    | cons i is =>
      simp only [Axis.position, Axis.extents_cons, index, ih h.tail hc.2]
      by_cases ha : a.extent = 1
      · have hi : i < a.extent := hc.1
        obtain rfl : i = 0 := by omega
        simp
      · rw [h.stride_eq ha]

/-- A stepping axis and its block stay inside the whole. -/
theorem stride_lt {axes : List Axis} (h : Packed axes) {b : Axis} (hb : b ∈ axes)
    (hstep : b.extent ≠ 1) : 0 < b.stride ∧ b.stride < volume (Axis.extents axes) := by
  induction axes with
  | nil => simp at hb
  | cons a inner ih =>
    have htail := volume_tail_le h.pos
    rcases List.mem_cons.mp hb with rfl | hb
    · have hpos := h.tail.pos
      have hext : 2 ≤ b.extent := by
        have : 0 < b.extent := Nat.pos_of_mul_pos_right h.pos
        omega
      have hgrow := Nat.mul_le_mul_right (volume (Axis.extents inner)) hext
      rw [h.stride_eq hstep]
      simp only [Axis.extents_cons, volume_cons]
      omega
    · have hinner := ih h.tail hb
      exact ⟨hinner.1, hinner.2.trans_le htail⟩

/-- Stepping axes have smaller strides the further in they are. -/
theorem pairwise_stride {axes : List Axis} (h : Packed axes) :
    (axes.filter (·.extent != 1)).Pairwise fun a b => b.stride < a.stride := by
  induction axes with
  | nil => exact .nil
  | cons a inner ih =>
    by_cases ha : a.extent = 1
    · simpa [ha] using ih h.tail
    · rw [List.filter_cons_of_pos (by simpa using ha)]
      refine .cons (fun b hb => ?_) (ih h.tail)
      obtain ⟨hmem, hstep⟩ := List.mem_filter.mp hb
      rw [h.stride_eq ha]
      exact (h.tail.stride_lt hmem (by simpa using hstep)).2

end Packed

theorem tiles_append (block : Nat) (xs ys : List Axis) :
    tiles block (xs ++ ys) = (tiles block xs && tiles (block * volume (Axis.extents xs)) ys) := by
  induction xs generalizing block with
  | nil => simp [tiles]
  | cons a xs ih => simp [tiles, ih, Bool.and_assoc, Nat.mul_assoc]

theorem volume_extents_reverse (axes : List Axis) :
    volume (Axis.extents axes.reverse) = volume (Axis.extents axes) :=
  volume_perm (axes.reverse_perm.map _)

/-- Axes of extent one do not count. -/
theorem volume_extents_filter (axes : List Axis) :
    volume (Axis.extents (axes.filter (·.extent != 1))) = volume (Axis.extents axes) := by
  induction axes with
  | nil => rfl
  | cons a axes ih =>
    by_cases ha : a.extent = 1
    · simpa [ha] using ih
    · simpa [ha] using congrArg (a.extent * ·) ih

/-- Innermost first, each stepping axis of a packed list steps over those before it. -/
theorem Packed.tiles {axes : List Axis} (h : Packed axes) :
    tiles 1 (axes.filter (·.extent != 1)).reverse = true := by
  induction axes with
  | nil => rfl
  | cons a inner ih =>
    by_cases ha : a.extent = 1
    · simpa [ha] using ih h.tail
    · rw [List.filter_cons_of_pos (by simpa using ha), List.reverse_cons, tiles_append,
        ih h.tail, volume_extents_reverse, volume_extents_filter]
      simp [TensorConcat.tiles, h.stride_eq ha]

namespace MemoryFormat
variable {f : MemoryFormat}

theorem holds_of_volume_pos {axes : List Axis} (pos : 0 < volume (Axis.extents axes)) :
    f.holds axes = (packedSpan (f.arrange axes)).isSome := by
  have hnone : (f.arrange axes).any (·.extent == 0) = false := by
    rw [List.any_eq_false]
    intro a ha
    have hmem : a.extent ∈ Axis.extents axes :=
      List.mem_map_of_mem ((f.arrange_perm axes).mem_iff.mp ha)
    have hextent := volume_pos_iff.mp pos _ hmem
    simp only [beq_iff_eq]
    omega
  rw [holds, isPacked, hnone, Bool.false_or]

theorem packed_of_holds {axes : List Axis} (h : f.holds axes)
    (pos : 0 < volume (Axis.extents axes)) (fits : volume (Axis.extents axes) ≤ wordMax) :
    Packed (f.arrange axes) := by
  have hvolume := f.volume_extents_arrange axes
  rw [holds_of_volume_pos pos] at h
  exact ⟨h, hvolume ▸ pos, hvolume ▸ fits⟩

theorem packed_axes (f : MemoryFormat) {dims : List Nat} (pos : 0 < volume dims)
    (fits : volume dims ≤ wordMax) : Packed (f.arrange (f.axes dims)) := by
  have hvolume : volume (Axis.extents (f.arrange (f.axes dims))) = volume dims := by
    rw [volume_extents_arrange, extents_axes]
  refine ⟨?_, hvolume.symm ▸ pos, hvolume.symm ▸ fits⟩
  rw [arrange_axes, packedSpan_denseStrides (by rwa [volume_arrange])]
  rfl

theorem length_of_within {axes : List Axis} {c : List Nat} (hc : Within (Axis.extents axes) c) :
    c.length = axes.length := by
  rw [hc.length_eq, Axis.length_extents]

theorem within_arranged {axes : List Axis} {c : List Nat} (hc : Within (Axis.extents axes) c) :
    Within (Axis.extents (f.arrange axes)) (f.arrange c) := by
  rw [extents_arrange]
  exact (within_arrange f hc.length_eq).mpr hc

/-- The position of a coordinate is its number in memory order. -/
theorem position_eq_index {axes : List Axis} (h : Packed (f.arrange axes)) {c : List Nat}
    (hc : Within (Axis.extents axes) c) :
    Axis.position axes c = index (f.arrange (Axis.extents axes)) (f.arrange c) := by
  rw [← Axis.position_arrange f (length_of_within hc), h.position_eq_index (within_arranged hc),
    extents_arrange]

theorem position_lt {axes : List Axis} (h : Packed (f.arrange axes)) {c : List Nat}
    (hc : Within (Axis.extents axes) c) :
    Axis.position axes c < volume (Axis.extents axes) := by
  have hw := (within_arrange f hc.length_eq).mpr hc
  rw [position_eq_index h hc, ← f.volume_arrange]
  exact index_lt hw

theorem position_injective {axes : List Axis} (h : Packed (f.arrange axes)) {c e : List Nat}
    (hc : Within (Axis.extents axes) c) (he : Within (Axis.extents axes) e)
    (same : Axis.position axes c = Axis.position axes e) : c = e := by
  have hwc := (within_arrange f hc.length_eq).mpr hc
  have hwe := (within_arrange f he.length_eq).mpr he
  rw [position_eq_index h hc, position_eq_index h he] at same
  rw [← f.restore_arrange c, ← f.restore_arrange e, ← digits_index hwc, ← digits_index hwe, same]

/-- The coordinate whose element is the `n`-th in memory order. -/
def unrank (f : MemoryFormat) (dims : List Nat) (n : Nat) : List Nat :=
  f.restore (digits (f.arrange dims) n)

theorem within_unrank {dims : List Nat} {n : Nat} (h : n < volume dims) :
    Within dims (f.unrank dims n) := by
  rw [← within_arrange f (by simp [unrank, length_digits]), unrank, arrange_restore]
  exact within_digits (by rwa [volume_arrange])

theorem position_unrank {axes : List Axis} (h : Packed (f.arrange axes)) {n : Nat}
    (hn : n < volume (Axis.extents axes)) :
    Axis.position axes (f.unrank (Axis.extents axes) n) = n := by
  rw [position_eq_index h (within_unrank hn), unrank, arrange_restore,
    index_digits (by rwa [volume_arrange])]

end MemoryFormat

namespace Tensor

/-- The axes lie densely in a format and words count the elements. -/
def PackedIn (t : Tensor) (f : MemoryFormat) : Prop := Packed (f.arrange t.axes)

theorem packedIn_of_isContiguousIn {t : Tensor} {f : MemoryFormat} (h : t.isContiguousIn f)
    (pos : 0 < t.numel) (fits : t.numel ≤ wordMax) : t.PackedIn f :=
  MemoryFormat.packed_of_holds h pos fits

theorem steppingAxes_perm (t : Tensor) : t.steppingAxes.Perm (t.axes.filter (·.extent != 1)) :=
  List.mergeSort_perm _ _

theorem volume_steppingAxes (t : Tensor) : volume (Axis.extents t.steppingAxes) = t.numel := by
  have hperm : (Axis.extents t.steppingAxes).Perm (Axis.extents (t.axes.filter (·.extent != 1))) :=
    t.steppingAxes_perm.map _
  rw [volume_perm hperm, volume_extents_filter]
  rfl

theorem pairwise_steppingAxes (t : Tensor) :
    t.steppingAxes.Pairwise fun a b => a.stride ≤ b.stride := by
  refine (List.pairwise_mergeSort ?_ ?_ _).imp (fun hab => by simpa using hab)
  · intro a b c hab hbc
    simp only [decide_eq_true_eq] at hab hbc ⊢
    omega
  · intro a b
    simp only [Bool.or_eq_true, decide_eq_true_eq]
    omega

namespace PackedIn
variable {t : Tensor} {f : MemoryFormat}

/-- Sorting by stride lists the stepping axes from innermost to outermost. -/
theorem steppingAxes_eq (h : t.PackedIn f) :
    t.steppingAxes = ((f.arrange t.axes).filter (·.extent != 1)).reverse := by
  have hperm : t.steppingAxes.Perm ((f.arrange t.axes).filter (·.extent != 1)).reverse :=
    t.steppingAxes_perm.trans
      (((f.arrange_perm t.axes).filter _).symm.trans (List.reverse_perm _).symm)
  have hstrict := Packed.pairwise_stride h
  rw [← List.pairwise_reverse] at hstrict
  refine List.Perm.eq_of_pairwise ?_ t.pairwise_steppingAxes (hstrict.imp Nat.le_of_lt) hperm
  intro a b ha hb hab hba
  have hkeys := (List.pairwise_map.mpr hstrict).imp Nat.ne_of_lt
  exact List.inj_on_of_nodup_map hkeys (hperm.mem_iff.mp ha) hb (Nat.le_antisymm hab hba)

theorem isDense (h : t.PackedIn f) : t.isDense = true := by
  rw [Tensor.isDense, h.steppingAxes_eq, Packed.tiles h, Bool.or_true]

end PackedIn

end Tensor

end TensorConcat
