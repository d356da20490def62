import TensorConcat.Proofs.Density
import TensorConcat.Proofs.Placement

/-!
# Contiguity in a format is linear addressing

A view passes the test for a format just when its elements lie in the memory order of that format:
the `k`-th coordinate has position `k`. An axis that takes steps is told by its neighbour of the
origin, which has as many coordinates before it as the block inside of the axis has; an axis of
extent one has no such neighbour, and the test does not look at it.

A view that passes has the strides of the format on every axis that takes steps, also where
products of extents saturate, so two views of the same extents have the same ones there.
-/

namespace TensorConcat

section Axes
variable {axes : List Axis} {block : Nat}

/-- Axes under which each coordinate is at its own number are packed. -/
theorem Packed.of_position (pos : 0 < volume (Axis.extents axes))
    (fits : volume (Axis.extents axes) ≤ wordMax)
    (linear : ∀ c, Within (Axis.extents axes) c →
      Axis.position axes c = index (Axis.extents axes) c) : Packed axes := by
  induction axes with
  | nil => exact ⟨rfl, pos, fits⟩
  | cons a inner ih =>
    have hextent : 0 < a.extent := Nat.pos_of_mul_pos_right pos
    have hpos : 0 < volume (Axis.extents inner) := Nat.pos_of_mul_pos_left pos
    have hinner : Packed inner := by
      refine ih hpos ((volume_tail_le pos).trans fits) fun c hc => ?_
      have hat := linear (0 :: c) ⟨hextent, hc⟩
      simpa [Axis.position, index] using hat
    refine ⟨?_, pos, fits⟩
    by_cases hstill : a.extent = 1
    · simp [packedSpan, hinner.span_eq, hstill]
    · -- The neighbour of the origin is as far away as its number says.
      obtain ⟨z, hz, hzero⟩ := Axis.exists_position_eq_zero hpos
      have hnumber := hinner.position_eq_index hz
      have hseveral : 1 < a.extent := Nat.lt_of_le_of_ne hextent (Ne.symm hstill)
      have hat := linear (1 :: z) ⟨hseveral, hz⟩
      simp only [Axis.position, Axis.extents_cons, index, Nat.one_mul, ← hnumber, hzero,
        Nat.add_zero] at hat
      simp [packedSpan, hinner.span_eq, hat, hstill]

/-- Packed axes that stay below the largest word reach just as far as their elements go. -/
theorem reach_of_packedSpan (span : (packedSpan axes).isSome)
    (pos : 0 < volume (Axis.extents axes)) (small : Axis.reach axes < wordMax) :
    Axis.reach axes + 1 = volume (Axis.extents axes) := by
  induction axes with
  | nil => rfl
  | cons a inner ih =>
    obtain ⟨block, hblock⟩ := Option.isSome_iff_exists.mp span
    obtain ⟨b, hb, hstep⟩ := packedSpan_cons hblock
    have hextent : 0 < a.extent := Nat.pos_of_mul_pos_right pos
    have hpos : 0 < volume (Axis.extents inner) := Nat.pos_of_mul_pos_left pos
    have hreach : Axis.reach (a :: inner) = (a.extent - 1) * a.stride + Axis.reach inner := rfl
    rw [hreach] at small ⊢
    have hinner := ih (by simp [hb]) hpos (by omega)
    have hpacked : Packed inner := ⟨by simp [hb], hpos, by omega⟩
    have hb : b = volume (Axis.extents inner) := Option.some.inj (hb.symm.trans hpacked.span_eq)
    rw [Axis.extents_cons, volume_cons]
    cases hstep with
    | inl hone => rw [hone, Nat.sub_self, Nat.zero_mul, Nat.zero_add, hinner, Nat.one_mul]
    | inr hstride =>
      rw [hstride, hb, Nat.add_assoc, hinner, ← Nat.succ_mul, Nat.succ_eq_add_one,
        Nat.sub_add_cancel hextent]

/-- Packed axes take the block of the dense strides. -/
theorem packedSpan_eq_span (pos : 0 < volume (Axis.extents axes))
    (packed : packedSpan axes = some block) : block = span (Axis.extents axes) := by
  induction axes generalizing block with
  | nil => exact (Option.some.inj packed).symm
  | cons a inner ih =>
    obtain ⟨b, hb, hstep⟩ := packedSpan_cons packed
    have hblock := ih (Nat.pos_of_mul_pos_left pos) hb
    rw [Axis.extents_cons, span_cons _ (Nat.pos_of_mul_pos_right pos), ← hblock]
    simp only [packedSpan, hb] at packed
    by_cases hone : a.extent = 1
    · rw [if_pos hone] at packed ⊢
      exact (Option.some.inj packed).symm
    · rw [if_neg hone, if_pos (hstep.resolve_left hone)] at packed
      rw [if_neg hone]
      exact (Option.some.inj packed).symm

/-- Packed axes have the dense strides wherever they take steps. -/
theorem stride_eq_of_packedSpan (pos : 0 < volume (Axis.extents axes))
    (packed : (packedSpan axes).isSome) {a : Axis} {s : Nat}
    (hmem : (a, s) ∈ axes.zip (denseStrides (Axis.extents axes))) (steps : a.extent ≠ 1) :
    a.stride = s := by
  induction axes with
  | nil => simp at hmem
  | cons b inner ih =>
    obtain ⟨block, hblock⟩ := Option.isSome_iff_exists.mp packed
    obtain ⟨inside, hinside, hstep⟩ := packedSpan_cons hblock
    have hpos : 0 < volume (Axis.extents inner) := Nat.pos_of_mul_pos_left pos
    rw [Axis.extents_cons, denseStrides, List.zip_cons_cons] at hmem
    cases List.mem_cons.mp hmem with
    | inl hfirst =>
      obtain ⟨rfl, rfl⟩ := Prod.mk.inj hfirst
      exact (hstep.resolve_left steps).trans (packedSpan_eq_span hpos hinside)
    | inr hrest => exact ih hpos (by simp [hinside]) hrest

end Axes

namespace MemoryFormat
variable (f : MemoryFormat)

/-- The elements of a list in memory order, read by their indices. -/
theorem map_order {α : Type} (xs : List α) (fallback : α) :
    (f.order xs.length).map (xs.getD · fallback) = f.arrange xs := by
  rw [order, ← arrange_map]
  congr 1
  apply List.ext_getElem
  · simp
  · intro i _ hi
    simp [List.getElem?_eq_getElem hi]

/-- Read axis by axis in memory order, the coordinates count through the extents in that order. -/
theorem enumerate_in_order (dims : List Nat) :
    (f.enumerate dims).map (fun c => (f.order dims.length).map (c.getD · 0)) =
      coordinates ((f.order dims.length).map (dims.getD · 0)) := by
  rw [map_order, enumerate, List.map_map]
  conv_rhs => rw [← List.map_id (coordinates (f.arrange dims))]
  apply List.map_congr_left
  intro c hc
  have hlength : (f.restore c).length = dims.length := by
    rw [length_restore, (mem_coordinates.mp hc).length_eq, length_arrange]
  rw [Function.comp_apply, ← hlength, map_order, arrange_restore, id]

theorem holds_of_volume_eq_zero {axes : List Axis} (empty : volume (Axis.extents axes) = 0) :
    f.holds axes = true := by
  have hzero : ∃ d ∈ Axis.extents axes, d = 0 := by
    by_contra hnone
    push Not at hnone
    have hpos := volume_pos_iff.mpr fun d hd => Nat.pos_of_ne_zero (hnone d hd)
    omega
  obtain ⟨d, hd, hd0⟩ := hzero
  obtain ⟨a, ha, hextent⟩ := List.mem_map.mp hd
  have hany : (f.arrange axes).any (·.extent == 0) = true := by
    rw [List.any_eq_true]
    exact ⟨a, (f.arrange_perm axes).mem_iff.mpr ha, by simpa [hd0] using hextent⟩
  rw [holds, isPacked, hany, Bool.true_or]

end MemoryFormat

namespace Tensor
variable {t u : Tensor} {f : MemoryFormat}

/-- The elements lie in the memory order of a format: the `k`-th coordinate has position `k`. -/
def LinearIn (t : Tensor) (f : MemoryFormat) : Prop :=
  ∀ k < t.numel, (f.enumerate t.dims)[k]?.map (Axis.position t.axes) = some k

theorem linearIn_iff : t.LinearIn f ↔
    ∀ k < t.numel, Axis.position t.axes (f.unrank t.dims k) = k := by
  refine forall₂_congr fun k hk => ?_
  rw [MemoryFormat.getElem?_enumerate hk, Option.map_some, Option.some_inj]

theorem PackedIn.linearIn (packed : t.PackedIn f) : t.LinearIn f :=
  linearIn_iff.mpr fun _ hk => MemoryFormat.position_unrank packed hk

theorem volume_arrange_axes (t : Tensor) (f : MemoryFormat) :
    volume (Axis.extents (f.arrange t.axes)) = t.numel := f.volume_extents_arrange t.axes

/-- The last element of linear addressing is among those that the view reaches. -/
theorem LinearIn.numel_le (linear : t.LinearIn f) (pos : 0 < t.numel) :
    t.numel ≤ t.maxOffset + 1 := by
  have hlast : t.numel - 1 < t.numel := Nat.sub_one_lt pos.ne'
  have hwithin : Within t.dims (f.unrank t.dims (t.numel - 1)) := f.within_unrank hlast
  have hle := Axis.position_le_reach hwithin
  rw [linearIn_iff.mp linear _ hlast] at hle
  rw [maxOffset, if_neg pos.ne']
  omega

theorem LinearIn.packedIn (linear : t.LinearIn f) (pos : 0 < t.numel) (fits : t.numel ≤ wordMax) :
    t.PackedIn f := by
  have hvolume := t.volume_arrange_axes f
  refine Packed.of_position (hvolume ▸ pos) (hvolume ▸ fits) fun c hc => ?_
  have hnumber := linearIn_iff.mp linear _ (hvolume ▸ index_lt hc)
  have hlength : (f.restore c).length = t.axes.length := by
    rw [f.length_restore, hc.length_eq, Axis.length_extents, f.length_arrange]
  rw [f.extents_arrange] at hc hnumber ⊢
  rw [MemoryFormat.unrank, dims, digits_index hc, ← Axis.position_arrange f hlength,
    f.arrange_restore] at hnumber
  exact hnumber

theorem PackedIn.isContiguousIn (packed : t.PackedIn f) : t.isContiguousIn f = true := by
  rw [Tensor.isContiguousIn, MemoryFormat.holds, isPacked, packed.span, Bool.or_true]

/-- A view that passes and stays below the largest word has no more elements than words count. -/
theorem numel_le_of_isContiguousIn (contiguous : t.isContiguousIn f = true) (pos : 0 < t.numel)
    (small : t.maxOffset < wordMax) : t.numel ≤ wordMax := by
  have hvolume := t.volume_arrange_axes f
  have hreach : Axis.reach (f.arrange t.axes) = t.maxOffset := by
    rw [Axis.reach_perm (f.arrange_perm t.axes), maxOffset, if_neg pos.ne']
  rw [isContiguousIn, MemoryFormat.holds_of_volume_pos pos] at contiguous
  have hcount := reach_of_packedSpan contiguous (hvolume ▸ pos) (hreach ▸ small)
  rw [hreach, hvolume] at hcount
  omega

/-- The test for a format is exact. -/
theorem isContiguousIn_iff_linearIn (pos : 0 < t.numel)
    (words : t.numel ≤ wordMax ∨ t.maxOffset < wordMax) :
    t.isContiguousIn f = true ↔ t.LinearIn f := by
  constructor
  · intro contiguous
    have hfits : t.numel ≤ wordMax := words.elim id (numel_le_of_isContiguousIn contiguous pos)
    exact (packedIn_of_isContiguousIn contiguous pos hfits).linearIn
  · intro linear
    have hfits : t.numel ≤ wordMax := by
      have hle := linear.numel_le pos
      omega
    exact (linear.packedIn pos hfits).isContiguousIn

/-- The strides of a format pass its test, whatever the extents are. -/
theorem isContiguousIn_of_strides (own : t.strides = f.strides t.dims) :
    t.isContiguousIn f = true := by
  have haxes : t.axes = f.axes t.dims := by
    rw [MemoryFormat.axes, ← own]
    exact (Axis.pair_extents_strides t.axes).symm
  cases Nat.eq_zero_or_pos t.numel with
  | inl hzero => exact f.holds_of_volume_eq_zero hzero
  | inr hpos =>
    rw [isContiguousIn, MemoryFormat.holds_of_volume_pos hpos, haxes, f.arrange_axes,
      packedSpan_denseStrides (by rwa [f.volume_arrange])]
    rfl

/-- A view that passes has the strides of the format on every axis of several elements. -/
theorem stride_of_isContiguousIn (contiguous : t.isContiguousIn f = true) (pos : 0 < t.numel)
    {i : Nat} (several : 1 < t.dims.getD i 0) : t.strides[i]? = (f.strides t.dims)[i]? := by
  have hi : i < t.axes.length := by
    by_contra hout
    rw [List.getD_eq_default _ _ (by rw [dims, Axis.length_extents]; omega)] at several
    omega
  have hextent : t.axes[i].extent ≠ 1 := by
    rw [dims, Axis.extents, List.getD_eq_getElem _ _ (by simpa using hi),
      List.getElem_map] at several
    omega
  have hlength : t.axes.length = (f.strides t.dims).length := by
    rw [f.length_strides, dims, Axis.length_extents]
  have hown : i < (f.strides t.dims).length := hlength ▸ hi
  have hdense : denseStrides (Axis.extents (f.arrange t.axes)) = f.arrange (f.strides t.dims) := by
    rw [f.arrange_strides, f.extents_arrange, dims]
  have hpair : (t.axes[i], (f.strides t.dims)[i]) ∈
      (f.arrange t.axes).zip (denseStrides (Axis.extents (f.arrange t.axes))) := by
    rw [hdense, ← f.arrange_zip hlength, (f.arrange_perm _).mem_iff]
    exact List.mem_iff_getElem.mpr ⟨i, by rw [List.length_zip]; omega, List.getElem_zip⟩
  have hvolume := t.volume_arrange_axes f
  rw [isContiguousIn, MemoryFormat.holds_of_volume_pos pos] at contiguous
  have hstride := stride_eq_of_packedSpan (hvolume ▸ pos) contiguous hpair hextent
  rw [strides, Axis.strides, List.getElem?_map, List.getElem?_eq_getElem hi,
    List.getElem?_eq_getElem hown, Option.map_some, hstride]

end Tensor

/-- Contiguity in a format is linear addressing in its memory order. Read axis by axis in that
order, the enumeration counts through the extents, the last axis fastest; a view with elements, as
many as words count or within the reach of words, passes the test just when the `k`-th coordinate
has position `k`, and is then dense with its last element at the end. The strides of the format pass
for all extents, and two views of the same extents that pass have the same strides wherever they
take steps. -/
theorem contiguity_is_linear_addressing (f : MemoryFormat) :
    (∀ dims : List Nat,
      (f.enumerate dims).map (fun c => (f.order dims.length).map (c.getD · 0)) =
        coordinates ((f.order dims.length).map (dims.getD · 0))) ∧
    (∀ t : Tensor, 0 < t.numel → t.numel ≤ wordMax ∨ t.maxOffset < wordMax →
      (t.isContiguousIn f = true ↔
        ∀ k < t.numel, (f.enumerate t.dims)[k]?.map (Axis.position t.axes) = some k) ∧
      (t.isContiguousIn f = true → t.isDense = true ∧ t.maxOffset + 1 = t.numel)) ∧
    (∀ t : Tensor, t.strides = f.strides t.dims → t.isContiguousIn f = true) ∧
    (∀ t u : Tensor, 0 < t.numel → t.dims = u.dims → t.isContiguousIn f = true →
      u.isContiguousIn f = true → ∀ i, 1 < t.dims.getD i 0 → t.strides[i]? = u.strides[i]?) := by
  refine ⟨f.enumerate_in_order, ?linear, fun t own => Tensor.isContiguousIn_of_strides own,
    ?strides⟩
  case linear =>
    intro t pos words
    refine ⟨Tensor.isContiguousIn_iff_linearIn pos words, fun contiguous => ?_⟩
    have hfits : t.numel ≤ wordMax :=
      words.elim id (Tensor.numel_le_of_isContiguousIn contiguous pos)
    have hdense := (Tensor.packedIn_of_isContiguousIn contiguous pos hfits).isDense
    exact ⟨hdense, Tensor.maxOffset_of_isDense pos hdense⟩
  case strides =>
    intro t u pos same ht hu i several
    have hpos : 0 < u.numel := by
      rw [Tensor.numel, ← same]
      exact pos
    rw [Tensor.stride_of_isContiguousIn ht pos several, same]
    exact (Tensor.stride_of_isContiguousIn hu hpos (same ▸ several)).symm

/-- Of more elements than words count, the largest word passes for a block. -/
example : MemoryFormat.contiguous.holds [⟨2, wordMax⟩, ⟨2 ^ 40, 2 ^ 40⟩, ⟨2 ^ 40, 1⟩] = true := by
  decide

/-- A channels-last view with a stride out of line on its axis of extent one. -/
def image : Tensor := ⟨0, 4, [⟨2, 6⟩, ⟨3, 1⟩, ⟨2, 3⟩, ⟨1, 99⟩], .f32⟩

/-- A view of the same extents as the format lays it out. -/
def laidOut : Tensor := ⟨1, 0, MemoryFormat.channelsLast.axes [2, 3, 2, 1], .f32⟩

theorem contiguity_is_linear_addressing_image :
    (0 < image.numel ∧ image.numel ≤ wordMax) ∧
    (∀ k < 12, (MemoryFormat.channelsLast.enumerate [2, 3, 2, 1])[k]?.map
      (Axis.position image.axes) = some k) ∧
    (image.isDense = true ∧ image.maxOffset + 1 = 12) ∧
    laidOut.isContiguousIn .channelsLast = true ∧ image.dims = laidOut.dims ∧
    image.strides[2]? = laidOut.strides[2]? := by
  have hpos : 0 < image.numel := by decide
  have hfits : image.numel ≤ wordMax := by decide
  have hpasses : image.isContiguousIn .channelsLast = true := by cbv
  have hsame : image.dims = laidOut.dims := by cbv
  have hown : laidOut.strides = MemoryFormat.channelsLast.strides laidOut.dims := by cbv
  obtain ⟨-, hlinear, hstrides, hagree⟩ := contiguity_is_linear_addressing .channelsLast
  have himage := hlinear image hpos (.inl hfits)
  have hlaid := hstrides laidOut hown
  exact ⟨⟨hpos, hfits⟩, himage.1.mp hpasses, himage.2 hpasses, hlaid, hsame,
    hagree image laidOut hpos hsame hpasses hlaid 2 (by decide)⟩

end TensorConcat
