import TensorConcat.Proofs.Writing
import TensorConcat.Tensor.InWords

/-!
# Sizes that are words

Losing the top of every sum and product on the way is losing it once, at the end, so whatever is
added up and multiplied in words is right as soon as the exact result is a word. A test for
density also compares what it has got so far; as no extent is zero when it does, each of these
products is a factor of the number of elements.

For a view in a storage whose bytes can be counted, the elements being countable as well, each of
the answers in words is therefore the exact one.
-/

namespace TensorConcat

section Numbers
variable {m n : Nat} {ns dims : List Nat}

theorem wrap_of_le (h : n ≤ wordMax) : wrap n = n := Nat.mod_eq_of_lt (Nat.lt_succ_of_le h)

@[simp] theorem wrap_add_wrap (m n : Nat) : wrap (m + wrap n) = wrap (m + n) := Nat.add_mod_mod ..

@[simp] theorem wrap_wrap_add (m n : Nat) : wrap (wrap m + n) = wrap (m + n) := Nat.mod_add_mod ..

@[simp] theorem wrap_wrap_mul (m n : Nat) : wrap (wrap m * n) = wrap (m * n) := Nat.mod_mul_mod ..

theorem volumeInWords_eq (dims : List Nat) : volumeInWords dims = wrap (volume dims) := by
  have hfold (n : Nat) : dims.foldl (fun n d => wrap (n * d)) (wrap n) = wrap (n * volume dims) := by
    induction dims generalizing n with
    | nil => rw [List.foldl_nil, volume_nil, Nat.mul_one]
    | cons d ds ih => rw [List.foldl_cons, wrap_wrap_mul, ih, volume_cons, Nat.mul_assoc]
  rw [← Nat.one_mul (volume dims)]
  exact hfold 1

theorem sumInWords_eq (ns : List Nat) : sumInWords ns = wrap ns.sum := by
  have hfold (total : Nat) :
      ns.foldl (fun total n => wrap (total + n)) (wrap total) = wrap (total + ns.sum) := by
    induction ns generalizing total with
    | nil => rw [List.foldl_nil, List.sum_nil, Nat.add_zero]
    | cons n ns ih => rw [List.foldl_cons, wrap_wrap_add, ih, List.sum_cons, Nat.add_assoc]
  rw [← Nat.zero_add ns.sum]
  exact hfold 0

theorem volumeInWords_of_le (h : volume dims ≤ wordMax) : volumeInWords dims = volume dims := by
  rw [volumeInWords_eq, wrap_of_le h]

theorem sumInWords_of_le (h : ns.sum ≤ wordMax) : sumInWords ns = ns.sum := by
  rw [sumInWords_eq, wrap_of_le h]

/-- Two halves of a word's range are lost together. -/
example : sumInWords [2 ^ 63, 2 ^ 63] = 0 := by decide

end Numbers

namespace Axis
variable {axes : List Axis} {block : Nat}

theorem reach_eq_sum (axes : List Axis) :
    reach axes = (axes.map fun a => (a.extent - 1) * a.stride).sum := by
  rw [List.sum_eq_foldr, List.foldr_map]
  rfl

theorem reachInWords_eq (axes : List Axis) : reachInWords axes = wrap (reach axes) := by
  have hwords : (axes.map fun a => wrap ((a.extent - 1) * a.stride)) =
      (axes.map fun a => (a.extent - 1) * a.stride).map wrap := by
    rw [List.map_map]
    rfl
  rw [reachInWords, sumInWords_eq, hwords, reach_eq_sum]
  exact (List.sum_nat_mod _ _).symm

/-- One axis does not reach further than all of them. -/
theorem le_reach {a : Axis} (ha : a ∈ axes) : (a.extent - 1) * a.stride ≤ reach axes := by
  rw [reach_eq_sum]
  exact List.le_sum_of_mem (List.mem_map.mpr ⟨a, ha, rfl⟩)

theorem reach_set {axis : Nat} (h : axis < axes.length) (b : Axis) :
    reach (axes.set axis b) + (axes[axis].extent - 1) * axes[axis].stride =
      reach axes + (b.extent - 1) * b.stride := by
  induction axes generalizing axis with
  | nil => exact absurd h (by simp)
  | cons a axes ih =>
    cases axis with
    | zero =>
      simp only [reach, List.set_cons_zero, List.foldr_cons, List.getElem_cons_zero]
      omega
    | succ axis =>
      have hrest := ih (Nat.lt_of_succ_lt_succ h)
      simp only [reach, List.set_cons_succ, List.foldr_cons, List.getElem_cons_succ] at hrest ⊢
      omega

/-- Blocks that are no larger than the whole are counted exactly. -/
theorem tilesInWords_eq (pos : 0 < volume (extents axes))
    (words : block * volume (extents axes) ≤ wordMax) :
    tilesInWords block axes = tiles block axes := by
  induction axes generalizing block with
  | nil => rfl
  | cons a outer ih =>
    rw [extents_cons, volume_cons, ← Nat.mul_assoc] at words
    rw [extents_cons, volume_cons] at pos
    have hrest : 0 < volume (extents outer) := Nat.pos_of_mul_pos_left pos
    have hblock : block * a.extent ≤ wordMax := (Nat.le_mul_of_pos_right _ hrest).trans words
    rw [tilesInWords, tiles, wrap_of_le hblock, ih hrest words]

end Axis

namespace Tensor
variable {t a b : Tensor} {h : Heap}

/-- The elements of a view can be counted in a word, and so can the bytes up to the last one. -/
structure Sized (t : Tensor) : Prop where
  count : t.numel ≤ wordMax
  bytes : 0 < t.numel → (t.offset + Axis.reach t.axes + 1) * t.elementSize ≤ wordMax

instance (t : Tensor) : Decidable t.Sized :=
  decidable_of_iff (t.numel ≤ wordMax ∧
      (0 < t.numel → (t.offset + Axis.reach t.axes + 1) * t.elementSize ≤ wordMax))
    ⟨fun sized => ⟨sized.1, sized.2⟩, fun sized => ⟨sized.count, sized.bytes⟩⟩

/-- A view in its storage, whose elements and whose storage's bytes can be counted in a word. -/
structure InWords (t : Tensor) (h : Heap) : Prop where
  inside : t.Inside h
  storage : h.capacity t.storage ≤ wordMax
  count : t.numel ≤ wordMax

theorem InWords.sized (words : t.InWords h) : t.Sized where
  count := words.count
  bytes pos := (inside_iff.mp words.inside pos).trans words.storage

theorem numelInWords_of_le (words : t.numel ≤ wordMax) : t.numelInWords = t.numel :=
  volumeInWords_of_le words

theorem isDenseInWords_of_le (words : t.numel ≤ wordMax) : t.isDenseInWords = t.isDense := by
  rw [isDenseInWords, isDense, numelInWords_of_le words]
  cases Nat.eq_zero_or_pos t.numel with
  | inl hzero => rw [hzero]; rfl
  | inr hpos =>
    have hvolume := t.volume_steppingAxes
    rw [Axis.tilesInWords_eq (hvolume ▸ hpos) (by rwa [hvolume, Nat.one_mul])]

theorem internalOverlapInWords_of_le (words : t.numel ≤ wordMax) :
    t.internalOverlapInWords = t.internalOverlap := by
  rw [internalOverlapInWords, internalOverlap, isDenseInWords_of_le words]

/-- The positions in a storage whose bytes can be counted are words. -/
theorem Inside.span_le (inside : t.Inside h) (words : h.capacity t.storage ≤ wordMax)
    (pos : 0 < t.numel) : t.offset + Axis.reach t.axes ≤ wordMax := by
  have hbytes := inside_iff.mp inside pos
  have hsize := Nat.le_mul_of_pos_right (t.offset + Axis.reach t.axes + 1) t.elementSize_pos
  omega

namespace Sized

theorem maxOffsetInWords_eq (sized : t.Sized) : t.maxOffsetInWords = t.maxOffset := by
  rw [maxOffsetInWords, maxOffset, numelInWords_of_le sized.count]
  by_cases hempty : t.numel = 0
  · rw [if_pos hempty, if_pos hempty]
  · have hbytes := sized.bytes (Nat.pos_of_ne_zero hempty)
    have hsize := Nat.le_mul_of_pos_right (t.offset + Axis.reach t.axes + 1) t.elementSize_pos
    rw [if_neg hempty, if_neg hempty, Axis.reachInWords_eq, wrap_of_le (by omega)]

theorem byteRangeInWords_eq (sized : t.Sized) (pos : 0 < t.numel) :
    t.byteRangeInWords = t.byteRange := by
  have hlast : t.maxOffset = Axis.reach t.axes := if_neg pos.ne'
  have hend : t.start + (t.maxOffset + 1) * t.elementSize ≤ wordMax := by
    rw [start, hlast, ← Nat.add_mul]
    exact sized.bytes pos
  have hstart : t.startInWords = t.start := wrap_of_le ((Nat.le_add_right _ _).trans hend)
  rw [byteRangeInWords, byteRange, numelInWords_of_le sized.count, if_neg pos.ne',
    if_neg pos.ne', hstart, sized.maxOffsetInWords_eq, wrap_wrap_mul, wrap_add_wrap,
    wrap_of_le hend]

theorem overlapInWords_eq (ha : a.Sized) (hb : b.Sized) : a.overlapInWords b = a.overlap b := by
  rw [overlapInWords, overlap, numelInWords_of_le ha.count, numelInWords_of_le hb.count,
    isDenseInWords_of_le ha.count, isDenseInWords_of_le hb.count]
  by_cases hempty : a.numel = 0 ∨ b.numel = 0
  · rw [if_pos hempty, if_pos hempty]
  · rw [not_or] at hempty
    rw [ha.byteRangeInWords_eq (Nat.pos_of_ne_zero hempty.1),
      hb.byteRangeInWords_eq (Nat.pos_of_ne_zero hempty.2)]

end Sized

/-- A part that ends within a word is cut out of a view whose positions are words as it is
exactly. -/
theorem narrowInWords_of_le {axis start length : Nat} (words : start + length ≤ wordMax)
    (span : t.offset + Axis.reach t.axes ≤ wordMax) :
    t.narrowInWords axis start length = t.narrow axis start length := by
  unfold narrowInWords narrow
  cases haxis : t.axes[axis]? with
  | none => rfl
  | some a =>
    dsimp only
    rw [wrap_of_le words]
    by_cases hroom : a.extent < start + length
    · rw [if_pos hroom, if_pos hroom]
    · rw [if_neg hroom, if_neg hroom]
      by_cases hempty : length = 0
      · rw [if_pos hempty, if_pos hempty]
      · have hstart : start * a.stride ≤ (a.extent - 1) * a.stride :=
          Nat.mul_le_mul_right _ (by omega)
        have hreach := Axis.le_reach (List.mem_of_getElem? haxis)
        rw [if_neg hempty, if_neg hempty, wrap_add_wrap, wrap_of_le (by omega)]

end Tensor

end TensorConcat
