import TensorConcat.Proofs.SizesInWords

/-!
# Which views are dense

The positions of a list of axes are the sums of one multiple of each stride, so in another order
the axes have the same positions, and axes of extent one add nothing. A list of numbers can be
told from its tally, the polynomial with a power for each number, up to the order of the list. The
tally of the sums of two lists is the product of their tallies, and a product can be cancelled:
what has to be added to a run of multiples to make a longer run is known.

So the test that looks at sorted strides is exact. The axis of the smallest stride has to step over
one block, since a block is a position and no smaller number is; without it, the other axes are
left with the positions that a run of larger blocks has.
-/

namespace TensorConcat

open Polynomial

section Sums
variable {ms ns os : List Nat} {m : Nat}

/-- One power of the variable for each number of a list. -/
noncomputable def tally (ns : List Nat) : ℕ[X] := (ns.map (X ^ ·)).sum

/-- The sums of a number of each list. -/
def sums (ms ns : List Nat) : List Nat := ms.flatMap fun m => ns.map (m + ·)

theorem coeff_tally : (tally ns).coeff m = ns.count m := by
  induction ns with
  | nil => simp [tally]
  | cons n ns ih =>
    simp only [tally, List.map_cons, List.sum_cons, coeff_add, coeff_X_pow] at ih ⊢
    rw [ih, List.count_cons, Nat.add_comm]
    simp only [beq_iff_eq, @eq_comm _ n]

theorem tally_eq_iff : tally ms = tally ns ↔ ms.Perm ns := by
  rw [List.perm_iff_count, Polynomial.ext_iff]
  simp only [coeff_tally]

@[simp] theorem tally_nil : tally [] = 0 := rfl

@[simp] theorem tally_append : tally (ms ++ ns) = tally ms + tally ns := by simp [tally]

theorem tally_map_add : tally (ns.map (m + ·)) = X ^ m * tally ns := by
  induction ns with
  | nil => simp [tally]
  | cons n ns ih =>
    simp only [tally, List.map_cons, List.sum_cons] at ih ⊢
    rw [ih, pow_add, mul_add]

theorem tally_sums : tally (sums ms ns) = tally ms * tally ns := by
  induction ms with
  | nil => simp [sums]
  | cons m ms ih =>
    simp only [sums, List.flatMap_cons, tally_append, tally_map_add] at ih ⊢
    rw [ih, ← add_mul]
    simp [tally]

theorem sums_left_comm : (sums ms (sums ns os)).Perm (sums ns (sums ms os)) := by
  rw [← tally_eq_iff]
  simp only [tally_sums, mul_left_comm]

theorem sums_perm (h : ns.Perm os) : (sums ms ns).Perm (sums ms os) := by
  rw [← tally_eq_iff] at h ⊢
  rw [tally_sums, tally_sums, h]

theorem perm_of_sums (nonempty : m ∈ ms) (h : (sums ms ns).Perm (sums ms os)) : ns.Perm os := by
  rw [← tally_eq_iff] at h ⊢
  rw [tally_sums, tally_sums] at h
  refine mul_left_cancel₀ ?_ h
  intro hzero
  have hcount := @coeff_tally ms m
  rw [hzero, coeff_zero] at hcount
  exact (List.count_pos_iff.mpr nonempty).ne hcount

end Sums

section Multiples
variable {step count i : Nat}

/-- The first few multiples of a number. -/
def multiples (step count : Nat) : List Nat := (List.range count).map (· * step)

theorem mem_multiples : i ∈ multiples step count ↔ ∃ k < count, k * step = i := by
  simp [multiples]

theorem nodup_multiples (pos : 0 < step) : (multiples step count).Nodup :=
  List.nodup_range.map_on fun _ _ _ _ same => Nat.eq_of_mul_eq_mul_right pos same

@[simp] theorem multiples_one (count : Nat) : multiples 1 count = List.range count := by
  simp [multiples]

/-- A long run of multiples is made of runs of a few, one after another. -/
theorem multiples_mul (step few count : Nat) :
    (multiples step (few * count)).Perm
      (sums (multiples step few) (multiples (step * few) count)) := by
  rw [← tally_eq_iff, tally_sums]
  induction count with
  | zero => simp [multiples]
  | succ count ih =>
    have hlong : multiples step (few * (count + 1)) =
        multiples step (few * count) ++ (multiples step few).map (count * (step * few) + ·) := by
      simp only [multiples, Nat.mul_succ, List.range_add, List.map_append, List.map_map]
      congr 1
      apply List.map_congr_left
      intro k _
      simp only [Function.comp_apply]
      ring
    have hrun : multiples (step * few) (count + 1) =
        multiples (step * few) count ++ [count * (step * few)] := by
      simp [multiples, List.range_succ]
    rw [hlong, hrun, tally_append, tally_append, ih, tally_map_add, mul_add]
    simp [tally, mul_comm]

end Multiples

namespace Axis
variable {axes others : List Axis} {c : List Nat} {a : Axis} {block n : Nat}

/-- The position of each coordinate, in row-major order. -/
def positions (axes : List Axis) : List Nat := (coordinates (extents axes)).map (position axes)

theorem mem_positions :
    n ∈ positions axes ↔ ∃ c, Within (extents axes) c ∧ position axes c = n := by
  simp only [positions, List.mem_map, mem_coordinates]

theorem positions_cons :
    positions (a :: axes) = sums (multiples a.stride a.extent) (positions axes) := by
  simp only [positions, extents_cons, coordinates, sums, multiples, List.map_flatMap,
    List.flatMap_map, List.map_map]
  rfl

theorem positions_perm (perm : axes.Perm others) : (positions axes).Perm (positions others) := by
  induction perm with
  | nil => exact .refl _
  | cons a _ ih =>
    rw [positions_cons, positions_cons]
    exact sums_perm ih
  | swap a b axes =>
    rw [positions_cons, positions_cons, positions_cons, positions_cons]
    exact sums_left_comm
  | trans _ _ first second => exact first.trans second

theorem positions_filter (axes : List Axis) :
    positions (axes.filter (·.extent != 1)) = positions axes := by
  induction axes with
  | nil => rfl
  | cons a axes ih =>
    by_cases ha : a.extent = 1
    · simp [positions_cons, ih, ha, multiples, sums]
    · simp [positions_cons, ih, ha]

theorem positions_of_tiles (h : tiles block axes = true) :
    (positions axes).Perm (multiples block (volume (extents axes))) := by
  induction axes generalizing block with
  | nil => simp [positions, coordinates, position, multiples]
  | cons a outer ih =>
    rw [tiles, Bool.and_eq_true, beq_iff_eq] at h
    rw [positions_cons, extents_cons, volume_cons, h.1]
    exact (sums_perm (ih h.2)).trans (multiples_mul block a.extent _).symm

/-- Any step is at least as long as the shortest one. -/
theorem stride_le_position {least : Nat} (le : ∀ a ∈ axes, least ≤ a.stride)
    (moved : position axes c ≠ 0) : least ≤ position axes c := by
  induction axes generalizing c with
  | nil => exact absurd rfl moved
  | cons a axes ih =>
    cases c with
    | nil => exact absurd rfl moved
    | cons i is =>
      rw [List.forall_mem_cons] at le
      rw [position] at moved ⊢
      cases i with
      | zero =>
        rw [Nat.zero_mul, Nat.zero_add] at moved ⊢
        exact ih le.2 moved
      | succ i =>
        have hstep : a.stride ≤ (i + 1) * a.stride := Nat.le_mul_of_pos_left _ i.succ_pos
        exact le.1.trans (hstep.trans (Nat.le_add_right _ _))

theorem exists_position_eq_zero (pos : 0 < volume (extents axes)) :
    ∃ c, Within (extents axes) c ∧ position axes c = 0 := by
  induction axes with
  | nil => exact ⟨[], trivial, rfl⟩
  | cons a axes ih =>
    rw [extents_cons, volume_cons] at pos
    obtain ⟨c, hc, hzero⟩ := ih (Nat.pos_of_mul_pos_left pos)
    exact ⟨0 :: c, ⟨Nat.pos_of_mul_pos_right pos, hc⟩, by simp [position, hzero]⟩

/-- The axis of the shortest step steps over one block. -/
theorem stride_of_positions (pos : 0 < block) (several : 2 ≤ a.extent)
    (full : 0 < volume (extents axes)) (least : ∀ b ∈ axes, a.stride ≤ b.stride)
    (run : (positions (a :: axes)).Perm (multiples block (volume (extents (a :: axes))))) :
    a.stride = block := by
  have hnodup : (positions (a :: axes)).Nodup := run.nodup_iff.mpr (nodup_multiples pos)
  have hmany : 1 < volume (extents (a :: axes)) :=
    Nat.le_trans several (Nat.le_mul_of_pos_right a.extent full)
  obtain ⟨z, hz, hzero⟩ := exists_position_eq_zero full
  have horigin : 0 :: z ∈ coordinates (extents (a :: axes)) :=
    mem_coordinates.mpr ⟨Nat.lt_of_lt_of_le Nat.two_pos several, hz⟩
  have hnext : 1 :: z ∈ coordinates (extents (a :: axes)) := mem_coordinates.mpr ⟨several, hz⟩
  have hstep : position (a :: axes) (1 :: z) = a.stride := by simp [position, hzero]
  have hmoves : a.stride ≠ 0 := by
    intro hstill
    have hsame : position (a :: axes) (0 :: z) = position (a :: axes) (1 :: z) := by
      rw [hstep, hstill]
      simp [position, hzero]
    have := List.inj_on_of_nodup_map hnodup horigin hnext hsame
    exact absurd this (by simp)
  apply Nat.le_antisymm
  · -- One block is a position, and not that of the origin.
    have hblock : block ∈ positions (a :: axes) :=
      run.mem_iff.mpr (mem_multiples.mpr ⟨1, hmany, Nat.one_mul block⟩)
    obtain ⟨c, -, hc⟩ := mem_positions.mp hblock
    rw [← hc]
    exact stride_le_position (List.forall_mem_cons.mpr ⟨Nat.le_refl _, least⟩) (by omega)
  · have hmem : a.stride ∈ positions (a :: axes) :=
      mem_positions.mpr ⟨_, mem_coordinates.mp hnext, hstep⟩
    obtain ⟨k, -, hk⟩ := mem_multiples.mp (run.mem_iff.mp hmem)
    rw [← hk] at hmoves ⊢
    exact Nat.le_mul_of_pos_left block (Nat.pos_of_mul_pos_right (Nat.pos_of_ne_zero hmoves))

/-- Axes that take steps, by ascending stride, tile the run of blocks that they address. -/
theorem tiles_of_positions (pos : 0 < block) (several : ∀ a ∈ axes, 2 ≤ a.extent)
    (sorted : axes.Pairwise fun a b => a.stride ≤ b.stride)
    (run : (positions axes).Perm (multiples block (volume (extents axes)))) :
    tiles block axes = true := by
  induction axes generalizing block with
  | nil => rfl
  | cons a outer ih =>
    rw [List.forall_mem_cons] at several
    rw [List.pairwise_cons] at sorted
    have hfull : 0 < volume (extents outer) := by
      rw [volume_pos_iff]
      intro d hd
      obtain ⟨b, hb, rfl⟩ := List.mem_map.mp hd
      exact Nat.lt_of_lt_of_le Nat.two_pos (several.2 b hb)
    have hstride := stride_of_positions pos several.1 hfull sorted.1 run
    have hrest :
        (positions outer).Perm (multiples (block * a.extent) (volume (extents outer))) := by
      have horigin : 0 ∈ multiples block a.extent :=
        mem_multiples.mpr ⟨0, by omega, Nat.zero_mul block⟩
      rw [positions_cons, extents_cons, volume_cons, hstride] at run
      exact perm_of_sums horigin (run.trans (multiples_mul block a.extent _))
    rw [tiles, Bool.and_eq_true, beq_iff_eq]
    exact ⟨hstride, ih (Nat.mul_pos pos (by omega)) several.2 sorted.2 hrest⟩

/-- The positions are the numbers below a bound, each once, if the coordinates match them. -/
theorem positions_perm_range_iff : (positions axes).Perm (List.range n) ↔
    Set.BijOn (position axes) {c | Within (extents axes) c} (Set.Iio n) := by
  constructor
  · intro perm
    refine ⟨?_, ?_, ?_⟩
    · intro c hc
      exact List.mem_range.mp (perm.mem_iff.mp (mem_positions.mpr ⟨c, hc, rfl⟩))
    · intro c hc e he same
      exact List.inj_on_of_nodup_map (perm.nodup_iff.mpr List.nodup_range)
        (mem_coordinates.mpr hc) (mem_coordinates.mpr he) same
    · intro i hi
      exact mem_positions.mp (perm.mem_iff.mpr (List.mem_range.mpr hi))
  · intro bijective
    have hnodup : (positions axes).Nodup := (nodup_coordinates _).map_on fun c hc e he same =>
      bijective.injOn (mem_coordinates.mp hc) (mem_coordinates.mp he) same
    rw [List.perm_ext_iff_of_nodup hnodup List.nodup_range]
    intro i
    rw [mem_positions, List.mem_range]
    constructor
    · intro hi
      obtain ⟨c, hc, rfl⟩ := hi
      exact bijective.mapsTo hc
    · intro hi
      exact bijective.surjOn hi

end Axis

namespace Tensor
variable {t : Tensor}

theorem positions_steppingAxes (t : Tensor) :
    (Axis.positions t.steppingAxes).Perm (Axis.positions t.axes) := by
  have hperm := Axis.positions_perm t.steppingAxes_perm
  rwa [Axis.positions_filter] at hperm

theorem isDense_iff_tiles (pos : 0 < t.numel) :
    t.isDense = true ↔ tiles 1 t.steppingAxes = true := by
  rw [isDense, Bool.or_eq_true, beq_iff_eq]
  exact or_iff_right pos.ne'

/-- A view with elements is dense when its positions are the numbers below the number of them. -/
theorem isDense_iff_positions (pos : 0 < t.numel) :
    t.isDense = true ↔ (Axis.positions t.axes).Perm (List.range t.numel) := by
  rw [isDense_iff_tiles pos, ← t.volume_steppingAxes, ← multiples_one]
  constructor
  · intro tiled
    exact t.positions_steppingAxes.symm.trans (Axis.positions_of_tiles tiled)
  · intro run
    have hseveral : ∀ a ∈ t.steppingAxes, 2 ≤ a.extent := by
      intro a ha
      obtain ⟨hmem, hstep⟩ := List.mem_filter.mp (t.steppingAxes_perm.mem_iff.mp ha)
      have hextent := volume_pos_iff.mp pos a.extent (List.mem_map_of_mem hmem)
      rw [bne_iff_ne] at hstep
      omega
    exact Axis.tiles_of_positions Nat.one_pos hseveral t.pairwise_steppingAxes
      (t.positions_steppingAxes.trans run)

/-- The coordinates of a dense view match the numbers below the number of elements. -/
theorem bijOn_position (pos : 0 < t.numel) (dense : t.isDense = true) :
    Set.BijOn (Axis.position t.axes) {c | Within t.dims c} (Set.Iio t.numel) :=
  Axis.positions_perm_range_iff.mp ((isDense_iff_positions pos).mp dense)

theorem maxOffset_of_isDense (pos : 0 < t.numel) (dense : t.isDense = true) :
    t.maxOffset + 1 = t.numel := by
  have hbijective := bijOn_position pos dense
  rw [maxOffset, if_neg pos.ne']
  apply Nat.le_antisymm
  · obtain ⟨c, hc, hreach⟩ := Axis.exists_position_eq_reach pos
    rw [← hreach]
    exact hbijective.mapsTo hc
  · have hlast : t.numel - 1 < t.numel := Nat.sub_one_lt pos.ne'
    obtain ⟨c, hc, hposition⟩ := hbijective.surjOn hlast
    have hle := Axis.position_le_reach hc
    omega

/-- The test for density is exact: of the views whose elements can be counted in a word, it passes
just those whose coordinates match the numbers below the number of elements, in words as well. -/
theorem isDense_iff_bijOn (t : Tensor) (pos : 0 < t.numel) (words : t.numel ≤ wordMax) :
    (t.isDense = true ↔
      Set.BijOn (Axis.position t.axes) {c | Within t.dims c} (Set.Iio t.numel)) ∧
    t.isDenseInWords = t.isDense := by
  constructor
  · rw [isDense_iff_positions pos]
    exact Axis.positions_perm_range_iff
  · exact isDenseInWords_of_le words

/-- A transposed view, with an axis of one element whose stride fits nowhere. -/
def transposed : Tensor := ⟨0, 0, [⟨3, 1⟩, ⟨1, 7⟩, ⟨2, 3⟩], .u8⟩

/-- Two rows that share their middle element. -/
def folded : Tensor := ⟨0, 0, [⟨2, 1⟩, ⟨2, 1⟩], .u8⟩

theorem isDense_iff_bijOn_transposed :
    0 < transposed.numel ∧ 0 < folded.numel ∧ transposed.numel + folded.numel ≤ wordMax ∧
      Set.BijOn (Axis.position transposed.axes) {c | Within [3, 1, 2] c} (Set.Iio 6) ∧
      ¬Set.BijOn (Axis.position folded.axes) {c | Within [2, 2] c} (Set.Iio 4) ∧
      folded.isDenseInWords = false := by
  have hdense : transposed.isDense = true := by cbv
  have hfolded : folded.isDense = false := by cbv
  obtain ⟨hexact, -⟩ := isDense_iff_bijOn transposed (by decide) (by decide)
  obtain ⟨hgapped, hwords⟩ := isDense_iff_bijOn folded (by decide) (by decide)
  refine ⟨by decide, by decide, by decide, hexact.mp hdense, ?_, hwords.trans hfolded⟩
  intro bijective
  have hpasses := hgapped.mpr bijective
  rw [hfolded] at hpasses
  exact absurd hpasses (by simp)

/-- More elements than a word can count pass for none. -/
example : (⟨0, 0, [⟨2 ^ 32, 0⟩, ⟨2 ^ 32, 0⟩], .u8⟩ : Tensor).isDense = false ∧
    (⟨0, 0, [⟨2 ^ 32, 0⟩, ⟨2 ^ 32, 0⟩], .u8⟩ : Tensor).isDenseInWords = true := by cbv

end Tensor

end TensorConcat
