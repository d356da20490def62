import Mathlib
import TensorConcat.Layout.Format

/-!
# Coordinates as numbers

Row-major order numbers the coordinates below a list of extents: `index` counts
the coordinates before a given one and `digits` finds the coordinate with a given
number. Both are inverse to each other, so a list of coordinates is the list of
the numbers below its volume, read through `digits`.

A coordinate may be looked at in memory order as well. Rearranging the axes and
the coordinate alike changes neither which element is addressed nor whether the
coordinate is below the extents.
-/

namespace TensorConcat

/-- The number of a coordinate in row-major order. -/
def index : List Nat → List Nat → Nat
  | _ :: ds, i :: is => i * volume ds + index ds is
  | _, _ => 0

/-- The coordinate with a given number in row-major order. -/
def digits : List Nat → Nat → List Nat
  | [], _ => []
  | _ :: ds, n => n / volume ds :: digits ds (n % volume ds)

/-- The row of the number `c` places into row `a`. -/
theorem mul_add_div_of_lt {a b c : Nat} (h : c < b) : (a * b + c) / b = a := by
  rw [Nat.mul_comm, Nat.mul_add_div (Nat.zero_lt_of_lt h), Nat.div_eq_of_lt h, Nat.add_zero]

@[simp] theorem volume_nil : volume [] = 1 := rfl

@[simp] theorem volume_cons (d : Nat) (ds : List Nat) : volume (d :: ds) = d * volume ds := rfl

theorem volume_append (ds es : List Nat) : volume (ds ++ es) = volume ds * volume es := by
  induction ds with
  | nil => simp
  | cons d ds ih => simp [ih, Nat.mul_assoc]

theorem volume_perm {ds es : List Nat} (h : ds.Perm es) : volume ds = volume es := by
  induction h with
  | nil => rfl
  | cons d _ ih => simp [ih]
  | swap d e ds => simp [Nat.mul_left_comm]
  | trans _ _ ih₁ ih₂ => exact ih₁.trans ih₂

theorem volume_eq_prod (ds : List Nat) : volume ds = ds.prod := by
  induction ds with
  | nil => rfl
  | cons d ds ih => rw [volume_cons, ih, List.prod_cons]

theorem volume_pos_iff {ds : List Nat} : 0 < volume ds ↔ ∀ d ∈ ds, 0 < d := by
  induction ds with
  | nil => simp
  | cons d ds ih =>
    rw [volume_cons, List.forall_mem_cons, ← ih]
    simp only [Nat.pos_iff_ne_zero, ne_eq, Nat.mul_eq_zero, not_or]

theorem le_volume {ds : List Nat} {d : Nat} (pos : 0 < volume ds) (hd : d ∈ ds) :
    d ≤ volume ds := by
  rw [volume_eq_prod] at *
  exact Nat.le_of_dvd pos (List.dvd_prod hd)

/-- A smaller extent makes a smaller volume. -/
theorem volume_set_le {ds : List Nat} {axis d : Nat} (h : d ≤ ds.getD axis 0) :
    volume (ds.set axis d) ≤ volume ds := by
  induction ds generalizing axis with
  | nil => simp
  | cons e ds ih => cases axis with
    | zero => exact Nat.mul_le_mul_right _ (by simpa using h)
    | succ axis => exact Nat.mul_le_mul_left _ (ih (by simpa using h))

theorem length_digits (ds : List Nat) (n : Nat) : (digits ds n).length = ds.length := by
  induction ds generalizing n with
  | nil => rfl
  | cons d ds ih => simp [digits, ih]

namespace Within

theorem length_eq {ds c : List Nat} (h : Within ds c) : c.length = ds.length := by
  induction ds generalizing c with
  | nil => cases c with
    | nil => rfl
    | cons i is => exact h.elim
  | cons d ds ih => cases c with
    | nil => exact h.elim
    | cons i is => simp [ih h.2]

theorem volume_pos {ds c : List Nat} (h : Within ds c) : 0 < volume ds := by
  induction ds generalizing c with
  | nil => simp
  | cons d ds ih => cases c with
    | nil => exact h.elim
    | cons i is =>
      have hd : 0 < d := Nat.zero_lt_of_lt h.1
      exact Nat.mul_pos hd (ih h.2)

end Within

theorem within_iff_getElem {ds c : List Nat} :
    Within ds c ↔ c.length = ds.length ∧ ∀ i < ds.length, c.getD i 0 < ds.getD i 0 := by
  induction ds generalizing c with
  | nil => cases c <;> simp [Within]
  | cons d ds ih =>
    cases c with
    | nil => simp [Within]
    | cons i is =>
      simp only [Within, ih, List.length_cons, Nat.add_right_cancel_iff]
      constructor
      · intro hwithin
        rcases hwithin with ⟨hi, hl, hs⟩
        refine ⟨hl, fun j hj => ?_⟩
        cases j with
        | zero => simpa using hi
        | succ j => simpa using hs j (by omega)
      · intro hbounds
        rcases hbounds with ⟨hl, hs⟩
        refine ⟨by simpa using hs 0 (by omega), hl, fun j hj => ?_⟩
        simpa using hs (j + 1) (by omega)

theorem Within.getD_lt {ds c : List Nat} (h : Within ds c) {i : Nat} (hi : i < ds.length) :
    c.getD i 0 < ds.getD i 0 := (within_iff_getElem.mp h).2 i hi

theorem index_lt {ds c : List Nat} (h : Within ds c) : index ds c < volume ds := by
  induction ds generalizing c with
  | nil => cases c <;> simp [index]
  | cons d ds ih => cases c with
    | nil => exact h.elim
    | cons i is =>
      have hrest := ih h.2
      have hrow := Nat.mul_le_mul_right (volume ds) (Nat.succ_le_of_lt h.1)
      simp only [index, volume_cons]
      rw [Nat.succ_mul] at hrow
      omega

theorem within_digits {ds : List Nat} {n : Nat} (h : n < volume ds) : Within ds (digits ds n) := by
  induction ds generalizing n with
  | nil => trivial
  | cons d ds ih =>
    have hpos : 0 < volume ds := Nat.pos_of_mul_pos_left (Nat.zero_lt_of_lt h)
    exact ⟨(Nat.div_lt_iff_lt_mul hpos).mpr h, ih (Nat.mod_lt n hpos)⟩

theorem index_digits {ds : List Nat} {n : Nat} (h : n < volume ds) : index ds (digits ds n) = n := by
  induction ds generalizing n with
  | nil =>
    simp only [volume_nil] at h
    simp only [index]
    omega
  | cons d ds ih =>
    have hpos : 0 < volume ds := Nat.pos_of_mul_pos_left (Nat.zero_lt_of_lt h)
    simp only [digits, index, ih (Nat.mod_lt n hpos)]
    exact Nat.div_add_mod' n (volume ds)

theorem digits_index {ds c : List Nat} (h : Within ds c) : digits ds (index ds c) = c := by
  induction ds generalizing c with
  | nil => cases c with
    | nil => rfl
    | cons i is => exact h.elim
  | cons d ds ih => cases c with
    | nil => exact h.elim
    | cons i is =>
      have hlt := index_lt h.2
      simp only [index, digits, List.cons.injEq]
      constructor
      · rw [mul_add_div_of_lt hlt]
      · rw [Nat.mul_add_mod_of_lt hlt, ih h.2]

/-- The coordinates below the extents, one for each number. -/
theorem coordinates_eq_map_digits (ds : List Nat) :
    coordinates ds = (List.range (volume ds)).map (digits ds) := by
  induction ds with
  | nil => rfl
  | cons d ds ih =>
    induction d with
    | zero => simp [coordinates]
    | succ d ihd =>
      have hlast : (List.range (volume ds)).map (fun n => d :: digits ds n) =
          ((List.range (volume ds)).map (d * volume ds + ·)).map (digits (d :: ds)) := by
        rw [List.map_map]
        apply List.map_congr_left
        intro n hn
        have hn := List.mem_range.mp hn
        simp only [Function.comp_apply, digits, List.cons.injEq]
        rw [mul_add_div_of_lt hn, Nat.mul_add_mod_of_lt hn]
        exact ⟨rfl, rfl⟩
      rw [volume_cons, Nat.succ_mul, List.range_add, List.map_append]
      simp only [coordinates, List.range_succ, List.flatMap_append, List.flatMap_cons,
        List.flatMap_nil, List.append_nil] at ihd ⊢
      rw [ihd, ih, List.map_map]
      congr 1

theorem nodup_coordinates (ds : List Nat) : (coordinates ds).Nodup := by
  rw [coordinates_eq_map_digits]
  refine List.Nodup.map_on ?_ List.nodup_range
  intro m hm n hn same
  rw [← index_digits (List.mem_range.mp hm), same, index_digits (List.mem_range.mp hn)]

namespace MemoryFormat

@[simp] theorem length_arrange {α : Type} (f : MemoryFormat) (xs : List α) :
    (f.arrange xs).length = xs.length := (f.arrange_perm xs).length_eq

theorem arrange_zip {α β : Type} (f : MemoryFormat) {xs : List α} {ys : List β}
    (h : xs.length = ys.length) : f.arrange (xs.zip ys) = (f.arrange xs).zip (f.arrange ys) := by
  obtain ⟨ps, rfl, rfl⟩ : ∃ ps : List (α × β), xs = ps.map Prod.fst ∧ ys = ps.map Prod.snd :=
    ⟨xs.zip ys, (List.map_fst_zip (Nat.le_of_eq h)).symm,
      (List.map_snd_zip (Nat.le_of_eq h.symm)).symm⟩
  rw [arrange_map, arrange_map, List.zip_map', List.zip_map', List.map_id', List.map_id']

theorem volume_arrange (f : MemoryFormat) (ds : List Nat) : volume (f.arrange ds) = volume ds :=
  volume_perm (f.arrange_perm ds)

end MemoryFormat

theorem within_iff_zip {ds c : List Nat} :
    Within ds c ↔ c.length = ds.length ∧ ∀ p ∈ ds.zip c, p.2 < p.1 := by
  induction ds generalizing c with
  | nil => cases c <;> simp [Within]
  | cons d ds ih =>
    cases c with
    | nil => simp [Within]
    | cons i is =>
      simp only [Within, ih, List.length_cons, Nat.add_right_cancel_iff, List.zip_cons_cons,
        List.forall_mem_cons]
      exact and_left_comm

theorem within_arrange (f : MemoryFormat) {ds c : List Nat} (h : c.length = ds.length) :
    Within (f.arrange ds) (f.arrange c) ↔ Within ds c := by
  rw [within_iff_zip, within_iff_zip, ← f.arrange_zip h.symm]
  simp only [MemoryFormat.length_arrange, h, true_and]
  exact forall_congr' fun p => by rw [(f.arrange_perm _).mem_iff]

namespace Axis

theorem position_eq_sum (axes : List Axis) (c : List Nat) :
    position axes c = ((axes.zip c).map fun p => p.2 * p.1.stride).sum := by
  induction axes generalizing c with
  | nil => simp [position]
  | cons a axes ih => cases c with
    | nil => simp [position]
    | cons i is => simp [position, ih]

theorem position_arrange (f : MemoryFormat) {axes : List Axis} {c : List Nat}
    (h : c.length = axes.length) : position (f.arrange axes) (f.arrange c) = position axes c := by
  rw [position_eq_sum, position_eq_sum, ← f.arrange_zip h.symm]
  exact ((f.arrange_perm _).map _).sum_nat

theorem length_extents (axes : List Axis) : (extents axes).length = axes.length :=
  List.length_map _

theorem pair_extents_strides (axes : List Axis) : pair (extents axes) (strides axes) = axes := by
  induction axes with
  | nil => rfl
  | cons a axes ih => simpa [pair] using ih

theorem position_le_reach {axes : List Axis} {c : List Nat} (h : Within (extents axes) c) :
    position axes c ≤ reach axes := by
  induction axes generalizing c with
  | nil => simp [position]
  | cons a axes ih => cases c with
    | nil => simp [position]
    | cons i is =>
      have hstep : i * a.stride ≤ (a.extent - 1) * a.stride :=
        Nat.mul_le_mul_right _ (Nat.le_sub_one_of_lt h.1)
      have hrest := ih h.2
      simp only [position, reach, List.foldr_cons] at hrest ⊢
      omega

/-- Some coordinate has the largest position. -/
theorem exists_position_eq_reach {axes : List Axis} (pos : 0 < volume (extents axes)) :
    ∃ c, Within (extents axes) c ∧ position axes c = reach axes := by
  induction axes with
  | nil => exact ⟨[], trivial, rfl⟩
  | cons a axes ih =>
    rw [extents_cons, volume_cons] at pos
    rcases ih (Nat.pos_of_mul_pos_left pos) with ⟨c, hc, hreach⟩
    have hlast : a.extent - 1 < a.extent := Nat.sub_one_lt (Nat.pos_of_mul_pos_right pos).ne'
    exact ⟨(a.extent - 1) :: c, ⟨hlast, hc⟩, congrArg ((a.extent - 1) * a.stride + ·) hreach⟩

theorem reach_perm {axes axes' : List Axis} (perm : axes.Perm axes') : reach axes = reach axes' := by
  induction perm with
  | nil => rfl
  | cons a _ ih => exact congrArg ((a.extent - 1) * a.stride + ·) ih
  | swap a b axes => exact Nat.add_left_comm _ _ _
  | trans _ _ first second => exact first.trans second

/-- Moving along one axis adds whole strides. -/
theorem position_set {axes : List Axis} {axis : Nat} (h : axis < axes.length) {c : List Nat}
    (hc : c.length = axes.length) (i : Nat) :
    position axes (c.set axis (c.getD axis 0 + i)) =
      position axes c + i * (strides axes).getD axis 0 := by
  induction axes generalizing axis c with
  | nil => simp at h
  | cons a axes ih => cases c with
    | nil => simp at hc
    | cons j js =>
      cases axis with
      | zero =>
        simp only [List.set_cons_zero, List.getD_cons_zero, position, strides_cons, Nat.add_mul]
        omega
      | succ axis =>
        have hax : axis < axes.length := by simpa using h
        have hjs : js.length = axes.length := by simpa using hc
        simp only [List.set_cons_succ, List.getD_cons_succ, position, strides_cons, ih hax hjs]
        omega

/-- Positions do not depend on the extents. -/
theorem position_set_extent (axes : List Axis) (axis extent : Nat) (c : List Nat) :
    position (axes.set axis ⟨extent, (strides axes).getD axis 0⟩) c = position axes c := by
  induction axes generalizing axis c with
  | nil => rfl
  | cons a axes ih => cases c with
    | nil => cases axis <;> rfl
    | cons i is => cases axis with
      | zero => simp [position]
      | succ axis => exact congrArg (i * a.stride + ·) (ih axis is)

end Axis

end TensorConcat
