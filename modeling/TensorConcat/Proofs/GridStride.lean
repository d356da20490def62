import TensorConcat.Device.Range
import TensorConcat.Proofs.Coordinates
import TensorConcat.Proofs.Words

/-!
# A grid of items shares out the elements of each row

A launch over a grid of `w` items by `g` groups by `n` rows gives every row `g * w`
items, which start at the numbers below the width of the row and step by that
width. Together the items of one row visit each number below the row's count
exactly once, whatever the geometry; an item that starts beyond the count visits
none.

The step that would pass the largest word stops there. Since a count is a word,
such a step ends the loop as well.
-/

namespace TensorConcat

namespace Number

/-- What an item visits: the numbers from its first one on that leave the same rest. -/
theorem mem_visits {count stride first w : UInt32} (hs : 0 < stride.toNat) :
    w ∈ visits count stride first ↔
      first.toNat ≤ w.toNat ∧ w.toNat < count.toNat ∧
        w.toNat % stride.toNat = first.toNat % stride.toNat := by
  fun_induction visits count stride first with
  | case1 first h ih =>
    have hlt : first.toNat < count.toNat := UInt32.lt_iff_toNat_lt.mp h.1
    have hcount := count.toNat_lt
    rw [List.mem_cons, ih, toNat_saturatingAdd]
    constructor
    · intro hcase
      rcases hcase with rfl | ⟨hge, hw, hrest⟩
      · exact ⟨le_rfl, hlt, rfl⟩
      · refine ⟨by omega, hw, ?_⟩
        rw [Nat.min_eq_left (by omega), Nat.add_mod_right] at hrest
        exact hrest
    · intro hlater
      rcases hlater with ⟨hge, hw, hrest⟩
      by_cases same : w.toNat = first.toNat
      · exact .inl (UInt32.toNat_inj.mp same)
      · -- The next number with this rest is a whole stride away.
        have hdvd : stride.toNat ∣ w.toNat - first.toNat :=
          Nat.dvd_of_mod_eq_zero (Nat.sub_mod_eq_zero_of_mod_eq hrest)
        have hstep := Nat.le_of_dvd (by omega) hdvd
        refine .inr ⟨by omega, hw, ?_⟩
        rw [Nat.min_eq_left (by omega), Nat.add_mod_right]
        exact hrest
  | case2 first h =>
    have hle : ¬first.toNat < count.toNat := by
      intro hlt
      exact h ⟨UInt32.lt_iff_toNat_lt.mpr hlt, UInt32.lt_iff_toNat_lt.mpr (by simpa using hs)⟩
    simp only [List.not_mem_nil, false_iff]
    omega

theorem nodup_visits {count stride first : UInt32} (hs : 0 < stride.toNat) :
    (visits count stride first).Nodup := by
  fun_induction visits count stride first with
  | case1 first h ih =>
    have hlt : first.toNat < count.toNat := UInt32.lt_iff_toNat_lt.mp h.1
    have hcount := count.toNat_lt
    rw [List.nodup_cons]
    refine ⟨?_, ih⟩
    rw [mem_visits hs, toNat_saturatingAdd]
    omega
  | case2 first h => exact .nil

/-- All items of a row together visit each number below the count once. -/
theorem visits_perm {count width : UInt32} (hw : 0 < width.toNat) :
    ((List.range width.toNat).flatMap fun x => visits count width (UInt32.ofNat x)).Perm
      ((List.range count.toNat).map UInt32.ofNat) := by
  have hfirst : ∀ x < width.toNat, (UInt32.ofNat x).toNat = x :=
    fun x hx => toNat_ofNat_of_lt (Nat.lt_trans hx width.toNat_lt)
  have hnumber : ∀ n < count.toNat, (UInt32.ofNat n).toNat = n :=
    fun n hn => toNat_ofNat_of_lt (Nat.lt_trans hn count.toNat_lt)
  have hleft : ((List.range width.toNat).flatMap
      fun x => visits count width (UInt32.ofNat x)).Nodup := by
    rw [List.nodup_flatMap]
    refine ⟨fun x _ => nodup_visits hw, ?_⟩
    apply List.nodup_range.imp_of_mem
    intro x y hx hy hne
    have hx := List.mem_range.mp hx
    have hy := List.mem_range.mp hy
    intro w hwx hwy
    rw [mem_visits hw, hfirst x hx, Nat.mod_eq_of_lt hx] at hwx
    rw [mem_visits hw, hfirst y hy, Nat.mod_eq_of_lt hy] at hwy
    exact hne (hwx.2.2.symm.trans hwy.2.2)
  have hright : ((List.range count.toNat).map UInt32.ofNat).Nodup := by
    refine List.Nodup.map_on (fun m hm n hn same => ?_) List.nodup_range
    rw [← hnumber m (List.mem_range.mp hm), same, hnumber n (List.mem_range.mp hn)]
  apply (List.perm_ext_iff_of_nodup hleft hright).mpr
  intro w
  simp only [List.mem_flatMap, List.mem_map, List.mem_range]
  constructor
  · intro hvisited
    rcases hvisited with ⟨x, hx, hv⟩
    exact ⟨w.toNat, ((mem_visits hw).mp hv).2.1, UInt32.ofNat_toNat⟩
  · intro hcase
    rcases hcase with ⟨n, hn, rfl⟩
    have hrest := Nat.mod_lt n hw
    refine ⟨n % width.toNat, hrest, (mem_visits hw).mpr ?_⟩
    rw [hfirst _ hrest, hnumber n hn, Nat.mod_mod]
    exact ⟨Nat.mod_le .., hn, rfl⟩

end Number

/-- A run of numbers in rows. -/
theorem flatMap_range_mul {α : Type} (rows width : Nat) (f : Nat → Nat → List α) :
    (List.range (rows * width)).flatMap (fun k => f (k / width) (k % width)) =
      (List.range rows).flatMap fun y => (List.range width).flatMap fun x => f y x := by
  induction rows with
  | zero => simp
  | succ rows ih =>
    rw [Nat.succ_mul, List.range_add, List.flatMap_append, ih, List.range_succ,
      List.flatMap_append, List.flatMap_singleton, List.flatMap_map]
    congr 1
    apply List.flatMap_congr
    intro x hx
    have hx := List.mem_range.mp hx
    rw [mul_add_div_of_lt hx, Nat.mul_add_mod_of_lt hx]

namespace Range2

open Number

/-- A range of `n` rows of `g` groups of `w` items. -/
def grid (g w n : UInt32) : Range2 := ⟨⟨g * w, n⟩, ⟨w, 1⟩⟩

/-- The item of a row that starts at `x`. -/
def gridItem (g w n : UInt32) (y x : Nat) : WorkItem :=
  ⟨⟨UInt32.ofNat (x / w.toNat), UInt32.ofNat y⟩, ⟨UInt32.ofNat (x % w.toNat), 0⟩, ⟨w, 1⟩, ⟨g, n⟩⟩

section Grid
variable {g w n : UInt32}

theorem groups_grid (hw : 0 < w.toNat) (fits : g.toNat * w.toNat < 2 ^ 32) :
    (grid g w n).groups = ⟨g, n⟩ := by
  have hx : g * w / w = g := by
    rw [← UInt32.toNat_inj, UInt32.toNat_div, UInt32.toNat_mul, Nat.mod_eq_of_lt fits,
      Nat.mul_div_cancel _ hw]
  have hy : n / 1 = n := by
    rw [← UInt32.toNat_inj, UInt32.toNat_div]
    exact Nat.div_one _
  simp only [groups, grid, hx, hy]

theorem validate_grid (hw : 0 < w.toNat) (fits : g.toNat * w.toNat < 2 ^ 32) :
    (grid g w n).validate w = .ok ⟨g, n⟩ := by
  have hzero : w ≠ 0 := by
    intro hcase
    rcases hcase with rfl
    simp at hw
  have hx : g * w % w = 0 := by
    rw [← UInt32.toNat_inj, UInt32.toNat_mod, UInt32.toNat_mul, Nat.mod_eq_of_lt fits,
      Nat.mul_mod_left]
    rfl
  have hy : n % 1 = 0 := by
    rw [← UInt32.toNat_inj, UInt32.toNat_mod]
    exact Nat.mod_one _
  have hempty : ¬((grid g w n).workGroup.x = 0 ∨ (grid g w n).workGroup.y = 0) := by
    intro hcase
    rcases hcase with h | h
    · exact hzero h
    · exact absurd (show (1 : UInt32) = 0 from h) (by decide)
  have haligned : ¬((grid g w n).global.x % (grid g w n).workGroup.x ≠ 0 ∨
      (grid g w n).global.y % (grid g w n).workGroup.y ≠ 0) := by
    intro hcase
    rcases hcase with h | h
    · exact h hx
    · exact h hy
  have hsize : (grid g w n).workGroup.x.toNat * (grid g w n).workGroup.y.toNat = w.toNat :=
    Nat.mul_one _
  rw [validate, if_neg hempty, if_neg haligned, hsize, if_neg (Nat.lt_irrefl _),
    groups_grid hw fits]

/-- The items of a launch, row after row. -/
theorem items_grid (hw : 0 < w.toNat) (fits : g.toNat * w.toNat < 2 ^ 32) :
    (grid g w n).items = (List.range n.toNat).flatMap fun y =>
      (List.range (g.toNat * w.toNat)).map (gridItem g w n y) := by
  have hrow : ∀ y, (List.range (g.toNat * w.toNat)).map (gridItem g w n y) =
      (List.range g.toNat).flatMap fun group => (List.range w.toNat).flatMap fun x =>
        [⟨⟨UInt32.ofNat group, UInt32.ofNat y⟩, ⟨UInt32.ofNat x, 0⟩, ⟨w, 1⟩, ⟨g, n⟩⟩] := by
    intro y
    rw [← flatMap_range_mul, List.map_eq_flatMap]
    rfl
  simp only [hrow]
  rw [← flatMap_range_mul n.toNat g.toNat fun y group => (List.range w.toNat).flatMap fun x =>
    [(⟨⟨UInt32.ofNat group, UInt32.ofNat y⟩, ⟨UInt32.ofNat x, 0⟩, ⟨w, 1⟩, ⟨g, n⟩⟩ : WorkItem)],
    items, groupCount, groups_grid hw fits, Nat.mul_comm g.toNat]
  apply List.flatMap_congr
  intro k _
  rw [groupItems, groupAt, groups_grid hw fits, ← List.map_eq_flatMap]
  exact List.append_nil _

/-- The number an item starts at is found without overflow. -/
theorem first_gridItem (fits : g.toNat * w.toNat < 2 ^ 32) {y x : Nat}
    (hx : x < g.toNat * w.toNat) :
    (do addWord (← mulWord (gridItem g w n y x).group.x (gridItem g w n y x).localRange.x)
          (gridItem g w n y x).localId.x) = .ok (UInt32.ofNat x) := by
  have hword : x < 2 ^ 32 := Nat.lt_trans hx fits
  have hgroup := toNat_ofNat_of_lt (Nat.lt_of_le_of_lt (Nat.div_le_self x w.toNat) hword)
  have hlocal := toNat_ofNat_of_lt (Nat.lt_of_le_of_lt (Nat.mod_le x w.toNat) hword)
  have hblock : x / w.toNat * w.toNat < 2 ^ 32 :=
    Nat.lt_of_le_of_lt (Nat.div_mul_le_self x w.toNat) hword
  simp only [gridItem, mulWord, addWord, hgroup, hlocal, word_eq hblock, bind, Except.bind,
    toNat_ofNat_of_lt hblock]
  rw [Nat.mul_comm, Nat.div_add_mod, word_eq hword]

theorem stride_gridItem (fits : g.toNat * w.toNat < 2 ^ 32) (y x : Nat) :
    mulWord (gridItem g w n y x).groupRange.x (gridItem g w n y x).localRange.x =
      .ok (UInt32.ofNat (g.toNat * w.toNat)) := word_eq fits

end Grid

end Range2

end TensorConcat
