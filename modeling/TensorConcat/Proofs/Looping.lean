import TensorConcat.Concat.Launch
import TensorConcat.Proofs.LaunchItems

/-!
# The loops of a row

The items of a row start at their places and step by the width of the row; a step that would pass
the largest word stops there. So after `k` rounds a loop is at its start and `k` widths, or at the
largest word if that is less. A count is a word as well, and a loop that has been stopped is over.

It follows that every loop ends, after as many rounds as the width goes into what its start leaves
of the count. A number below the count is found by the item at its remainder by the width, in the
round of its quotient, and by no other item and in no other round.
-/

namespace TensorConcat

namespace Number

/-- Where a loop is after some rounds. -/
def loopIndex (stride first : UInt32) (round : Nat) : UInt32 :=
  (fun index => saturatingAdd index stride)^[round] first

section Loop
variable {count stride first : UInt32} {round rounds : Nat}

theorem loopIndex_succ (stride first : UInt32) (round : Nat) :
    loopIndex stride first (round + 1) = saturatingAdd (loopIndex stride first round) stride :=
  Function.iterate_succ_apply' ..

theorem loopIndex_saturatingAdd (stride first : UInt32) (round : Nat) :
    loopIndex stride (saturatingAdd first stride) round = loopIndex stride first (round + 1) :=
  (Function.iterate_succ_apply ..).symm

/-- Having been stopped makes no difference to being stopped later. -/
theorem toNat_loopIndex (stride first : UInt32) (round : Nat) :
    (loopIndex stride first round).toNat =
      min (first.toNat + round * stride.toNat) 0xFFFFFFFF := by
  induction round with
  | zero =>
    have hfirst := first.toNat_lt
    rw [Nat.zero_mul, Nat.add_zero, Nat.min_eq_left (by omega)]
    rfl
  | succ round ih =>
    rw [loopIndex_succ, toNat_saturatingAdd, ih, Nat.succ_mul]
    omega

theorem loopIndex_lt_iff :
    loopIndex stride first round < count ↔
      first.toNat + round * stride.toNat < count.toNat := by
  have hcount := count.toNat_lt
  rw [UInt32.lt_iff_toNat_lt, toNat_loopIndex]
  omega

/-- The condition of the loop holds in the rounds before its end and in no later one. -/
def EndsAfter (count stride first : UInt32) (rounds : Nat) : Prop :=
  ∀ round, loopIndex stride first round < count ↔ round < rounds

/-- A loop that steps ends. -/
theorem endsAfter_div (hs : 0 < stride.toNat) :
    EndsAfter count stride first
      ((count.toNat - first.toNat + stride.toNat - 1) / stride.toNat) := by
  intro round
  have hround := @Nat.lt_div_iff_mul_lt stride.toNat round
    (count.toNat - first.toNat + stride.toNat - 1) hs
  rw [loopIndex_lt_iff, hround]
  omega

/-- What a loop visits are the numbers it is at in its rounds. -/
theorem visits_eq_map (hs : 0 < stride.toNat) (ends : EndsAfter count stride first rounds) :
    visits count stride first = (List.range rounds).map (loopIndex stride first) := by
  fun_induction visits count stride first generalizing rounds with
  | case1 first h ih =>
    have hpos : 0 < rounds := (ends 0).mp h.1
    obtain ⟨rest, rfl⟩ := Nat.exists_eq_add_of_lt hpos
    rw [Nat.zero_add] at ends ⊢
    have hrest : EndsAfter count stride (saturatingAdd first stride) rest := by
      intro round
      rw [loopIndex_saturatingAdd, ends, Nat.add_lt_add_iff_right]
    rw [ih hrest, List.range_succ_eq_map, List.map_cons, List.map_map]
    rfl
  | case2 first h =>
    have hover : ¬first < count :=
      fun hlt => h ⟨hlt, UInt32.lt_iff_toNat_lt.mpr (by simpa using hs)⟩
    have hnone : rounds = 0 := Nat.eq_zero_of_not_pos (mt (ends 0).mpr hover)
    rw [hnone]
    rfl

end Loop

end Number

open Number

namespace WorkItem

/-- Where the loop of an item starts. -/
def first (i : WorkItem) : UInt32 := i.globalId.x

/-- How far the loop of an item steps. -/
def stride (i : WorkItem) : UInt32 := i.groupRange.x * i.localRange.x

/-- Where the loop of an item is after some rounds. -/
def indexAt (i : WorkItem) (round : Nat) : UInt32 := loopIndex i.stride i.first round

end WorkItem

namespace Range2
variable {g w rows : UInt32} {i j : WorkItem}

/-- The row of an item. -/
theorem row_grid (hi : i ∈ (grid g w rows).items) : i.globalId.y = i.group.y := by
  have inner := inner_of_mem hi
  obtain ⟨-, hrow⟩ := inner.toNat_globalId
  have htop : i.localId.y.toNat < 1 := inner.top
  have hheight : i.localRange.y.toNat = 1 := by
    rw [inner.localRange]
    rfl
  rw [← UInt32.toNat_inj, hrow, hheight]
  omega

section Width
variable (fits : g.toNat * w.toNat < 2 ^ 32)
include fits

theorem toNat_width : (grid g w rows).global.x.toNat = g.toNat * w.toNat := by
  rw [grid, UInt32.toNat_mul, Nat.mod_eq_of_lt fits]

theorem first_grid (hi : i ∈ (grid g w rows).items) :
    i.first.toNat = i.group.x.toNat * w.toNat + i.localId.x.toNat ∧
      i.first.toNat < g.toNat * w.toNat := by
  have inner := inner_of_mem hi
  have hplace := inner.place_x_lt
  obtain ⟨hfirst, -⟩ := inner.toNat_globalId
  rw [toNat_width fits] at hplace
  rw [WorkItem.first, hfirst]
  rw [inner.localRange] at hplace ⊢
  exact ⟨rfl, hplace⟩

variable (hw : 0 < w.toNat)
include hw

theorem stride_grid (hi : i ∈ (grid g w rows).items) : i.stride.toNat = g.toNat * w.toNat := by
  have inner := inner_of_mem hi
  rw [WorkItem.stride, inner.groupRange, inner.localRange, groups_grid hw fits]
  exact @toNat_width g w rows fits

theorem allowed_grid : (grid g w rows).Allowed w := allowed_of_validate (validate_grid hw fits)

/-- Two items of a row do not start at one place. -/
theorem eq_of_first_eq (hi : i ∈ (grid g w rows).items) (hj : j ∈ (grid g w rows).items)
    (row : i.group.y = j.group.y) (first : i.first.toNat = j.first.toNat) : i = j := by
  have honce := items_once (@allowed_grid g w rows fits hw)
  have hnodup := honce.nodup_iff.mpr (List.nodup_range.product List.nodup_range)
  refine List.inj_on_of_nodup_map hnodup hi hj ?_
  rw [row_grid hi, row_grid hj, row]
  exact Prod.ext first rfl

end Width

end Range2

namespace Launch

/-- Copies the elements at which the loop of an item is, one round after the other. -/
def copyRounds (l : Launch) (d : Descriptor Pointer) (i : WorkItem) (rounds : Nat) (h : Heap) :
    Except Fault Heap := do
  if rounds = 0 then return h
  let base ← mulWord d.offset (l.layout.strideAt l.joined)
  (List.range rounds).foldlM (fun h round => l.copyElement d base (i.indexAt round) h) h

theorem kernel_eq_copyRounds {l : Launch} {d : Descriptor Pointer} {i : WorkItem} {rounds : Nat}
    (hd : l.descriptors[i.group.y.toNat]? = some d) (hs : 0 < i.stride.toNat)
    (ends : EndsAfter d.elements i.stride i.first rounds) (h : Heap) :
    l.kernel i h = l.copyRounds d i rounds h := by
  have hstart : d.elements ≤ i.first ↔ rounds = 0 := by
    rw [← UInt32.not_lt, ← Nat.le_zero, ← Nat.not_lt]
    exact not_congr (ends 0)
  have hvisits := visits_eq_map hs ends
  unfold kernel copyRounds
  rw [hd]
  by_cases hnone : rounds = 0
  · rw [if_pos hnone]
    exact if_pos (hstart.mpr hnone)
  · rw [if_neg hnone]
    refine (if_neg (mt hstart.mp hnone)).trans (congrArg _ (funext fun base => ?_))
    change (visits d.elements i.stride i.first).foldlM
      (fun h linear => l.copyElement d base linear h) h = _
    rw [hvisits, List.foldlM_map]
    rfl

end Launch

/-- The loop of an item over `count` elements, in a row of `g` groups of `w` items: it starts at
the place of the item and steps by the width of the row, both without overflow, and it ends, also
where its step is stopped. Its rounds are what the loop visits and what a kernel copies. -/
structure WorkItem.Loops (i : WorkItem) (count g w : UInt32) (rounds : Nat) : Prop where
  first : i.first.toNat = i.group.x.toNat * w.toNat + i.localId.x.toNat
  stride : i.stride.toNat = g.toNat * w.toNat
  ends : EndsAfter count i.stride i.first rounds
  stopped : ∀ round, 2 ^ 32 ≤ (i.indexAt round).toNat + i.stride.toNat →
    (i.indexAt (round + 1)).toNat = 2 ^ 32 - 1 ∧ rounds ≤ round + 1
  visits : visits count i.stride i.first = (List.range rounds).map i.indexAt
  copies : ∀ (l : Launch) (d : Descriptor Pointer) (h : Heap),
    l.descriptors[i.group.y.toNat]? = some d → d.elements = count →
      l.kernel i h = l.copyRounds d i rounds h

section Row
variable {count g w rows : UInt32} {i : WorkItem} (fits : g.toNat * w.toNat < 2 ^ 32)
  (hw : 0 < w.toNat)
include fits hw

theorem exists_loops (hg : 0 < g.toNat) (hi : i ∈ (Range2.grid g w rows).items) :
    ∃ rounds, i.Loops count g w rounds := by
  obtain ⟨hfirst, -⟩ := Range2.first_grid fits hi
  have hstride := Range2.stride_grid fits hw hi
  have hpos : 0 < i.stride.toNat := by
    rw [hstride]
    exact Nat.mul_pos hg hw
  have ends := @endsAfter_div count i.stride i.first hpos
  refine ⟨_, hfirst, hstride, ends, fun round hlarge => ?_, visits_eq_map hpos ends,
    fun l d h hd hcount => ?_⟩
  · have hcount := count.toNat_lt
    have hstopped : (i.indexAt (round + 1)).toNat = 2 ^ 32 - 1 := by
      rw [WorkItem.indexAt, loopIndex_succ, toNat_saturatingAdd]
      exact Nat.min_eq_right (Nat.le_of_lt hlarge)
    refine ⟨hstopped, Nat.not_lt.mp fun hearly => ?_⟩
    have hlt := UInt32.lt_iff_toNat_lt.mp ((ends (round + 1)).mpr hearly)
    rw [← WorkItem.indexAt, hstopped] at hlt
    omega
  · obtain rfl := hcount
    exact Launch.kernel_eq_copyRounds hd hpos ends h

/-- The item at the remainder is at a number in the round of the quotient. -/
theorem exists_visit (hg : 0 < g.toNat) {index y : UInt32} (hy : y < rows)
    (hindex : index < count) :
    ∃ i ∈ (Range2.grid g w rows).items, ∃ round, i.group.y = y ∧
      (∀ k ≤ round, i.indexAt k < count) ∧ i.indexAt round = index := by
  have hplace : index.toNat % (g.toNat * w.toNat) < (Range2.grid g w rows).global.x.toNat := by
    rw [Range2.toNat_width fits]
    exact Nat.mod_lt _ (Nat.mul_pos hg hw)
  obtain ⟨i, hi, hfirst, hrow⟩ := Range2.exists_item (Range2.allowed_grid fits hw) hplace
    (UInt32.lt_iff_toNat_lt.mp hy)
  have hwhole : i.first.toNat + index.toNat / (g.toNat * w.toNat) * i.stride.toNat =
      index.toNat := by
    rw [WorkItem.first, hfirst, Range2.stride_grid fits hw hi]
    exact Nat.mod_add_div' ..
  refine ⟨i, hi, index.toNat / (g.toNat * w.toNat), ?_, fun k hk => ?_, ?_⟩
  · rw [← Range2.row_grid hi, ← UInt32.toNat_inj, hrow]
  · have hbefore := Nat.mul_le_mul_right i.stride.toNat hk
    have hlt := UInt32.lt_iff_toNat_lt.mp hindex
    exact loopIndex_lt_iff.mpr (by omega)
  · have hword := index.toNat_lt
    rw [← UInt32.toNat_inj, WorkItem.indexAt, toNat_loopIndex, hwhole]
    omega

/-- Where an item is in a round that it reaches gives away its start and the round. -/
theorem start_of_visit (hi : i ∈ (Range2.grid g w rows).items) {round : Nat}
    (reached : i.indexAt round < count) :
    i.first.toNat = (i.indexAt round).toNat % (g.toNat * w.toNat) ∧
      round = (i.indexAt round).toNat / (g.toNat * w.toNat) := by
  obtain ⟨-, hfirst⟩ := Range2.first_grid fits hi
  have hcount := count.toNat_lt
  have hexact : (i.indexAt round).toNat = round * (g.toNat * w.toNat) + i.first.toNat := by
    have hlt := loopIndex_lt_iff.mp reached
    rw [← Range2.stride_grid fits hw hi, WorkItem.indexAt, toNat_loopIndex]
    omega
  rw [hexact]
  exact ⟨(Nat.mul_add_mod_of_lt hfirst).symm, (mul_add_div_of_lt hfirst).symm⟩

end Row

/-- Every loop of a row ends, and each number below the count is visited by one item of the row, in
one round. -/
theorem row_visits_once (count rows : UInt32) {g w : UInt32} (hg : 0 < g) (hw : 0 < w)
    (fits : g.toNat * w.toNat < 2 ^ 32) :
    (∀ i ∈ (Range2.grid g w rows).items, ∃ rounds, i.Loops count g w rounds) ∧
    ∀ y < rows, ∀ index < count, ∃! visit : WorkItem × Nat,
      visit.1 ∈ (Range2.grid g w rows).items ∧ visit.1.group.y = y ∧
        (∀ k ≤ visit.2, visit.1.indexAt k < count) ∧ visit.1.indexAt visit.2 = index := by
  have hgroups := UInt32.lt_iff_toNat_lt.mp hg
  have hitems := UInt32.lt_iff_toNat_lt.mp hw
  refine ⟨fun i hi => exists_loops fits hitems hgroups hi, fun y hy index hindex => ?_⟩
  obtain ⟨i, hi, round, hrow, hreached, hat⟩ := exists_visit fits hitems hgroups hy hindex
  obtain ⟨hstart, hround⟩ := start_of_visit fits hitems hi (hreached round le_rfl)
  refine ⟨(i, round), ⟨hi, hrow, hreached, hat⟩, ?_⟩
  rintro ⟨j, other⟩ ⟨hj, hrowToo, hreachedToo, hatToo⟩
  obtain ⟨hstartToo, hroundToo⟩ := start_of_visit fits hitems hj (hreachedToo other le_rfl)
  simp only at hrowToo hatToo
  rw [hat] at hstart hround
  rw [hatToo] at hstartToo hroundToo
  have hitem : j = i := Range2.eq_of_first_eq fits hitems hj hi (hrowToo.trans hrow.symm)
    (hstartToo.trans hstart.symm)
  rw [hitem, hround, hroundToo]

/-- As many elements as a word can count, in steps of three quarters of that. The last element is
met in the second round of its item, and the step after it is stopped. -/
theorem row_visits_once_saturated :
    ((0 : UInt32) < 3 ∧ (0 : UInt32) < 0x40000000 ∧
      (3 : UInt32).toNat * (0x40000000 : UInt32).toNat < 2 ^ 32) ∧
    ∃ i ∈ (Range2.grid 3 0x40000000 1).items, ∃ round rounds,
      i.indexAt round = 0xFFFFFFFE ∧ i.Loops 0xFFFFFFFF 3 0x40000000 rounds ∧
      round < rounds ∧ rounds ≤ round + 1 ∧ (i.indexAt (round + 1)).toNat = 2 ^ 32 - 1 := by
  have fits : (3 : UInt32).toNat * (0x40000000 : UInt32).toNat < 2 ^ 32 := by decide
  obtain ⟨hloops, honce⟩ := row_visits_once 0xFFFFFFFF 1 (by decide) (by decide) fits
  obtain ⟨⟨i, round⟩, ⟨hi, -, hreached, hat⟩, -⟩ := honce 0 (by decide) 0xFFFFFFFE (by decide)
  obtain ⟨rounds, loops⟩ := hloops i hi
  simp only at hreached hat
  obtain ⟨hlast, hover⟩ := loops.stopped round (by rw [hat, loops.stride]; decide)
  exact ⟨⟨by decide, by decide, fits⟩, i, hi, round, rounds, hat, loops,
    (loops.ends round).mp (hreached round le_rfl), hover, hlast⟩

end TensorConcat
