import TensorConcat.Proofs.Batching

/-!
# A launch runs every item once

A range is taken on when its groups are not empty, fill it without a rest and stay within the
limit of the device. The number of a group is taken apart into its row and column, and an item
finds its place in the range from the two numbers of its group and its own two numbers inside
of it. Every place of the range is found by some item, and there are as many items as places, so
none is found twice.

What a launch computes with words is also written down with every step checked: a division by
zero, or a number that is no word, would be a fault there. The checked launch never differs from
the launch.
-/

namespace TensorConcat

namespace Number

/-- The remainder, which there is only for a divisor other than zero. -/
def remWord (a b : UInt32) : Except Fault UInt32 :=
  if b = 0 then .error .zeroDivisor else .ok (a % b)

theorem toNat_pos {a : UInt32} (h : a ≠ 0) : 0 < a.toNat :=
  Nat.pos_of_ne_zero fun zero => h (UInt32.toNat_inj.mp zero)

/-- A product and a sum, each checked to be a word. -/
def mulAddWord (a b c : UInt32) : Except Fault UInt32 := do addWord (← mulWord a b) c

/-- A place in a block, without overflow. -/
theorem toNat_mul_add {a b c : UInt32} (fits : a.toNat * b.toNat + c.toNat < 2 ^ 32) :
    (a * b + c).toNat = a.toNat * b.toNat + c.toNat := by
  rw [UInt32.toNat_add, UInt32.toNat_mul, Nat.mod_add_mod, Nat.mod_eq_of_lt fits]

theorem mulAddWord_eq {a b c : UInt32} (fits : a.toNat * b.toNat + c.toNat < 2 ^ 32) :
    mulAddWord a b c = .ok (a * b + c) := by
  obtain ⟨w, hw, hvalue⟩ := @mulWord_eq a b (by omega)
  have hproduct : w = a * b := by
    rw [← UInt32.toNat_inj, UInt32.toNat_mul, hvalue, Nat.mod_eq_of_lt (by omega)]
  obtain ⟨v, hv, hsum⟩ := @addWord_eq w c (by omega)
  have htotal : v = a * b + c := by
    rw [← UInt32.toNat_inj, hsum, toNat_mul_add fits, hvalue]
  rw [mulAddWord, hw]
  exact hv.trans (congrArg Except.ok htotal)

end Number

open Number

/-- The place of an item in the whole range, with each step checked. -/
def WorkItem.checkedGlobalId (i : WorkItem) : Except Fault Extent2 := do
  return ⟨← mulAddWord i.group.x i.localRange.x i.localId.x,
    ← mulAddWord i.group.y i.localRange.y i.localId.y⟩

namespace Range2
variable {r : Range2} {limit : UInt32}

/-- The groups are not empty, fill the range without a rest and are not too large. -/
structure Allowed (r : Range2) (limit : UInt32) : Prop where
  width : r.workGroup.x ≠ 0
  height : r.workGroup.y ≠ 0
  columns : r.workGroup.x.toNat ∣ r.global.x.toNat
  rows : r.workGroup.y.toNat ∣ r.global.y.toNat
  size : r.workGroup.x.toNat * r.workGroup.y.toNat ≤ limit.toNat

/-- The test of a range, with each division checked. -/
def checkedValidate (r : Range2) (limit : UInt32) : Except Fault (Except LaunchError Extent2) :=
  if r.workGroup.x = 0 ∨ r.workGroup.y = 0 then return .error (.emptyWorkGroup r.workGroup)
  else do
    let x ← remWord r.global.x r.workGroup.x
    let y ← remWord r.global.y r.workGroup.y
    if x ≠ 0 ∨ y ≠ 0 then return .error (.unalignedGlobalRange r.global r.workGroup)
    let size := r.workGroup.x.toNat * r.workGroup.y.toNat
    if limit.toNat < size then return .error (.workGroupTooLarge size limit)
    return .ok ⟨← divWord r.global.x r.workGroup.x, ← divWord r.global.y r.workGroup.y⟩

/-- The group with a given number, its two numbers checked to be words. -/
def checkedGroupAt (r : Range2) (n : Nat) : Except Fault Extent2 :=
  if r.groups.x = 0 then .error .zeroDivisor
  else do return ⟨← word (n % r.groups.x.toNat), ← word (n / r.groups.x.toNat)⟩

/-- Runs a step for every item, with what finds the groups and the items' places checked. -/
def checkedRun {σ : Type} (r : Range2) (step : WorkItem → σ → Except Fault σ) (s : σ) :
    Except Fault σ :=
  (List.range r.groupCount).foldlM (fun s n => do
    let group ← r.checkedGroupAt n
    (r.groupItems group).foldlM (fun s i => do
      let _ ← i.checkedGlobalId
      step i s) s) s

/-- A step that also notes the items it is taken for. -/
def noting {σ : Type} (step : WorkItem → σ → Except Fault σ) (i : WorkItem)
    (s : σ × List WorkItem) : Except Fault (σ × List WorkItem) := do
  return (← step i s.1, s.2 ++ [i])

/-- Items that have the places of a range, each place once, and whose numbers are exact. -/
structure RunBy (r : Range2) (items : List WorkItem) : Prop where
  once : (items.map fun i => (i.globalId.x.toNat, i.globalId.y.toNat)).Perm
    (List.range r.global.x.toNat ×ˢ List.range r.global.y.toNat)
  ranges : ∀ i ∈ items, i.localRange = r.workGroup ∧ i.groupRange = r.groups
  group : ∀ i ∈ items, i.group.x < i.groupRange.x ∧ i.group.y < i.groupRange.y
  inner : ∀ i ∈ items, i.localId.x < i.localRange.x ∧ i.localId.y < i.localRange.y
  computed : ∀ i ∈ items, i.checkedGlobalId = .ok i.globalId

section Validate

theorem validate_eq_ok (allowed : r.Allowed limit) : r.validate limit = .ok r.groups := by
  have hx : r.global.x % r.workGroup.x = 0 := by
    rw [← UInt32.toNat_inj, UInt32.toNat_mod, Nat.mod_eq_zero_of_dvd allowed.columns]
    rfl
  have hy : r.global.y % r.workGroup.y = 0 := by
    rw [← UInt32.toNat_inj, UInt32.toNat_mod, Nat.mod_eq_zero_of_dvd allowed.rows]
    rfl
  rw [validate, if_neg (not_or.mpr ⟨allowed.width, allowed.height⟩),
    if_neg (not_or.mpr ⟨not_not.mpr hx, not_not.mpr hy⟩), if_neg (Nat.not_lt.mpr allowed.size)]

theorem allowed_of_validate {groups : Extent2} (hok : r.validate limit = .ok groups) :
    r.Allowed limit := by
  unfold validate at hok
  split at hok
  · exact absurd hok (by simp)
  · rename_i hempty
    split at hok
    · exact absurd hok (by simp)
    · rename_i hrest
      simp only at hok
      split at hok
      · exact absurd hok (by simp)
      · rename_i hsize
        obtain ⟨hwidth, hheight⟩ := not_or.mp hempty
        obtain ⟨hx, hy⟩ := not_or.mp hrest
        have hcolumns := congrArg UInt32.toNat (not_not.mp hx)
        have hrows := congrArg UInt32.toNat (not_not.mp hy)
        rw [UInt32.toNat_mod] at hcolumns hrows
        exact ⟨hwidth, hheight, Nat.dvd_of_mod_eq_zero hcolumns, Nat.dvd_of_mod_eq_zero hrows,
          Nat.not_lt.mp hsize⟩

/-- No test of a range divides by zero. -/
theorem checkedValidate_eq (r : Range2) (limit : UInt32) :
    r.checkedValidate limit = .ok (r.validate limit) := by
  unfold checkedValidate validate
  split
  · rfl
  · rename_i hempty
    obtain ⟨hwidth, hheight⟩ := not_or.mp hempty
    simp only [remWord, divWord, if_neg hwidth, if_neg hheight, bind, Except.bind, pure, Except.pure]
    split
    · rfl
    · split <;> rfl

end Validate

section Items

theorem toNat_groups (r : Range2) : r.groups.x.toNat = r.global.x.toNat / r.workGroup.x.toNat ∧
    r.groups.y.toNat = r.global.y.toNat / r.workGroup.y.toNat :=
  ⟨UInt32.toNat_div .., UInt32.toNat_div ..⟩

/-- The row and the column of a group. -/
theorem groupAt_spec {n : Nat} (hn : n < r.groupCount) :
    (r.groupAt n).x.toNat = n % r.groups.x.toNat ∧ (r.groupAt n).y.toNat = n / r.groups.x.toNat ∧
      n % r.groups.x.toNat < r.groups.x.toNat ∧ n / r.groups.x.toNat < r.groups.y.toNat := by
  have hpos : 0 < r.groups.x.toNat := Nat.pos_of_mul_pos_right (Nat.zero_lt_of_lt hn)
  have hcolumn := Nat.mod_lt n hpos
  have hrow : n / r.groups.x.toNat < r.groups.y.toNat := Nat.div_lt_of_lt_mul hn
  exact ⟨toNat_ofNat_of_lt (hcolumn.trans r.groups.x.toNat_lt),
    toNat_ofNat_of_lt (hrow.trans r.groups.y.toNat_lt), hcolumn, hrow⟩

theorem checkedGroupAt_eq {n : Nat} (hn : n < r.groupCount) :
    r.checkedGroupAt n = .ok (r.groupAt n) := by
  obtain ⟨-, -, hcolumn, hrow⟩ := groupAt_spec hn
  have hne : r.groups.x ≠ 0 := by
    intro hzero
    rw [hzero] at hcolumn
    exact absurd hcolumn (Nat.not_lt_zero _)
  rw [checkedGroupAt, if_neg hne, word_eq (hcolumn.trans r.groups.x.toNat_lt),
    word_eq (hrow.trans r.groups.y.toNat_lt)]
  rfl

theorem mem_items {i : WorkItem} : i ∈ r.items ↔ ∃ n < r.groupCount,
    ∃ y < r.workGroup.y.toNat, ∃ x < r.workGroup.x.toNat,
      i = ⟨r.groupAt n, ⟨UInt32.ofNat x, UInt32.ofNat y⟩, r.workGroup, r.groups⟩ := by
  simp only [items, groupItems, List.mem_flatMap, List.mem_map, List.mem_range, eq_comm]

/-- What is known of an item: below its ranges, and with a place in the whole range. -/
structure Inner (r : Range2) (i : WorkItem) : Prop where
  localRange : i.localRange = r.workGroup
  groupRange : i.groupRange = r.groups
  column : i.group.x.toNat < r.groups.x.toNat
  row : i.group.y.toNat < r.groups.y.toNat
  left : i.localId.x.toNat < r.workGroup.x.toNat
  top : i.localId.y.toNat < r.workGroup.y.toNat

theorem inner_of_mem {i : WorkItem} (hi : i ∈ r.items) : r.Inner i := by
  obtain ⟨n, hn, y, hy, x, hx, rfl⟩ := mem_items.mp hi
  obtain ⟨hcolumn, hrow, hcolumns, hrows⟩ := groupAt_spec hn
  have hleft : (UInt32.ofNat x).toNat = x := toNat_ofNat_of_lt (hx.trans r.workGroup.x.toNat_lt)
  have htop : (UInt32.ofNat y).toNat = y := toNat_ofNat_of_lt (hy.trans r.workGroup.y.toNat_lt)
  exact ⟨rfl, rfl, hcolumn ▸ hcolumns, hrow ▸ hrows, hleft.symm ▸ hx, htop.symm ▸ hy⟩

/-- A place in one of the blocks that fit into an extent is below the extent. -/
theorem place_lt {block extent group inner : Nat} (hgroup : group < extent / block)
    (hinner : inner < block) : group * block + inner < extent := by
  have hrow := Nat.mul_le_mul_right block (Nat.succ_le_of_lt hgroup)
  have hwhole := Nat.div_mul_le_self extent block
  rw [Nat.succ_mul] at hrow
  omega

namespace Inner
variable {i : WorkItem}

theorem place_x_lt (inner : r.Inner i) :
    i.group.x.toNat * i.localRange.x.toNat + i.localId.x.toNat < r.global.x.toNat := by
  have hcolumn := inner.column
  rw [(toNat_groups r).1] at hcolumn
  rw [inner.localRange]
  exact place_lt hcolumn inner.left

theorem place_y_lt (inner : r.Inner i) :
    i.group.y.toNat * i.localRange.y.toNat + i.localId.y.toNat < r.global.y.toNat := by
  have hrow := inner.row
  rw [(toNat_groups r).2] at hrow
  rw [inner.localRange]
  exact place_lt hrow inner.top

theorem toNat_globalId (inner : r.Inner i) :
    i.globalId.x.toNat = i.group.x.toNat * i.localRange.x.toNat + i.localId.x.toNat ∧
      i.globalId.y.toNat = i.group.y.toNat * i.localRange.y.toNat + i.localId.y.toNat :=
  ⟨toNat_mul_add (inner.place_x_lt.trans r.global.x.toNat_lt),
    toNat_mul_add (inner.place_y_lt.trans r.global.y.toNat_lt)⟩

theorem checkedGlobalId_eq (inner : r.Inner i) : i.checkedGlobalId = .ok i.globalId := by
  rw [WorkItem.checkedGlobalId, mulAddWord_eq (inner.place_x_lt.trans r.global.x.toNat_lt),
    mulAddWord_eq (inner.place_y_lt.trans r.global.y.toNat_lt)]
  rfl

end Inner

theorem length_items (r : Range2) :
    r.items.length = r.groupCount * (r.workGroup.y.toNat * r.workGroup.x.toNat) := by
  simp [items, groupItems, List.length_flatMap, List.map_const']

/-- Each place of the range is that of some item. -/
theorem exists_item (allowed : r.Allowed limit) {a b : Nat} (ha : a < r.global.x.toNat)
    (hb : b < r.global.y.toNat) :
    ∃ i ∈ r.items, i.globalId.x.toNat = a ∧ i.globalId.y.toNat = b := by
  have hleft := Nat.mod_lt a (toNat_pos allowed.width)
  have htop := Nat.mod_lt b (toNat_pos allowed.height)
  have hcolumn : a / r.workGroup.x.toNat < r.groups.x.toNat := by
    rw [(toNat_groups r).1]
    exact Nat.div_lt_div_of_lt_of_dvd allowed.columns ha
  have hrow : b / r.workGroup.y.toNat < r.groups.y.toNat := by
    rw [(toNat_groups r).2]
    exact Nat.div_lt_div_of_lt_of_dvd allowed.rows hb
  have hn : b / r.workGroup.y.toNat * r.groups.x.toNat + a / r.workGroup.x.toNat <
      r.groupCount := by
    have hrows := Nat.mul_le_mul_right r.groups.x.toNat (Nat.succ_le_of_lt hrow)
    rw [Nat.succ_mul, Nat.mul_comm r.groups.y.toNat] at hrows
    rw [groupCount]
    omega
  have hmem := mem_items.mpr ⟨_, hn, _, htop, _, hleft, rfl⟩
  obtain ⟨hx, hy⟩ := (inner_of_mem hmem).toNat_globalId
  obtain ⟨hgx, hgy, -, -⟩ := groupAt_spec hn
  refine ⟨_, hmem, hx.trans ?_, hy.trans ?_⟩
  · rw [hgx, Nat.mul_add_mod_of_lt hcolumn, toNat_ofNat_of_lt (hleft.trans r.workGroup.x.toNat_lt)]
    exact Nat.div_add_mod' a _
  · rw [hgy, mul_add_div_of_lt hcolumn, toNat_ofNat_of_lt (htop.trans r.workGroup.y.toNat_lt)]
    exact Nat.div_add_mod' b _

/-- As many items as places, and an item for each place: no place has two. -/
theorem items_once (allowed : r.Allowed limit) :
    (r.items.map fun i => (i.globalId.x.toNat, i.globalId.y.toNat)).Perm
      (List.range r.global.x.toNat ×ˢ List.range r.global.y.toNat) := by
  have hplaces : (List.range r.global.x.toNat ×ˢ List.range r.global.y.toNat).Nodup :=
    List.nodup_range.product List.nodup_range
  have hfound : List.range r.global.x.toNat ×ˢ List.range r.global.y.toNat ⊆
      r.items.map fun i => (i.globalId.x.toNat, i.globalId.y.toNat) := by
    intro p hp
    obtain ⟨hx, hy⟩ := List.mem_product.mp hp
    obtain ⟨i, hi, hix, hiy⟩ :=
      exists_item allowed (List.mem_range.mp hx) (List.mem_range.mp hy)
    exact List.mem_map.mpr ⟨i, hi, Prod.ext hix hiy⟩
  have hcount : (r.items.map fun i => (i.globalId.x.toNat, i.globalId.y.toNat)).length =
      (List.range r.global.x.toNat ×ˢ List.range r.global.y.toNat).length := by
    rw [List.length_map, length_items, groupCount, (toNat_groups r).1, (toNat_groups r).2,
      List.length_product, List.length_range, List.length_range]
    calc _ = r.global.x.toNat / r.workGroup.x.toNat * r.workGroup.x.toNat *
          (r.global.y.toNat / r.workGroup.y.toNat * r.workGroup.y.toNat) := by ring
      _ = _ := by rw [Nat.div_mul_cancel allowed.columns, Nat.div_mul_cancel allowed.rows]
  exact ((hplaces.subperm hfound).perm_of_length_le hcount.le).symm

theorem runBy_items (allowed : r.Allowed limit) : r.RunBy r.items where
  once := items_once allowed
  ranges i hi := ⟨(inner_of_mem hi).localRange, (inner_of_mem hi).groupRange⟩
  group i hi := by
    have hinner := inner_of_mem hi
    rw [hinner.groupRange]
    exact ⟨UInt32.lt_iff_toNat_lt.mpr hinner.column, UInt32.lt_iff_toNat_lt.mpr hinner.row⟩
  inner i hi := by
    have hinner := inner_of_mem hi
    rw [hinner.localRange]
    exact ⟨UInt32.lt_iff_toNat_lt.mpr hinner.left, UInt32.lt_iff_toNat_lt.mpr hinner.top⟩
  computed _ hi := (inner_of_mem hi).checkedGlobalId_eq

/-- Without a column or a row there is no item. -/
theorem items_of_hollow (hollow : r.global.x = 0 ∨ r.global.y = 0) : r.items = [] := by
  have hcount : r.groupCount = 0 := by
    rw [groupCount, (toNat_groups r).1, (toNat_groups r).2]
    rcases hollow with hx | hy
    · simp [hx]
    · simp [hy]
  rw [items, hcount]
  rfl

end Items

section Run
variable {σ : Type} {step : WorkItem → σ → Except Fault σ}

theorem foldlM_congr {ε α : Type} {f g : σ → α → Except ε σ} {xs : List α}
    (same : ∀ x ∈ xs, ∀ s, f s x = g s x) (s : σ) : xs.foldlM f s = xs.foldlM g s := by
  induction xs generalizing s with
  | nil => rfl
  | cons x xs ih =>
    rw [List.foldlM_cons, List.foldlM_cons, same x (by simp)]
    exact congrArg _ (funext (ih fun y hy => same y (by simp [hy])))

/-- No run divides by zero or leaves the words. -/
theorem checkedRun_eq (r : Range2) (step : WorkItem → σ → Except Fault σ) (s : σ) :
    r.checkedRun step s = r.runItems step s := by
  refine foldlM_congr (fun n hn s => ?_) s
  rw [checkedGroupAt_eq (List.mem_range.mp hn)]
  refine foldlM_congr (fun i hi s => ?_) s
  have hmem : i ∈ r.items := List.mem_flatMap.mpr ⟨n, hn, hi⟩
  rw [(inner_of_mem hmem).checkedGlobalId_eq]
  rfl

/-- Noting changes nothing else; what is noted are the items, one after the other. -/
theorem foldlM_noting (items seen : List WorkItem) (s : σ) :
    items.foldlM (fun s i => noting step i s) (s, seen) =
      (items.foldlM (fun s i => step i s) s).map fun t => (t, seen ++ items) := by
  induction items generalizing s seen with
  | nil => simp [Except.map, pure, Except.pure]
  | cons i items ih =>
    rw [List.foldlM_cons, List.foldlM_cons]
    cases hstep : step i s with
    | error fault => simp [noting, hstep, bind, Except.bind, Except.map]
    | ok t =>
      have hrest := ih (seen ++ [i]) t
      simpa [noting, hstep, bind, Except.bind, pure, Except.pure] using hrest

theorem runItems_noting (r : Range2) (s : σ) :
    r.runItems (noting step) (s, []) = (r.runItems step s).map fun t => (t, r.items) := by
  rw [runItems_eq_foldlM, runItems_eq_foldlM, foldlM_noting, List.nil_append]

theorem runItems_isOk (r : Range2) (calm : ∀ i s, ∃ t, step i s = .ok t) (s : σ) :
    ∃ t, r.runItems step s = .ok t := by
  rw [runItems_eq_foldlM]
  induction r.items generalizing s with
  | nil => exact ⟨s, rfl⟩
  | cons i items ih =>
    obtain ⟨t, ht⟩ := calm i s
    rw [List.foldlM_cons, ht]
    exact ih t

end Run

end Range2

section Launch
variable {r : Range2} {m : Machine} {σ : Type}

theorem Device.accept_iff {d : Device} (usable : d.poisoned = false) (affords : d.Affords 1) :
    (∃ e, d.accept r = .ok e) ↔ r.Allowed d.config.maxWorkGroupSize := by
  constructor
  · intro haccepted
    obtain ⟨e, he⟩ := haccepted
    obtain ⟨⟨groups, hvalid⟩, -, -, -⟩ := Device.accept_ok he
    exact Range2.allowed_of_validate hvalid
  · intro allowed
    exact ⟨_, Device.accept_of_valid (Range2.validate_eq_ok allowed) usable affords⟩

/-- The answer of a launch that is taken on and the machine it leaves, from the run of its items. -/
theorem Action.launch_ok_iff {d : Device} (accepted : m.device.accept r = .ok d)
    {kernel : WorkItem → σ → Except Fault σ} {s t : σ} {m' : Machine} :
    launch r kernel s m = (.ok t, m') ↔ r.runItems kernel s = .ok t ∧
      m' = { m.note (.submitted m.device.submissions r) with device := d } := by
  rw [launch_run accepted]
  constructor
  · intro hok
    cases hrun : r.runItems kernel s with
    | error fault =>
      rw [hrun] at hok
      exact absurd (congrArg Prod.fst hok) (by simp)
    | ok u =>
      rw [hrun] at hok
      have hanswer : u = t := Except.ok.inj (congrArg Prod.fst hok)
      exact ⟨congrArg Except.ok hanswer, (congrArg Prod.snd hok).symm⟩
  · intro hrun
    rcases hrun with ⟨hrun, rfl⟩
    rw [hrun]

end Launch

/-- A device that may be used and affords a launch takes on the ranges that are allowed, and no
launch divides by zero or leaves the words. What is taken on runs each place of the range once; a
range without a column or a row runs nothing, and what is turned away neither runs nor changes
anything. -/
theorem launch_runs_items_once (r : Range2) (m : Machine) (usable : m.device.poisoned = false)
    (affords : m.device.Affords 1) :
    ((∃ d, m.device.accept r = .ok d) ↔ r.Allowed m.device.config.maxWorkGroupSize) ∧
    r.checkedValidate m.device.config.maxWorkGroupSize =
      .ok (r.validate m.device.config.maxWorkGroupSize) ∧
    (r.Allowed m.device.config.maxWorkGroupSize →
      ∀ (σ : Type) (kernel : WorkItem → σ → Except Fault σ) (s : σ),
        r.checkedRun kernel s = r.runItems kernel s ∧
        ((∀ i s, ∃ t, kernel i s = .ok t) → ∃ t m', Action.launch r kernel s m = (.ok t, m')) ∧
        (∀ t m', Action.launch r kernel s m = (.ok t, m') → ∃ items,
          Action.launch r (Range2.noting kernel) (s, []) m = (.ok (t, items), m') ∧
            r.RunBy items) ∧
        (r.global.x = 0 ∨ r.global.y = 0 →
          ∃ m', Action.launch r (Range2.noting kernel) (s, []) m = (.ok (s, []), m'))) ∧
    (¬r.Allowed m.device.config.maxWorkGroupSize →
      ∃ e, r.validate m.device.config.maxWorkGroupSize = .error e ∧
        ∀ (σ : Type) (kernel : WorkItem → σ → Except Fault σ) (s : σ),
          Action.launch r kernel s m = (.error (.backend (.execution (.launch e))), m)) := by
  refine ⟨Device.accept_iff usable affords, Range2.checkedValidate_eq r _, ?_, ?_⟩
  · intro allowed σ kernel s
    have haccept := Device.accept_of_valid (Range2.validate_eq_ok allowed) usable affords
    refine ⟨Range2.checkedRun_eq r kernel s, fun calm => ?_, fun t m' hok => ?_, fun hollow => ?_⟩
    · obtain ⟨t, ht⟩ := Range2.runItems_isOk r calm s
      exact ⟨t, _, (Action.launch_ok_iff haccept).mpr ⟨ht, rfl⟩⟩
    · obtain ⟨hrun, rfl⟩ := (Action.launch_ok_iff haccept).mp hok
      refine ⟨r.items, (Action.launch_ok_iff haccept).mpr ⟨?_, rfl⟩, Range2.runBy_items allowed⟩
      rw [Range2.runItems_noting, hrun]
      rfl
    · refine ⟨_, (Action.launch_ok_iff haccept).mpr ⟨?_, rfl⟩⟩
      rw [Range2.runItems_eq_foldlM, Range2.items_of_hollow hollow]
      rfl
  · intro refused
    cases hvalid : r.validate m.device.config.maxWorkGroupSize with
    | ok groups => exact absurd (Range2.allowed_of_validate hvalid) refused
    | error e =>
      have haccept : m.device.accept r = .error (.launch e) := by
        unfold Device.accept
        rw [hvalid]
        rfl
      exact ⟨e, rfl, fun σ kernel s => Action.launch_refused haccept kernel s⟩

/-- A device for groups of up to eight items, with one launch left. -/
def launchMachine : Machine :=
  { device := { config := ⟨4, 8, some 3⟩, submissions := 2 } }

/-- Three columns and two rows of groups. -/
def launchRange : Range2 := ⟨⟨6, 6⟩, ⟨2, 3⟩⟩

/-- Adds up the numbers of the columns. -/
def columnSum (i : WorkItem) (n : Nat) : Except Fault Nat := .ok (n + i.globalId.x.toNat)

theorem launch_runs_items_once_sample :
    (launchMachine.device.poisoned = false ∧ launchMachine.device.Affords 1) ∧
    (∃ items m, Action.launch launchRange (Range2.noting columnSum) (0, []) launchMachine =
      (.ok (90, items), m) ∧ launchRange.RunBy items) ∧
    (∃ m, Action.launch ⟨⟨0, 6⟩, ⟨2, 3⟩⟩ (Range2.noting fun _ _ => .error .indexOverflow) ((), [])
      launchMachine = (.ok ((), []), m)) ∧
    Action.launch ⟨⟨6, 7⟩, ⟨2, 3⟩⟩ columnSum 0 launchMachine = (.error (.backend (.execution
      (.launch (.unalignedGlobalRange ⟨6, 7⟩ ⟨2, 3⟩)))), launchMachine) := by
  have haffords : launchMachine.device.Affords 1 := by
    intro limit hlimit
    obtain rfl : 3 = limit := Option.some.inj hlimit
    decide
  have hwhole : launchRange.Allowed 8 := ⟨by decide, by decide, by decide, by decide, by decide⟩
  have hhollow : Range2.Allowed ⟨⟨0, 6⟩, ⟨2, 3⟩⟩ 8 :=
    ⟨by decide, by decide, by decide, by decide, by decide⟩
  have hrest : ¬Range2.Allowed ⟨⟨6, 7⟩, ⟨2, 3⟩⟩ 8 := fun allowed => absurd allowed.rows (by decide)
  obtain ⟨-, -, hruns, -⟩ := launch_runs_items_once launchRange launchMachine rfl haffords
  obtain ⟨-, -, hnoted, -⟩ := hruns hwhole Nat columnSum 0
  obtain ⟨-, -, hempty, -⟩ := launch_runs_items_once ⟨⟨0, 6⟩, ⟨2, 3⟩⟩ launchMachine rfl haffords
  obtain ⟨-, -, -, hrefused⟩ := launch_runs_items_once ⟨⟨6, 7⟩, ⟨2, 3⟩⟩ launchMachine rfl haffords
  have haccept : launchMachine.device.accept launchRange = .ok (launchMachine.device.counting 1 0) :=
    Device.accept_of_valid (Range2.validate_eq_ok hwhole) rfl haffords
  have hsum : launchRange.runItems columnSum 0 = .ok 90 := by decide
  obtain ⟨items, hitems, hcover⟩ :=
    hnoted 90 _ ((Action.launch_ok_iff haccept).mpr ⟨hsum, rfl⟩)
  obtain ⟨e, he, hturned⟩ := hrefused hrest
  obtain rfl : LaunchError.unalignedGlobalRange ⟨6, 7⟩ ⟨2, 3⟩ = e := Except.error.inj he
  exact ⟨⟨rfl, haffords⟩, ⟨items, _, hitems, hcover⟩,
    (hempty hhollow Unit _ ()).2.2.2 (.inl rfl), hturned Nat columnSum 0⟩

end TensorConcat
