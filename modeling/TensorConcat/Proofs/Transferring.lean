import TensorConcat.Proofs.Joining

/-!
# Joining element by element

Dense parts can be joined one element at a time, the elements of a part being
numbered in its memory order. A `Transfer` is the copy of one element: the part, the
start of its slab, and the number. The transfers of a list of parts reach every
element of the output exactly once, so they may be made in any order, and made in any
order they join the parts.
-/

namespace TensorConcat

/-- The copy of the element with a given number of a part whose slab begins at `start`. -/
structure Transfer where
  start : Nat
  part : Tensor
  number : Nat

namespace Transfer

/-- The coordinate of the output that is written. -/
def coordinate (f : MemoryFormat) (axis : Nat) (x : Transfer) : List Nat :=
  raiseAxis axis x.start (f.unrank x.part.dims x.number)

/-- The position in the output that is written. -/
def target (out : Tensor) (f : MemoryFormat) (axis : Nat) (x : Transfer) : Nat :=
  Axis.position out.axes (x.coordinate f axis)

def value (x : Transfer) (h : Heap) : List UInt8 := x.part.loadElement h x.number

end Transfer

/-- The parts, each with the start of its slab. -/
def placed (axis : Nat) : Nat → List Tensor → List (Nat × Tensor)
  | _, [] => []
  | start, t :: rest => (start, t) :: placed axis (start + t.extentAt axis) rest

/-- The transfers of one part. -/
def transfersOf (p : Nat × Tensor) : List Transfer :=
  (List.range p.2.numel).map fun n => ⟨p.1, p.2, n⟩

def transfers (axis start : Nat) (parts : List Tensor) : List Transfer :=
  (placed axis start parts).flatMap transfersOf

theorem mem_transfersOf {p : Nat × Tensor} {x : Transfer} :
    x ∈ transfersOf p ↔ x.start = p.1 ∧ x.part = p.2 ∧ x.number < p.2.numel := by
  obtain ⟨start, part, number⟩ := x
  simp only [transfersOf, List.mem_map, List.mem_range, Transfer.mk.injEq]
  constructor
  · intro hplaced
    rcases hplaced with ⟨n, hn, hs, hp, he⟩
    exact ⟨hs.symm, hp.symm, he ▸ hn⟩
  · intro hplace
    rcases hplace with ⟨hs, hp, hn⟩
    exact ⟨number, hn, hs.symm, hp.symm, rfl⟩

theorem map_snd_placed (axis start : Nat) (parts : List Tensor) :
    (placed axis start parts).map Prod.snd = parts := by
  induction parts generalizing start with
  | nil => rfl
  | cons t ts ih => simp [placed, ih]

theorem length_placed (axis start : Nat) (parts : List Tensor) :
    (placed axis start parts).length = parts.length := by
  rw [← List.length_map Prod.snd, map_snd_placed]

theorem getElem?_placed (axis start k : Nat) (parts : List Tensor) :
    (placed axis start parts)[k]? =
      parts[k]?.map fun t => (start + totalExtent axis (parts.take k), t) := by
  induction parts generalizing start k with
  | nil => rfl
  | cons t ts ih => cases k with
    | zero => simp [placed]
    | succ k => simp [placed, ih, Nat.add_assoc]

theorem placed_append (axis start : Nat) (ts us : List Tensor) :
    placed axis start (ts ++ us) =
      placed axis start ts ++ placed axis (start + totalExtent axis ts) us := by
  induction ts generalizing start with
  | nil => rfl
  | cons t ts ih =>
    rw [List.cons_append, placed, ih, placed, totalExtent_cons, Nat.add_assoc]
    rfl

theorem transfers_append (axis start : Nat) (ts us : List Tensor) :
    transfers axis start (ts ++ us) =
      transfers axis start ts ++ transfers axis (start + totalExtent axis ts) us := by
  rw [transfers, placed_append, List.flatMap_append]
  rfl

/-- Every slab lies between the ends of all of them. -/
theorem mem_placed {axis start : Nat} {parts : List Tensor} {p : Nat × Tensor}
    (hp : p ∈ placed axis start parts) :
    p.2 ∈ parts ∧ start ≤ p.1 ∧ p.1 + p.2.extentAt axis ≤ start + totalExtent axis parts := by
  induction parts generalizing start with
  | nil => simp [placed] at hp
  | cons t ts ih =>
    rw [totalExtent_cons]
    rcases List.mem_cons.mp hp with rfl | hp
    · exact ⟨by simp, Nat.le_refl _, by dsimp only; omega⟩
    · obtain ⟨hmem, hlo, hhi⟩ := ih hp
      exact ⟨List.mem_cons_of_mem _ hmem, by omega, by omega⟩

theorem exists_placed {axis start : Nat} {parts : List Tensor} {t : Tensor} (ht : t ∈ parts) :
    ∃ s, (s, t) ∈ placed axis start parts := by
  induction parts generalizing start with
  | nil => simp at ht
  | cons u us ih =>
    rcases List.mem_cons.mp ht with rfl | ht
    · exact ⟨start, by simp [placed]⟩
    · obtain ⟨s, hs⟩ := @ih (start + u.extentAt axis) ht
      exact ⟨s, List.mem_cons_of_mem _ hs⟩

/-- Each slab ends before the later ones begin. -/
theorem pairwise_placed (axis start : Nat) (parts : List Tensor) :
    (placed axis start parts).Pairwise fun p q => p.1 + p.2.extentAt axis ≤ q.1 := by
  induction parts generalizing start with
  | nil => exact .nil
  | cons t ts ih => exact .cons (fun p hp => (mem_placed hp).2.1) (ih _)

/-- What the parts of an output must satisfy to be joined element by element: they cover
the joined axis, lie densely in the output's format where they have elements, are of its
type and share no byte with it. -/
structure Matches (out : Tensor) (f : MemoryFormat) (axis : Nat) (parts : List Tensor) : Prop where
  axis_lt : axis < out.dims.length
  packed : 0 < out.numel → out.PackedIn f
  fit : ∀ t ∈ parts, t.FitsAlong out axis
  total : totalExtent axis parts = out.extentAt axis
  dense : ∀ t ∈ parts, 0 < t.numel → t.PackedIn f
  dtype : ∀ t ∈ parts, t.dtype = out.dtype
  apart : ∀ t ∈ parts, out.Apart t

section Match
variable {out : Tensor} {f : MemoryFormat} {axis : Nat} {parts : List Tensor}

theorem Matches.packedIn (matching : Matches out f axis parts) {c : List Nat}
    (hc : Within out.dims c) : out.PackedIn f := matching.packed hc.volume_pos

theorem Matches.mem_placed (matching : Matches out f axis parts) {p : Nat × Tensor}
    (hp : p ∈ placed axis 0 parts) :
    p.2 ∈ parts ∧ p.1 + p.2.extentAt axis ≤ out.extentAt axis := by
  obtain ⟨hmem, -, hend⟩ := TensorConcat.mem_placed hp
  exact ⟨hmem, by rw [← matching.total]; omega⟩

namespace Transfer

/-- A transfer writes inside the slab of its part. -/
theorem within_coordinate (matching : Matches out f axis parts) {p : Nat × Tensor}
    (hp : p ∈ placed axis 0 parts) {x : Transfer} (hx : x ∈ transfersOf p) :
    Within out.dims (x.coordinate f axis) ∧ p.1 ≤ (x.coordinate f axis).getD axis 0 ∧
      (x.coordinate f axis).getD axis 0 < p.1 + p.2.extentAt axis := by
  obtain ⟨hstart, hpart, hnumber⟩ := mem_transfersOf.mp hx
  obtain ⟨hmem, hroom⟩ := matching.mem_placed hp
  have hw : Within (out.dims.set axis (p.2.extentAt axis)) (f.unrank p.2.dims x.number) :=
    matching.fit _ hmem ▸ f.within_unrank hnumber
  have hlt := hw.getD_lt_set matching.axis_lt
  have hlen : axis < (f.unrank p.2.dims x.number).length := by
    rw [hw.length_eq, List.length_set]
    exact matching.axis_lt
  rw [coordinate, hstart, hpart]
  refine ⟨within_raiseAxis matching.axis_lt hw hroom, ?_, ?_⟩
  · rw [getD_raiseAxis hlen]
    omega
  · rw [getD_raiseAxis hlen]
    omega

end Transfer

/-- Different elements of a part go to different coordinates. -/
theorem nodup_coordinates_transfersOf (matching : Matches out f axis parts) {p : Nat × Tensor}
    (hp : p ∈ placed axis 0 parts) :
    ((transfersOf p).map (Transfer.coordinate f axis)).Nodup := by
  have hmem := (matching.mem_placed hp).1
  rw [transfersOf, List.map_map]
  refine List.Nodup.map_on (fun m hm n hn same => ?_) List.nodup_range
  have hm := List.mem_range.mp hm
  have hn := List.mem_range.mp hn
  have hpacked := matching.dense _ hmem (Nat.zero_lt_of_lt hm)
  have hlen : ∀ k < p.2.numel, axis < (f.unrank p.2.dims k).length := by
    intro k hk
    rw [(f.within_unrank hk).length_eq, matching.fit _ hmem, List.length_set]
    exact matching.axis_lt
  have hlow : f.unrank p.2.dims m = f.unrank p.2.dims n := by
    rw [← @lowerAxis_raiseAxis axis p.1 _ (hlen m hm), ← @lowerAxis_raiseAxis axis p.1 _ (hlen n hn)]
    exact congrArg (lowerAxis axis p.1) same
  have hpos := MemoryFormat.position_unrank hpacked hm
  change Axis.position p.2.axes (f.unrank p.2.dims m) = m at hpos
  rw [← hpos, hlow]
  exact MemoryFormat.position_unrank hpacked hn

theorem nodup_coordinates_transfers (matching : Matches out f axis parts) :
    ((transfers axis 0 parts).map (Transfer.coordinate f axis)).Nodup := by
  rw [transfers, List.map_flatMap, List.nodup_flatMap]
  refine ⟨fun p hp => nodup_coordinates_transfersOf matching hp, ?_⟩
  apply (pairwise_placed axis 0 parts).imp_of_mem
  intro p q hp hq hpq c hcp hcq
  obtain ⟨x, hx, rfl⟩ := List.mem_map.mp hcp
  obtain ⟨y, hy, same⟩ := List.mem_map.mp hcq
  have hxp := (Transfer.within_coordinate matching hp hx).2.2
  have hyq := (Transfer.within_coordinate matching hq hy).2.1
  rw [same] at hyq
  omega

/-- No two transfers write to one position. -/
theorem nodup_targets (matching : Matches out f axis parts) :
    ((transfers axis 0 parts).map (Transfer.target out f axis)).Nodup := by
  have hcoords := nodup_coordinates_transfers matching
  have hmap : (transfers axis 0 parts).map (Transfer.target out f axis) =
      ((transfers axis 0 parts).map (Transfer.coordinate f axis)).map
        (Axis.position out.axes) := by
    rw [List.map_map]
    rfl
  rw [hmap]
  apply hcoords.map_on
  intro c hc e he same
  have hwithin : ∀ c ∈ (transfers axis 0 parts).map (Transfer.coordinate f axis),
      Within out.dims c := by
    intro c hc
    obtain ⟨x, hx, rfl⟩ := List.mem_map.mp hc
    obtain ⟨p, hp, hx⟩ := List.mem_flatMap.mp hx
    exact (Transfer.within_coordinate matching hp hx).1
  exact (matching.packedIn (hwithin c hc)).distinct c e (hwithin c hc) (hwithin e he) same

/-- The transfer that brings an element of a part to its place. -/
theorem exists_transfer (haxis : axis < out.dims.length)
    (fit : ∀ t ∈ parts, t.FitsAlong out axis) (dense : ∀ t ∈ parts, 0 < t.numel → t.PackedIn f)
    {start : Nat} {c : List Nat} (hc : Within out.dims c) (hstart : start ≤ c.getD axis 0)
    {t : Tensor} {e : List Nat}
    (hs : sourceAt axis parts (lowerAxis axis start c) = some (t, e)) :
    ∃ x ∈ transfers axis start parts, x.coordinate f axis = c ∧ x.part = t ∧
      x.number = Axis.position t.axes e := by
  have hlen : axis < c.length := hc.length_eq ▸ haxis
  induction parts generalizing start with
  | nil => simp [sourceAt] at hs
  | cons u us ih =>
    rw [sourceAt, getD_lowerAxis hlen] at hs
    split at hs
    · rename_i hu
      obtain ⟨rfl, rfl⟩ : u = t ∧ lowerAxis axis start c = e := by simpa using hs
      have hw : Within u.dims (lowerAxis axis start c) := by
        rw [fit u (by simp)]
        exact within_lowerAxis haxis hc hu
      have hpacked := dense u (by simp) hw.volume_pos
      have hlt : Axis.position u.axes (lowerAxis axis start c) < u.numel :=
        MemoryFormat.position_lt hpacked hw
      have hunrank : f.unrank u.dims (Axis.position u.axes (lowerAxis axis start c)) =
          lowerAxis axis start c :=
        MemoryFormat.position_injective hpacked (f.within_unrank hlt) hw
          (MemoryFormat.position_unrank hpacked hlt)
      refine ⟨⟨start, u, Axis.position u.axes (lowerAxis axis start c)⟩, ?_, ?_, rfl, rfl⟩
      · exact List.mem_flatMap.mpr
          ⟨(start, u), by simp [placed], mem_transfersOf.mpr ⟨rfl, rfl, hlt⟩⟩
      · rw [Transfer.coordinate, hunrank, raiseAxis_lowerAxis hlen hstart]
    · rw [lowerAxis_lowerAxis hlen] at hs
      have hnext : start + u.extentAt axis ≤ c.getD axis 0 := by omega
      obtain ⟨x, hx, hrest⟩ := ih (fun v hv => fit v (by simp [hv]))
        (fun v hv => dense v (by simp [hv])) hnext hs
      exact ⟨x, List.mem_append_right _ hx, hrest⟩

/-- The transfers write just the elements of the output. -/
theorem hit_transfers (matching : Matches out f axis parts) {p : Nat} :
    Tensor.Hit (Transfer.target out f axis) (transfers axis 0 parts) p ↔ out.Reaches p := by
  constructor
  · intro htarget
    rcases htarget with ⟨x, hx, hp⟩
    obtain ⟨q, hq, hx⟩ := List.mem_flatMap.mp hx
    exact ⟨_, (Transfer.within_coordinate matching hq hx).1, hp⟩
  · intro htarget
    rcases htarget with ⟨c, hc, hp⟩
    have hlen : axis < c.length := hc.length_eq ▸ matching.axis_lt
    have hlt : c.getD axis 0 < totalExtent axis parts :=
      matching.total ▸ hc.getD_lt matching.axis_lt
    obtain ⟨t, e, hs⟩ := exists_sourceAt hlen hlt
    obtain ⟨x, hx, hcoord, -, -⟩ := exists_transfer matching.axis_lt matching.fit matching.dense
      hc (Nat.zero_le _) (by simpa using hs)
    exact ⟨x, hx, by rw [Transfer.target, hcoord, hp]⟩

/-- Together the transfers write every element of the output exactly once. -/
theorem targets_perm (matching : Matches out f axis parts) :
    ((transfers axis 0 parts).map (Transfer.target out f axis)).Perm
      ((coordinates out.dims).map (Axis.position out.axes)) := by
  have hdistinct : out.Distinct := fun c e hc => (matching.packedIn hc).distinct c e hc
  apply (List.perm_ext_iff_of_nodup (nodup_targets matching) (Tensor.distinct_iff_nodup.mp hdistinct)).mpr
  intro n
  rw [List.mem_map, List.mem_map]
  exact (hit_transfers matching).trans Tensor.hit_coordinates.symm

/-- What a transfer reads is an element of its part. -/
theorem reads_part (matching : Matches out f axis parts) {x : Transfer}
    (hx : x ∈ transfers axis 0 parts) :
    x.part ∈ parts ∧ ∃ c, Within x.part.dims c ∧ Axis.position x.part.axes c = x.number := by
  obtain ⟨p, hp, hx⟩ := List.mem_flatMap.mp hx
  obtain ⟨-, hpart, hnumber⟩ := mem_transfersOf.mp hx
  have hmem := (matching.mem_placed hp).1
  have hpacked := matching.dense _ hmem (Nat.zero_lt_of_lt hnumber)
  rw [hpart]
  exact ⟨hmem, _, f.within_unrank hnumber, MemoryFormat.position_unrank hpacked hnumber⟩

/-- No transfer reads a byte that another one writes. -/
theorem value_eq_of_changedAt (matching : Matches out f axis parts) {x : Transfer}
    (hx : x ∈ transfers axis 0 parts) {h k : Heap} (hk : out.ChangedAt out.Reaches h k) :
    x.value k = x.value h := by
  obtain ⟨hmem, c, hc, hpos⟩ := reads_part matching hx
  rw [Transfer.value, Transfer.value, ← hpos, (matching.apart _ hmem).loadElement hk hc]

end Match

section Left
variable {out : Tensor} {f : MemoryFormat} {axis : Nat} {ps qs : List Tensor} {xs : List Transfer}
  {h : Heap}

theorem mem_transfers_append {x : Transfer} (hx : x ∈ transfers axis 0 ps) (qs : List Tensor) :
    x ∈ transfers axis 0 (ps ++ qs) := by
  rw [transfers_append]
  exact List.mem_append_left _ hx

/-- The transfers of the first few of matching parts, in whatever order, do not get in each
other's way. -/
theorem independent_transfers (matching : Matches out f axis (ps ++ qs))
    (perm : xs.Perm (transfers axis 0 ps)) (inside : out.Inside h) :
    Tensor.Independent out (Transfer.target out f axis) Transfer.value xs h := by
  have hmem : ∀ x ∈ xs, x ∈ transfers axis 0 (ps ++ qs) :=
    fun x hx => mem_transfers_append (perm.mem_iff.mp hx) qs
  constructor
  · intro x hx k
    rw [Transfer.value, Tensor.length_loadElement, Tensor.elementSize, Tensor.elementSize,
      matching.dtype _ (reads_part matching (hmem x hx)).1]
  · intro x hx
    rcases List.mem_flatMap.mp (hmem x hx) with ⟨p, hp, hx⟩
    exact inside _ (Transfer.within_coordinate matching hp hx).1
  · have hnodup := nodup_targets matching
    rw [transfers_append, List.map_append] at hnodup
    exact (perm.map _).nodup_iff.mpr (List.nodup_append.mp hnodup).1
  · intro x hx k hk
    refine value_eq_of_changedAt matching (hmem x hx) (hk.mono fun p hp => ?_)
    rcases hp with ⟨y, hy, hp⟩
    exact (hit_transfers matching).mp ⟨y, hmem y hy, hp⟩

/-- Made in whatever order, the transfers of the first few of matching parts join these parts,
and leave the slabs of the others as they are. -/
theorem joins_scatter [FloatCasts] (matching : Matches out f axis (ps ++ qs))
    (perm : xs.Perm (transfers axis 0 ps)) (inside : out.Inside h) :
    Joins out axis 0 ps h (out.scatter (Transfer.target out f axis) Transfer.value xs h) := by
  have hind := independent_transfers matching perm inside
  constructor
  · apply (Tensor.changedAt_scatter hind.length).mono
    intro p hp
    rcases hp with ⟨x, hx, rfl⟩
    rcases List.mem_flatMap.mp (perm.mem_iff.mp hx) with ⟨q, hq, hx⟩
    have hplaced : q ∈ placed axis 0 (ps ++ qs) := by
      rw [placed_append]
      exact List.mem_append_left _ hq
    have hwithin := Transfer.within_coordinate matching hplaced hx
    have hend := (mem_placed hq).2.2
    exact ⟨_, hwithin.1, Nat.zero_le _, by omega, rfl⟩
  · intro c hc hstart t e hs
    obtain ⟨x, hx, hcoord, rfl, hnumber⟩ := exists_transfer matching.axis_lt
      (fun t ht => matching.fit t (List.mem_append_left _ ht))
      (fun t ht => matching.dense t (List.mem_append_left _ ht)) hc hstart hs
    have hmem := (reads_part matching (mem_transfers_append hx qs)).1
    have hload := Tensor.loadElement_scatter hind x (perm.mem_iff.mpr hx)
    rw [Transfer.target, hcoord] at hload
    rw [hload, Transfer.value, hnumber, Tensor.converted, matching.dtype _ hmem, convertElement_self]

end Left

end TensorConcat
