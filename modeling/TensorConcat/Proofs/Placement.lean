import TensorConcat.Proofs.Engines
import TensorConcat.Proofs.LaunchTrace

/-!
# Every input has its exact place

An output is filled by parts that lie side by side along one axis. The elements of a part are
numbered in memory order over the extents of the part, though the strides are those of the output.
A number and the index at which its part starts make a coordinate of the output, and each
coordinate is made once. The kernel finds the position of that coordinate in words: nothing
overflows, no extent is zero, and the positions are the numbers below the volume, each of them
once. Axes of extent one, on which the order of strides and the memory order may disagree, have no
part in it.
-/

namespace TensorConcat

open Number

namespace MemoryFormat
variable {f : MemoryFormat} {ds : List Nat}

/-- The coordinates below the extents in memory order, the innermost axis fastest. -/
def enumerate (f : MemoryFormat) (ds : List Nat) : List (List Nat) :=
  (coordinates (f.arrange ds)).map f.restore

theorem getElem?_enumerate {n : Nat} (h : n < volume ds) :
    (f.enumerate ds)[n]? = some (f.unrank ds n) := by
  have hn : n < (List.range (volume (f.arrange ds))).length := by
    rwa [List.length_range, volume_arrange]
  rw [enumerate, coordinates_eq_map_digits, List.map_map, List.getElem?_map,
    List.getElem?_eq_getElem hn, List.getElem_range]
  rfl

theorem index_unrank {n : Nat} (h : n < volume ds) :
    index (f.arrange ds) (f.arrange (f.unrank ds n)) = n := by
  rw [unrank, arrange_restore, index_digits (by rwa [volume_arrange])]

theorem exists_unrank {c : List Nat} (hc : Within ds c) : ∃ n < volume ds, f.unrank ds n = c := by
  have hwithin := (within_arrange f hc.length_eq).mpr hc
  have hlt := index_lt hwithin
  rw [volume_arrange] at hlt
  refine ⟨_, hlt, ?_⟩
  rw [unrank, digits_index hwithin, restore_arrange]

end MemoryFormat

section Parts
variable {es : List Nat} {k l i d e : Nat}

/-- The index along the joined axis at which a part starts. -/
def startOf (es : List Nat) (k : Nat) : Nat := (es.take k).sum

theorem startOf_succ (he : es[k]? = some e) : startOf es (k + 1) = startOf es k + e := by
  have hk := List.getElem?_eq_some_iff.mp he
  rw [startOf, List.sum_take_succ es k hk.1, hk.2]
  rfl

theorem startOf_mono (h : k ≤ l) : startOf es k ≤ startOf es l := by
  have htake : (es.take l).take k = es.take k := by rw [List.take_take, Nat.min_eq_left h]
  have hsplit := List.sum_take_add_sum_drop (es.take l) k
  rw [htake] at hsplit
  unfold startOf
  omega

theorem startOf_le_sum : startOf es k ≤ es.sum := by
  have hsplit := List.sum_take_add_sum_drop es k
  unfold startOf
  omega

/-- A part that starts at or below an index and ends above it is the only one. -/
theorem part_unique (hd : es[k]? = some d) (he : es[l]? = some e) (hk : startOf es k ≤ i)
    (hkd : i < startOf es k + d) (hl : startOf es l ≤ i) (hle : i < startOf es l + e) : k = l := by
  rw [← startOf_succ hd] at hkd
  rw [← startOf_succ he] at hle
  by_contra hne
  cases Nat.lt_or_gt_of_ne hne with
  | inl hlt =>
    have hmono : startOf es (k + 1) ≤ startOf es l := startOf_mono hlt
    omega
  | inr hgt =>
    have hmono : startOf es (l + 1) ≤ startOf es k := startOf_mono hgt
    omega

theorem exists_part (h : i < es.sum) :
    ∃ k e, es[k]? = some e ∧ startOf es k ≤ i ∧ i < startOf es k + e := by
  induction es generalizing i with
  | nil => simp at h
  | cons d es ih =>
    rw [List.sum_cons] at h
    by_cases hd : i < d
    · exact ⟨0, d, rfl, Nat.zero_le _, by simpa [startOf] using hd⟩
    · obtain ⟨k, e, he, hlo, hhi⟩ := ih (show i - d < es.sum by omega)
      have hstart : startOf (d :: es) (k + 1) = d + startOf es k := by
        rw [startOf, List.take_succ_cons, List.sum_cons]
        rfl
      exact ⟨k + 1, e, he, by omega, by omega⟩

end Parts

/-- Extents of an output that words can count, and parts that cover one axis of it. -/
structure Tiling (dims : List Nat) (axis : Nat) (es : List Nat) : Prop where
  positive : ∀ d ∈ dims, 0 < d
  small : volume dims < 2 ^ 32
  axis_lt : axis < dims.length
  covers : es.sum = dims.getD axis 0

/-- The second number counts an element of the part that the first one names. -/
def IsElement (dims : List Nat) (axis : Nat) (es : List Nat) (p : Nat × Nat) : Prop :=
  ∃ e, es[p.1]? = some e ∧ p.2 < volume (dims.set axis e)

/-- The coordinate in the output of an element of a part. -/
def coordinateOf (f : MemoryFormat) (dims : List Nat) (axis : Nat) (es : List Nat) (p : Nat × Nat) :
    List Nat :=
  raiseAxis axis (startOf es p.1) (f.unrank (dims.set axis (es.getD p.1 0)) p.2)

namespace Tiling
variable {f : MemoryFormat} {dims es c : List Nat} {axis k e n : Nat} {p q : Nat × Nat}

theorem volume_pos (tiling : Tiling dims axis es) : 0 < volume dims :=
  volume_pos_iff.mpr tiling.positive

theorem packed (tiling : Tiling dims axis es) (f : MemoryFormat) :
    Packed (f.arrange (f.axes dims)) := by
  have hsmall := tiling.small
  have hfits : volume dims ≤ wordMax := by
    unfold wordMax
    omega
  exact f.packed_axes tiling.volume_pos hfits

theorem indexable (tiling : Tiling dims axis es) (f : MemoryFormat) :
    OutputLayout.Indexable (f.axes dims) :=
  indexable_axes tiling.volume_pos tiling.small

/-- A part ends inside the output. -/
theorem room (tiling : Tiling dims axis es) (he : es[k]? = some e) :
    startOf es k + e ≤ dims.getD axis 0 := by
  rw [← startOf_succ he, ← tiling.covers]
  exact startOf_le_sum

theorem getD_eq (he : es[k]? = some e) : es.getD k 0 = e := by
  rw [List.getD_eq_getElem?_getD, he, Option.getD_some]

theorem axis_lt_unrank (tiling : Tiling dims axis es) (hn : n < volume (dims.set axis e)) :
    axis < (f.unrank (dims.set axis e) n).length := by
  rw [(f.within_unrank hn).length_eq, List.length_set]
  exact tiling.axis_lt

theorem within_coordinateOf (tiling : Tiling dims axis es) (hp : IsElement dims axis es p) :
    Within dims (coordinateOf f dims axis es p) := by
  obtain ⟨e, he, hn⟩ := hp
  rw [coordinateOf, getD_eq he]
  exact within_raiseAxis tiling.axis_lt (f.within_unrank hn) (tiling.room he)

/-- The index on the joined axis lies between the ends of the part. -/
theorem getD_coordinateOf (tiling : Tiling dims axis es) (he : es[p.1]? = some e)
    (hn : p.2 < volume (dims.set axis e)) :
    startOf es p.1 ≤ (coordinateOf f dims axis es p).getD axis 0 ∧
      (coordinateOf f dims axis es p).getD axis 0 < startOf es p.1 + e := by
  have hlt := (f.within_unrank hn).getD_lt_set tiling.axis_lt
  rw [coordinateOf, getD_eq he, getD_raiseAxis (tiling.axis_lt_unrank hn)]
  omega

theorem coordinateOf_injOn (tiling : Tiling dims axis es) (f : MemoryFormat) :
    Set.InjOn (coordinateOf f dims axis es) {p | IsElement dims axis es p} := by
  intro p hp q hq same
  obtain ⟨d, hd, hm⟩ := hp
  obtain ⟨e, he, hn⟩ := hq
  have hpart := tiling.getD_coordinateOf (f := f) hd hm
  have hpartToo := tiling.getD_coordinateOf (f := f) he hn
  rw [← same] at hpartToo
  have hk := part_unique hd he hpart.1 hpart.2 hpartToo.1 hpartToo.2
  have hde : d = e := by
    rw [hk, he] at hd
    exact (Option.some.inj hd).symm
  rw [← hde] at he hn
  -- Moved back to the start of the part, the coordinates are still the same.
  have hback := congrArg (lowerAxis axis (startOf es p.1)) same
  rw [coordinateOf, coordinateOf, getD_eq hd, getD_eq he, ← hk,
    lowerAxis_raiseAxis (tiling.axis_lt_unrank hm),
    lowerAxis_raiseAxis (tiling.axis_lt_unrank hn)] at hback
  have hnumber := MemoryFormat.index_unrank (f := f) hm
  rw [hback, MemoryFormat.index_unrank hn] at hnumber
  exact Prod.ext hk hnumber.symm

theorem exists_coordinateOf (tiling : Tiling dims axis es) (f : MemoryFormat) (hc : Within dims c) :
    ∃ p, IsElement dims axis es p ∧ coordinateOf f dims axis es p = c := by
  have hlt := hc.getD_lt tiling.axis_lt
  rw [← tiling.covers] at hlt
  obtain ⟨k, e, he, hlo, hhi⟩ := exists_part hlt
  have hlower : Within (dims.set axis e) (lowerAxis axis (startOf es k) c) :=
    within_lowerAxis tiling.axis_lt hc (by omega)
  obtain ⟨n, hn, hunrank⟩ := MemoryFormat.exists_unrank (f := f) hlower
  refine ⟨(k, n), ⟨e, he, hn⟩, ?_⟩
  rw [coordinateOf, getD_eq he, hunrank]
  exact raiseAxis_lowerAxis (hc.length_eq ▸ tiling.axis_lt) hlo

/-- Words hold where a part starts and how far it goes. -/
theorem toNat_part (tiling : Tiling dims axis es) (he : es[k]? = some e) :
    (UInt32.ofNat (startOf es k)).toNat = startOf es k ∧ (UInt32.ofNat e).toNat = e := by
  have hextent := OutputLayout.extent_lt (tiling.indexable .contiguous) axis
  rw [MemoryFormat.extents_axes] at hextent
  have hroom := tiling.room he
  exact ⟨toNat_ofNat_of_lt (by omega), toNat_ofNat_of_lt (by omega)⟩

theorem toNat_number (tiling : Tiling dims axis es) (he : es[k]? = some e)
    (hn : n < volume (dims.set axis e)) : (UInt32.ofNat n).toNat = n := by
  have hle := volume_set_le (Nat.le_of_add_left_le (tiling.room he))
  have hsmall := tiling.small
  exact toNat_ofNat_of_lt (by omega)

theorem position_coordinateOf_lt (tiling : Tiling dims axis es) (hp : IsElement dims axis es p) :
    Axis.position (f.axes dims) (coordinateOf f dims axis es p) < volume dims := by
  have hwithin := tiling.within_coordinateOf (f := f) hp
  rw [← f.extents_axes dims] at hwithin
  have hlt := MemoryFormat.position_lt (tiling.packed f) hwithin
  rwa [f.extents_axes] at hlt

end Tiling

namespace OutputLayout
variable {f : MemoryFormat} {dims es : List Nat} {axis : Nat} {p : Nat × Nat}

/-- Where an element is written, counted in elements from the start of the output, with every
operation checked. -/
def placeOf (l : OutputLayout) (start dimSize : UInt32) (joined : Nat) (linear : UInt32) :
    Except Fault UInt32 := do
  let base ← mulWord start (l.strideAt joined)
  addWord base (← l.offsetOfChecked dimSize joined linear)

/-- An element of a part that ends inside the output has a place, which is found without overflow:
the coordinate that has the number in memory order over the part, moved up to where the part
starts. -/
theorem placeOf_eq {axes : List Axis} {start dimSize linear : UInt32} {joined : Nat}
    (indexable : Indexable axes) (packed : Packed (f.arrange axes))
    (small : volume (Axis.extents axes) < 2 ^ 32) (hjoined : joined < axes.length)
    (room : start.toNat + dimSize.toNat ≤ (Axis.extents axes).getD joined 0)
    (hlinear : linear.toNat < volume ((Axis.extents axes).set joined dimSize.toNat)) :
    ∃ w, (ofAxes axes).placeOf start dimSize joined linear = .ok w ∧
      w.toNat = Axis.position axes (raiseAxis joined start.toNat
        (f.unrank ((Axis.extents axes).set joined dimSize.toNat) linear.toNat)) := by
  have hunrank := f.within_unrank hlinear
  have hlength := hunrank.length_eq
  rw [List.length_set, Axis.length_extents] at hlength
  have hlt := MemoryFormat.position_lt packed
    (within_raiseAxis (by rwa [Axis.length_extents]) hunrank room)
  have hstride := toNat_strideAt indexable joined
  -- The part is moved up by whole strides of the joined axis.
  rw [raiseAxis, Axis.position_set hjoined hlength] at hlt ⊢
  obtain ⟨offset, hoffset, hposition⟩ := offsetOf_ofAxes indexable packed (Nat.le_of_lt small)
    hjoined (Nat.le_of_add_left_le room) hlinear
  obtain ⟨base, hbase, hproduct⟩ := @mulWord_eq start ((ofAxes axes).strideAt joined)
    (by rw [hstride]; omega)
  rw [hstride] at hproduct
  obtain ⟨w, hw, hsum⟩ := @addWord_eq base offset (by rw [hproduct, hposition]; omega)
  refine ⟨w, ?_, by rw [hsum, hproduct, hposition, Nat.add_comm]⟩
  simp only [placeOf, offsetOfChecked_eq, hbase, hoffset, hw, bind, Except.bind]

/-- The place of an element of one of the parts. -/
def place (l : OutputLayout) (axis : Nat) (es : List Nat) (p : Nat × Nat) : Except Fault UInt32 :=
  l.placeOf (.ofNat (startOf es p.1)) (.ofNat (es.getD p.1 0)) axis (.ofNat p.2)

/-- The place is found in words, and is the position of the coordinate. -/
theorem place_eq (tiling : Tiling dims axis es) (f : MemoryFormat) (hp : IsElement dims axis es p) :
    ∃ w, (ofAxes (f.axes dims)).place axis es p = .ok w ∧
      w.toNat = Axis.position (f.axes dims) (coordinateOf f dims axis es p) := by
  obtain ⟨e, he, hn⟩ := hp
  have hpart := tiling.toNat_part he
  have hnumber := tiling.toNat_number he hn
  have haxis : axis < (f.axes dims).length := by
    rw [f.length_axes]
    exact tiling.axis_lt
  have hplace := @placeOf_eq f (f.axes dims) (.ofNat (startOf es p.1)) (.ofNat e) (.ofNat p.2) axis
    (tiling.indexable f) (tiling.packed f)
  rw [f.extents_axes, hpart.1, hpart.2, hnumber] at hplace
  rw [place, coordinateOf, Tiling.getD_eq he]
  exact hplace tiling.small haxis (tiling.room he) hn

theorem place_mapsTo (tiling : Tiling dims axis es) (f : MemoryFormat) :
    Set.MapsTo ((ofAxes (f.axes dims)).place axis es) {p | IsElement dims axis es p}
      {r | ∃ w, r = .ok w ∧ w.toNat < volume dims} := by
  intro p hp
  obtain ⟨w, hw, hposition⟩ := place_eq tiling f hp
  exact ⟨w, hw, hposition ▸ tiling.position_coordinateOf_lt hp⟩

theorem place_injOn (tiling : Tiling dims axis es) (f : MemoryFormat) :
    Set.InjOn ((ofAxes (f.axes dims)).place axis es) {p | IsElement dims axis es p} := by
  intro p hp q hq same
  obtain ⟨v, hv, hp'⟩ := place_eq tiling f hp
  obtain ⟨w, hw, hq'⟩ := place_eq tiling f hq
  rw [hv, hw] at same
  rw [Except.ok.inj same, hq'] at hp'
  have hwithin {r : Nat × Nat} (hr : IsElement dims axis es r) :
      Within (Axis.extents (f.axes dims)) (coordinateOf f dims axis es r) := by
    rw [f.extents_axes]
    exact tiling.within_coordinateOf hr
  have hcoordinate :=
    MemoryFormat.position_injective (tiling.packed f) (hwithin hp) (hwithin hq) hp'.symm
  exact tiling.coordinateOf_injOn f hp hq hcoordinate

theorem place_surjOn (tiling : Tiling dims axis es) (f : MemoryFormat) :
    Set.SurjOn ((ofAxes (f.axes dims)).place axis es) {p | IsElement dims axis es p}
      {r | ∃ w, r = .ok w ∧ w.toNat < volume dims} := by
  intro r hr
  obtain ⟨w, rfl, hlt⟩ := hr
  obtain ⟨p, hp, hcoordinate⟩ := tiling.exists_coordinateOf f (f.within_unrank hlt)
  obtain ⟨v, hv, hposition⟩ := place_eq tiling f hp
  rw [← f.extents_axes dims] at hlt
  have hnumber := MemoryFormat.position_unrank (tiling.packed f) hlt
  rw [f.extents_axes, ← hcoordinate, ← hposition] at hnumber
  refine ⟨p, hp, ?_⟩
  rw [hv, UInt32.toNat_inj.mp hnumber]

/-- The layout of an output laid out in a format is captured, and it places the parts that cover an
axis exactly: element `n` of part `k` goes to the coordinate that comes `n`-th in memory order over
the extents of the part, moved up to where the part starts, and each element of the output is the
place of one element of one part. -/
theorem places_parts_exactly (t : Tensor) (f : MemoryFormat) {dims es : List Nat} {axis : Nat}
    (laid : t.axes = f.axes dims) (tiling : Tiling dims axis es) :
    ∃ layout, capture t.rank t = .ok layout ∧
      (∀ k e n, es[k]? = some e → n < volume (dims.set axis e) →
        ∃ c w, (f.enumerate (dims.set axis e))[n]? = some c ∧
          layout.placeOf (.ofNat (es.take k).sum) (.ofNat e) axis (.ofNat n) = .ok w ∧
          w.toNat = Axis.position t.axes (raiseAxis axis (es.take k).sum c)) ∧
      Set.BijOn (layout.place axis es) {p | IsElement dims axis es p}
        {r | ∃ w, r = .ok w ∧ w.toNat < volume dims} := by
  have hcapture : capture t.rank t = .ok (ofAxes (f.axes dims)) := by
    rw [← laid]
    apply capture_eq
    rw [laid]
    exact tiling.indexable f
  refine ⟨_, hcapture, ?_, place_mapsTo tiling f, place_injOn tiling f, place_surjOn tiling f⟩
  intro k e n he hn
  obtain ⟨w, hw, hposition⟩ := place_eq tiling f (p := (k, n)) ⟨e, he, hn⟩
  rw [coordinateOf, Tiling.getD_eq he] at hposition
  rw [place, Tiling.getD_eq he] at hw
  rw [laid]
  exact ⟨_, w, MemoryFormat.getElem?_enumerate hn, hw, hposition⟩

/-- A channels-last output with one channel, whose strides tie. -/
def oneChannel : Tensor := ⟨0, 0, MemoryFormat.channelsLast.axes [2, 1, 3], .u8⟩

/-- The layout has the tied axes in another order than the format, and places the parts all the
same. -/
theorem places_parts_exactly_tied : Tiling [2, 1, 3] 2 [1, 2] ∧
    ∃ layout, capture 3 oneChannel = .ok layout ∧ layout.order = [0, 1, 2] ∧
      MemoryFormat.channelsLast.order 3 = [0, 2, 1] ∧
      ∃ w, layout.placeOf 1 2 2 3 = .ok w ∧ w.toNat = 5 := by
  have tiling : Tiling [2, 1, 3] 2 [1, 2] := ⟨by decide, by decide, by decide, by decide⟩
  have captured : capture 3 oneChannel = .ok ⟨[2, 1, 3], [3, 1, 1], [0, 1, 2]⟩ := by cbv
  obtain ⟨layout, hlayout, hplaces, -⟩ := places_parts_exactly oneChannel .channelsLast rfl tiling
  obtain ⟨c, w, hc, hw, hposition⟩ := hplaces 1 2 3 rfl (by decide)
  obtain rfl := Except.ok.inj (captured.symm.trans hlayout)
  obtain rfl : c = [1, 0, 1] := Option.some.inj (hc.symm.trans (by decide))
  exact ⟨tiling, _, captured, rfl, rfl, w, hw, hposition⟩

end OutputLayout

end TensorConcat
