import TensorConcat.Concat.Request
import TensorConcat.Concat.Slabs
import TensorConcat.Proofs.Planning

/-!
# Filling slab by slab joins the inputs

A slab is the part of an output that one input fills. It addresses the output's own
elements, so copying an input into its slab is one step of joining, and the loop
over the inputs is the join of all that count. The loop never fails when the
inputs fit the output, whether or not they share bytes with it.
-/

namespace TensorConcat

namespace Tensor

/-- The part of the output from `start` on along an axis. -/
def slab (t : Tensor) (axis start length : Nat) : Tensor :=
  { t with
    offset := if length = 0 then t.offset else t.offset + start * t.strides.getD axis 0
    axes := t.axes.set axis ⟨length, t.strides.getD axis 0⟩ }

theorem narrow_eq_slab {t : Tensor} {axis start length : Nat} (haxis : axis < t.axes.length)
    (room : start + length ≤ t.extentAt axis) :
    t.narrow axis start length = .ok (t.slab axis start length) := by
  have hextent : (t.axes[axis]).extent = t.extentAt axis := by
    simp [extentAt, dims, Axis.extents, haxis]
  have hstride : (t.axes[axis]).stride = t.strides.getD axis 0 := by
    simp [strides, Axis.strides, haxis]
  simp only [narrow, List.getElem?_eq_getElem haxis, slab, ← hstride]
  rw [if_neg (by omega)]

section Slab
variable {t : Tensor} {axis start length : Nat}

theorem dims_slab (t : Tensor) (axis start length : Nat) :
    (t.slab axis start length).dims = t.dims.set axis length := by
  simp [slab, dims, Axis.extents, List.map_set]

theorem strides_slab (t : Tensor) (axis start length : Nat) :
    (t.slab axis start length).strides = t.strides := by
  have hset := @set_getD_self t.strides axis
  rwa [strides, Axis.strides, slab, List.map_set]

theorem extentAt_slab (haxis : axis < t.dims.length) (start length : Nat) :
    (t.slab axis start length).extentAt axis = length := by
  rw [extentAt, dims_slab, getD_set haxis, if_pos rfl]

theorem position_slab (t : Tensor) (axis start length : Nat) (c : List Nat) :
    Axis.position (t.slab axis start length).axes c = Axis.position t.axes c :=
  Axis.position_set_extent t.axes axis length c

theorem length_axes_eq (t : Tensor) : t.axes.length = t.dims.length :=
  (Axis.length_extents _).symm

/-- An element of a slab is the element of the output whose coordinate is moved up. -/
theorem offset_slab {c : List Nat} (haxis : axis < t.dims.length)
    (hc : Within (t.slab axis start length).dims c) :
    (t.slab axis start length).offset + Axis.position (t.slab axis start length).axes c =
      t.offset + Axis.position t.axes (raiseAxis axis start c) := by
  rw [dims_slab] at hc
  have hlen : c.length = t.axes.length := by
    rw [hc.length_eq, List.length_set, length_axes_eq]
  have hlt := hc.getD_lt_set haxis
  rw [position_slab, raiseAxis, Axis.position_set (t.length_axes_eq ▸ haxis) hlen]
  simp only [slab, if_neg (Nat.ne_zero_of_lt hlt)]
  change _ + start * t.strides.getD axis 0 + _ = _ + (_ + start * t.strides.getD axis 0)
  omega

theorem occupies_slab {c : List Nat} (haxis : axis < t.dims.length)
    (hc : Within (t.slab axis start length).dims c) {s i : Nat} :
    (t.slab axis start length).Occupies (Axis.position (t.slab axis start length).axes c) s i ↔
      t.Occupies (Axis.position t.axes (raiseAxis axis start c)) s i := by
  unfold Occupies
  rw [offset_slab haxis hc]
  rfl

theorem loadElement_slab {c : List Nat} (haxis : axis < t.dims.length)
    (hc : Within (t.slab axis start length).dims c) (h : Heap) :
    (t.slab axis start length).loadElement h (Axis.position (t.slab axis start length).axes c) =
      t.loadElement h (Axis.position t.axes (raiseAxis axis start c)) := by
  unfold loadElement
  rw [offset_slab haxis hc]
  rfl

/-- Moving up from a slab stays inside the output. -/
theorem within_raise_slab {c : List Nat} (haxis : axis < t.dims.length)
    (room : start + length ≤ t.extentAt axis) (hc : Within (t.slab axis start length).dims c) :
    Within t.dims (raiseAxis axis start c) :=
  within_raiseAxis haxis (t.dims_slab axis start length ▸ hc) room

theorem reaches_slab (haxis : axis < t.dims.length) (room : start + length ≤ t.extentAt axis)
    {p s i : Nat} (hp : (t.slab axis start length).Reaches p)
    (ho : (t.slab axis start length).Occupies p s i) :
    ∃ q, t.InSlab axis start (start + length) q ∧ t.Occupies q s i := by
  obtain ⟨c, hc, rfl⟩ := hp
  refine ⟨_, ⟨_, within_raise_slab haxis room hc, ?_, ?_, rfl⟩, (occupies_slab haxis hc).mp ho⟩
  all_goals
    have hlen := hc.length_eq
    rw [dims_slab] at hc hlen
    have hlt := hc.getD_lt_set haxis
    rw [List.length_set] at hlen
    rw [getD_raiseAxis (hlen ▸ haxis)]
    omega

theorem Apart.slab {u : Tensor} (apart : t.Apart u) (haxis : axis < t.dims.length)
    (room : start + length ≤ t.extentAt axis) : (t.slab axis start length).Apart u := by
  intro s i haddr
  rcases haddr with ⟨c, hc, ho⟩
  exact apart s i ⟨_, within_raise_slab haxis room hc, (occupies_slab haxis hc).mp ho⟩

theorem Inside.slab {h : Heap} (inside : t.Inside h) (haxis : axis < t.dims.length)
    (room : start + length ≤ t.extentAt axis) : (t.slab axis start length).Inside h := by
  intro c hc
  rw [offset_slab haxis hc]
  exact inside _ (within_raise_slab haxis room hc)

theorem Distinct.slab (distinct : t.Distinct) (haxis : axis < t.dims.length)
    (room : start + length ≤ t.extentAt axis) : (t.slab axis start length).Distinct := by
  intro c e hc he same
  have hraise := distinct _ _ (within_raise_slab haxis room hc) (within_raise_slab haxis room he)
    (by have := offset_slab haxis hc; have := offset_slab haxis he; omega)
  have hlc : axis < c.length := by rw [hc.length_eq, dims_slab]; simpa using haxis
  have hle : axis < e.length := by rw [he.length_eq, dims_slab]; simpa using haxis
  rw [← @lowerAxis_raiseAxis axis start c hlc, hraise, lowerAxis_raiseAxis hle]

theorem numel_slab_le (room : start + length ≤ t.extentAt axis) :
    (t.slab axis start length).numel ≤ t.numel := by
  unfold numel
  rw [dims_slab]
  exact volume_set_le (by unfold extentAt at room; omega)

end Slab

end Tensor

section Fill
variable {out : Tensor} {axis start : Nat}

/-- Memory after each input in turn has been copied into its slab. -/
def fillSlabs [FloatCasts] (out : Tensor) (axis : Nat) : Nat → List Tensor → Heap → Heap
  | _, [], h => h
  | start, t :: rest, h =>
    fillSlabs out axis (start + t.extentAt axis) rest
      ((out.slab axis start (t.extentAt axis)).copyMatching t h)

theorem changedAt_copySlab [FloatCasts] (start : Nat) {t : Tensor} (haxis : axis < out.dims.length)
    (fits : out.numel ≤ wordMax) (fit : t.FitsAlong out axis)
    (room : start + t.extentAt axis ≤ out.extentAt axis) (h : Heap) :
    out.ChangedAt (out.InSlab axis start (start + t.extentAt axis)) h
      ((out.slab axis start (t.extentAt axis)).copyMatching t h) := by
  have hslab := Tensor.changedAt_copyMatching ((Tensor.dims_slab out axis start _).trans fit.symm)
    ((Tensor.numel_slab_le room).trans fits) h
  refine ⟨hslab.count, hslab.capacity, fun s i none => hslab.byte s i fun p hp ho => ?_⟩
  obtain ⟨q, hq, hoq⟩ := Tensor.reaches_slab haxis room hp ho
  exact none q hq hoq

theorem joins_copySlab [FloatCasts] (start : Nat) {t : Tensor} (haxis : axis < out.dims.length)
    (fits : out.numel ≤ wordMax)
    (distinct : out.Distinct) (fit : t.FitsAlong out axis) (apart : out.Apart t)
    (room : start + t.extentAt axis ≤ out.extentAt axis) {h : Heap} (inside : out.Inside h) :
    Joins out axis start [t] h ((out.slab axis start (t.extentAt axis)).copyMatching t h) where
  changed := by simpa using changedAt_copySlab start haxis fits fit room h
  value c hc hstart u e hs := by
    have hlen : axis < c.length := hc.length_eq ▸ haxis
    obtain ⟨hlt, rfl, rfl⟩ : (lowerAxis axis start c).getD axis 0 < t.extentAt axis ∧ t = u ∧
        lowerAxis axis start c = e := by simpa [sourceAt] using hs
    have hdims := Tensor.dims_slab out axis start (t.extentAt axis)
    have hlow : Within (out.slab axis start (t.extentAt axis)).dims (lowerAxis axis start c) := by
      rw [getD_lowerAxis hlen] at hlt
      rw [hdims]
      exact within_lowerAxis haxis hc hlt
    have hvalue := Tensor.loadElement_copyMatching (hdims.trans fit.symm)
      ((Tensor.numel_slab_le room).trans fits) (distinct.slab haxis room) (apart.slab haxis room)
      (inside.slab haxis room) hlow
    rw [Tensor.loadElement_slab haxis hlow, raiseAxis_lowerAxis hlen hstart] at hvalue
    exact hvalue

theorem Tensor.Inside.of_changedAt {t u : Tensor} {P : Nat → Prop} {h k : Heap}
    (inside : t.Inside h) (hk : u.ChangedAt P h k) : t.Inside k :=
  fun c hc => (inside c hc).trans_eq (hk.capacity _).symm

variable [FloatCasts]

theorem changedAt_fillSlabs {parts : List Tensor} (haxis : axis < out.dims.length)
    (fits : out.numel ≤ wordMax) (fit : ∀ t ∈ parts, t.FitsAlong out axis)
    (room : start + totalExtent axis parts ≤ out.extentAt axis) (h : Heap) :
    out.ChangedAt out.Reaches h (fillSlabs out axis start parts h) := by
  induction parts generalizing start h with
  | nil => exact .refl ..
  | cons t ts ih =>
    rw [totalExtent_cons] at room
    have hfirst := changedAt_copySlab start haxis fits (fit t (by simp)) (by omega) h
    exact (hfirst.mono fun p hp => hp.reaches).trans
      (ih (fun u hu => fit u (by simp [hu])) (by omega) _)

/-- Inputs that share no byte with the output are joined by copying each into its slab. -/
theorem joins_fillSlabs {parts : List Tensor} (haxis : axis < out.dims.length)
    (fits : out.numel ≤ wordMax) (distinct : out.Distinct)
    (fit : ∀ t ∈ parts, t.FitsAlong out axis) (apart : ∀ t ∈ parts, out.Apart t)
    (room : start + totalExtent axis parts ≤ out.extentAt axis) {h : Heap}
    (inside : out.Inside h) : Joins out axis start parts h (fillSlabs out axis start parts h) := by
  induction parts generalizing start h with
  | nil => exact .nil ..
  | cons t ts ih =>
    rw [totalExtent_cons] at room
    have hfirst := joins_copySlab start haxis fits distinct (fit t (by simp)) (apart t (by simp))
      (by omega) inside
    have hfit : ∀ u ∈ ts, u.FitsAlong out axis := fun u hu => fit u (by simp [hu])
    have hapart : ∀ u ∈ ts, out.Apart u := fun u hu => apart u (by simp [hu])
    have hroom : start + t.extentAt axis + totalExtent axis ts ≤ out.extentAt axis := by omega
    have hrest := ih hfit hapart hroom (inside.of_changedAt hfirst.reaches)
    exact Joins.append [t] ts haxis distinct hfit hapart hfirst (by simpa [fillSlabs] using hrest)

theorem copySlab_run {slab input : Tensor} (same : slab.dims = input.dims) (m : Machine) :
    copySlab slab input m = (.ok (), m.withHeap (slab.copyMatching input m.heap)) := by
  rw [copySlab, Tensor.checkCopy, if_neg (not_not.mpr same), slabResult, pure_bind]
  exact Action.write_run _ m

/-- The loop over the inputs succeeds, and leaves what copying the inputs that count
one after the other leaves. -/
theorem copySlabs_run {inputs : List Tensor} (haxis : axis < out.dims.length)
    (fit : ∀ t ∈ counted inputs, t.FitsAlong out axis)
    (room : start + totalExtent axis (counted inputs) ≤ out.extentAt axis) (m : Machine) :
    ∃ log, copySlabs out axis start inputs m =
      (.ok (), { m with heap := fillSlabs out axis start (counted inputs) m.heap, log := log }) := by
  induction inputs generalizing start m with
  | nil => exact ⟨_, rfl⟩
  | cons t rest ih =>
    rw [copySlabs]
    by_cases hskip : t.isSkipped
    · have hcounted : counted (t :: rest) = counted rest := by simp [counted, hskip]
      rw [if_pos hskip, hcounted]
      exact ih (hcounted ▸ fit) (hcounted ▸ room) m
    · have hcounted : counted (t :: rest) = t :: counted rest := by simp [counted, hskip]
      rw [hcounted] at fit room
      rw [totalExtent_cons] at room
      have hfit := fit t (by simp)
      have htaxis : axis < t.dims.length := by
        rw [hfit, List.length_set]
        exact haxis
      obtain ⟨a, haxisOk, hextent⟩ := Tensor.axis_eq htaxis
      have hnarrow := @Tensor.narrow_eq_slab out axis start (t.extentAt axis)
        (out.length_axes_eq ▸ haxis) (by omega)
      have hdims : (out.slab axis start (t.extentAt axis)).dims = t.dims :=
        (Tensor.dims_slab out axis start _).trans hfit.symm
      rw [if_neg hskip, hcounted, fillSlabs]
      obtain ⟨log, hrest⟩ := @ih (start + t.extentAt axis) (fun u hu => fit u (by simp [hu]))
        (by omega)
        (m.withHeap ((out.slab axis start (t.extentAt axis)).copyMatching t m.heap))
      refine ⟨log, ?_⟩
      rw [haxisOk, Action.bind_ok (Action.lift_ok _ m), hextent, hnarrow]
      simp only [slabResult, pure_bind]
      rw [Action.bind_ok (copySlab_run hdims m)]
      exact hrest

end Fill

end TensorConcat
