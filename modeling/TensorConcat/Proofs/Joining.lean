import TensorConcat.Proofs.Copying

/-!
# What it means to join tensors

The parts of a concatenation fill consecutive slabs of the output along one axis.
`sourceAt` says which part an element of the output comes from and which of its
elements that is; `Joins` relates two heaps when the elements of the slabs have
got the converted elements of their parts and nothing else has changed.

The relation composes over consecutive lists of parts as long as no part shares a
byte with the output, and it determines the second heap when the parts cover the
whole axis. Every route that fills an output is shown to satisfy it, so any two
of them leave the same memory.
-/

namespace TensorConcat

/-- A coordinate moved up along an axis. -/
def raiseAxis (axis n : Nat) (c : List Nat) : List Nat := c.set axis (c.getD axis 0 + n)

/-- A coordinate moved down along an axis. -/
def lowerAxis (axis n : Nat) (c : List Nat) : List Nat := c.set axis (c.getD axis 0 - n)

theorem getD_set {c : List Nat} {axis i n : Nat} (h : axis < c.length) :
    (c.set axis n).getD i 0 = if i = axis then n else c.getD i 0 := by
  rw [List.getD_eq_getElem?_getD, List.getD_eq_getElem?_getD, List.getElem?_set]
  by_cases hi : i = axis
  · subst hi
    simp [h]
  · rw [if_neg (fun e => hi e.symm), if_neg hi]

theorem set_getD_self {c : List Nat} {axis : Nat} : c.set axis (c.getD axis 0) = c := by
  by_cases h : axis < c.length
  · rw [List.getD_eq_getElem _ _ h, List.set_getElem_self]
  · exact List.set_eq_of_length_le (Nat.le_of_not_lt h)

@[simp] theorem length_lowerAxis (axis n : Nat) (c : List Nat) :
    (lowerAxis axis n c).length = c.length := List.length_set

@[simp] theorem lowerAxis_zero (axis : Nat) (c : List Nat) : lowerAxis axis 0 c = c :=
  set_getD_self

theorem getD_raiseAxis {axis n : Nat} {c : List Nat} (h : axis < c.length) :
    (raiseAxis axis n c).getD axis 0 = c.getD axis 0 + n := by rw [raiseAxis, getD_set h, if_pos rfl]

theorem getD_lowerAxis {axis n : Nat} {c : List Nat} (h : axis < c.length) :
    (lowerAxis axis n c).getD axis 0 = c.getD axis 0 - n := by rw [lowerAxis, getD_set h, if_pos rfl]

theorem lowerAxis_lowerAxis {axis m n : Nat} {c : List Nat} (h : axis < c.length) :
    lowerAxis axis n (lowerAxis axis m c) = lowerAxis axis (m + n) c := by
  rw [lowerAxis, getD_lowerAxis h, lowerAxis, lowerAxis, List.set_set, Nat.sub_sub]

theorem lowerAxis_raiseAxis {axis n : Nat} {c : List Nat} (h : axis < c.length) :
    lowerAxis axis n (raiseAxis axis n c) = c := by
  rw [lowerAxis, getD_raiseAxis h, raiseAxis, List.set_set, Nat.add_sub_cancel, set_getD_self]

theorem raiseAxis_lowerAxis {axis n : Nat} {c : List Nat} (h : axis < c.length)
    (hn : n ≤ c.getD axis 0) : raiseAxis axis n (lowerAxis axis n c) = c := by
  rw [raiseAxis, getD_lowerAxis h, lowerAxis, List.set_set, Nat.sub_add_cancel hn, set_getD_self]

/-- Within extents that differ on one axis only. -/
theorem within_set {ds c : List Nat} {axis d e j : Nat} (h : axis < ds.length)
    (hc : Within (ds.set axis d) c) (hj : j < e) : Within (ds.set axis e) (c.set axis j) := by
  obtain ⟨hl, hs⟩ := within_iff_getElem.mp hc
  rw [List.length_set] at hl
  refine within_iff_getElem.mpr ⟨by simp [hl], fun i hi => ?_⟩
  rw [List.length_set] at hi
  have := hs i (by simpa using hi)
  rw [getD_set (hl ▸ h), getD_set h]
  rw [getD_set h] at this
  split
  · exact hj
  · rename_i hne
    rwa [if_neg hne] at this

/-- The index on an axis whose extent has been replaced. -/
theorem Within.getD_lt_set {ds c : List Nat} {axis d : Nat} (hc : Within (ds.set axis d) c)
    (h : axis < ds.length) : c.getD axis 0 < d := by
  have hlt := hc.getD_lt (show axis < (ds.set axis d).length by simpa using h)
  rwa [getD_set h, if_pos rfl] at hlt

/-- Moving a coordinate of a part up to its place stays inside the whole. -/
theorem within_raiseAxis {ds c : List Nat} {axis d n : Nat} (h : axis < ds.length)
    (hc : Within (ds.set axis d) c) (room : n + d ≤ ds.getD axis 0) :
    Within ds (raiseAxis axis n c) := by
  have hlt := hc.getD_lt_set h
  have hw := within_set h hc (show c.getD axis 0 + n < ds.getD axis 0 by omega)
  rwa [set_getD_self] at hw

/-- Moving a coordinate of the whole down to the part it lies in. -/
theorem within_lowerAxis {ds c : List Nat} {axis d n : Nat} (h : axis < ds.length)
    (hc : Within ds c) (hd : c.getD axis 0 - n < d) :
    Within (ds.set axis d) (lowerAxis axis n c) := by
  have hw : Within (ds.set axis (ds.getD axis 0)) c := by rwa [set_getD_self]
  exact within_set h hw hd

namespace Tensor

/-- The extent along an axis. -/
def extentAt (t : Tensor) (axis : Nat) : Nat := t.dims.getD axis 0

theorem axis_eq {t : Tensor} {axis : Nat} (h : axis < t.dims.length) :
    ∃ a, t.axis axis = .ok a ∧ a.extent = t.extentAt axis := by
  have haxis : axis < t.axes.length := by rwa [← Axis.length_extents]
  refine ⟨t.axes[axis], ?_, ?_⟩
  · simp [Tensor.axis, List.getElem?_eq_getElem haxis]
  · simp [extentAt, dims, Axis.extents, haxis]

/-- The extents are those of a shape, except along one axis. -/
def FitsShape (t : Tensor) (shape : List Nat) (axis : Nat) : Prop :=
  t.dims = shape.set axis (t.extentAt axis)

/-- The extents are those of the output, except along one axis. -/
def FitsAlong (t out : Tensor) (axis : Nat) : Prop := t.FitsShape out.dims axis

end Tensor

/-- The extent the parts have together along an axis. -/
def totalExtent (axis : Nat) (parts : List Tensor) : Nat := (parts.map (·.extentAt axis)).sum

/-- The part that an element of the joined tensor comes from, and its coordinate there. -/
def sourceAt (axis : Nat) : List Tensor → List Nat → Option (Tensor × List Nat)
  | [], _ => none
  | t :: rest, c =>
    if c.getD axis 0 < t.extentAt axis then some (t, c)
    else sourceAt axis rest (lowerAxis axis (t.extentAt axis) c)

@[simp] theorem totalExtent_nil (axis : Nat) : totalExtent axis [] = 0 := rfl

@[simp] theorem totalExtent_cons (axis : Nat) (t : Tensor) (ts : List Tensor) :
    totalExtent axis (t :: ts) = t.extentAt axis + totalExtent axis ts := rfl

theorem totalExtent_append (axis : Nat) (ts us : List Tensor) :
    totalExtent axis (ts ++ us) = totalExtent axis ts + totalExtent axis us := by
  simp [totalExtent]

section Take
variable {axis n : Nat} {parts : List Tensor} {u : Tensor}

theorem totalExtent_take_succ (hn : parts[n]? = some u) :
    totalExtent axis (parts.take (n + 1)) = totalExtent axis (parts.take n) + u.extentAt axis := by
  obtain ⟨hlt, rfl⟩ := List.getElem?_eq_some_iff.mp hn
  rw [List.take_succ_eq_append_getElem hlt, totalExtent_append]
  simp

theorem totalExtent_take_mono {m n : Nat} (hmn : m ≤ n) :
    totalExtent axis (parts.take m) ≤ totalExtent axis (parts.take n) := by
  have hsplit := List.take_append_drop m (parts.take n)
  rw [List.take_take, Nat.min_eq_left hmn] at hsplit
  rw [← hsplit, totalExtent_append]
  exact Nat.le_add_right _ _

/-- The extents up to the end of a part are not more than those of all parts. -/
theorem totalExtent_take_add_le (hn : parts[n]? = some u) :
    totalExtent axis (parts.take n) + u.extentAt axis ≤ totalExtent axis parts := by
  have hle := @totalExtent_take_mono axis parts (n + 1) parts.length
    (List.getElem?_eq_some_iff.mp hn).1
  rw [List.take_length, totalExtent_take_succ hn] at hle
  exact hle

end Take

theorem sourceAt_append {axis : Nat} {ts us : List Tensor} {c : List Nat} (h : axis < c.length) :
    sourceAt axis (ts ++ us) c =
      if c.getD axis 0 < totalExtent axis ts then sourceAt axis ts c
      else sourceAt axis us (lowerAxis axis (totalExtent axis ts) c) := by
  induction ts generalizing c with
  | nil => simp
  | cons t ts ih =>
    rw [List.cons_append, sourceAt, sourceAt, totalExtent_cons]
    by_cases ht : c.getD axis 0 < t.extentAt axis
    · rw [if_pos ht, if_pos (by omega), if_pos ht]
    · rw [if_neg ht, ih (by simpa using h), getD_lowerAxis h, if_neg ht, lowerAxis_lowerAxis h]
      by_cases hts : c.getD axis 0 < t.extentAt axis + totalExtent axis ts
      · rw [if_pos (by omega), if_pos hts]
      · rw [if_neg (by omega), if_neg hts]

/-- Every element of the joined tensor has a source. -/
theorem exists_sourceAt {axis : Nat} {parts : List Tensor} {c : List Nat} (h : axis < c.length)
    (hc : c.getD axis 0 < totalExtent axis parts) :
    ∃ t e, sourceAt axis parts c = some (t, e) := by
  induction parts generalizing c with
  | nil => simp at hc
  | cons t ts ih =>
    rw [totalExtent_cons] at hc
    rw [sourceAt]
    by_cases ht : c.getD axis 0 < t.extentAt axis
    · exact ⟨t, c, if_pos ht⟩
    · rw [if_neg ht]
      exact ih (by simpa using h) (by rw [getD_lowerAxis h]; omega)

/-- A source is an element of one of the parts. -/
theorem mem_of_sourceAt {out : Tensor} {axis d : Nat} (haxis : axis < out.dims.length)
    {parts : List Tensor} (fit : ∀ t ∈ parts, t.FitsAlong out axis) {c : List Nat}
    (hc : Within (out.dims.set axis d) c) {t : Tensor} {e : List Nat}
    (hs : sourceAt axis parts c = some (t, e)) : t ∈ parts ∧ Within t.dims e := by
  have hlen : axis < c.length := by rw [hc.length_eq]; simpa using haxis
  induction parts generalizing c d with
  | nil => simp [sourceAt] at hs
  | cons u us ih =>
    rw [sourceAt] at hs
    split at hs
    · rename_i hu
      obtain ⟨rfl, rfl⟩ : u = t ∧ c = e := by simpa using hs
      refine ⟨by simp, ?_⟩
      have hw := within_set haxis hc hu
      rw [set_getD_self] at hw
      rwa [fit u (by simp)]
    · have hlow : Within (out.dims.set axis (c.getD axis 0 + 1))
          (lowerAxis axis (u.extentAt axis) c) := within_set haxis hc (by omega)
      obtain ⟨ht, he⟩ := ih (fun v hv => fit v (by simp [hv])) hlow hs (by simpa using hlen)
      exact ⟨by simp [ht], he⟩

namespace Tensor

/-- Some coordinate of a slab has this position. -/
def InSlab (t : Tensor) (axis start stop p : Nat) : Prop :=
  ∃ c, Within t.dims c ∧ start ≤ c.getD axis 0 ∧ c.getD axis 0 < stop ∧
    Axis.position t.axes c = p

theorem InSlab.reaches {t : Tensor} {axis start stop p : Nat} (h : t.InSlab axis start stop p) :
    t.Reaches p := by
  obtain ⟨c, hc, -, -, rfl⟩ := h
  exact ⟨c, hc, rfl⟩

theorem InSlab.mono {t : Tensor} {axis start stop start' stop' p : Nat}
    (h : t.InSlab axis start stop p) (hstart : start' ≤ start) (hstop : stop ≤ stop') :
    t.InSlab axis start' stop' p := by
  obtain ⟨c, hc, hlo, hhi, rfl⟩ := h
  exact ⟨c, hc, hstart.trans hlo, hhi.trans_le hstop, rfl⟩

end Tensor

variable [FloatCasts]

/-- The elements of `out` from `start` on along the axis have got the elements of the
parts, and nothing else has changed. -/
structure Joins (out : Tensor) (axis start : Nat) (parts : List Tensor) (h k : Heap) : Prop where
  changed : out.ChangedAt (out.InSlab axis start (start + totalExtent axis parts)) h k
  value : ∀ c, Within out.dims c → start ≤ c.getD axis 0 → ∀ t e,
    sourceAt axis parts (lowerAxis axis start c) = some (t, e) →
      out.loadElement k (Axis.position out.axes c) = Tensor.converted out t e h

namespace Joins
variable {out : Tensor} {axis start : Nat} {parts : List Tensor} {h k l : Heap}

theorem nil (out : Tensor) (axis start : Nat) (h : Heap) : Joins out axis start [] h h :=
  ⟨.refl .., fun _ _ _ _ _ hs => by simp [sourceAt] at hs⟩

theorem reaches (joins : Joins out axis start parts h k) : out.ChangedAt out.Reaches h k :=
  joins.changed.mono fun _ hp => hp.reaches

/-- Slabs filled one after the other are filled together, since the parts of the later
ones are not touched by the earlier ones. -/
theorem append (ts us : List Tensor) (haxis : axis < out.dims.length) (distinct : out.Distinct)
    (fit : ∀ t ∈ us, t.FitsAlong out axis) (apart : ∀ t ∈ us, out.Apart t)
    (first : Joins out axis start ts h k)
    (rest : Joins out axis (start + totalExtent axis ts) us k l) :
    Joins out axis start (ts ++ us) h l where
  changed := by
    rw [totalExtent_append]
    refine (first.changed.mono fun p hp => hp.mono le_rfl (by omega)).trans
      (rest.changed.mono fun p hp => hp.mono (by omega) (by omega))
  value c hc hstart t e hs := by
    have hlen : axis < c.length := hc.length_eq ▸ haxis
    have hlow := getD_lowerAxis (n := start) hlen
    rw [sourceAt_append (by simpa using hlen), hlow] at hs
    split at hs
    · rename_i hin
      -- The later slabs have no element in common with this one.
      rw [rest.changed.loadElement_self, first.value c hc hstart t e hs]
      intro hcase
      rcases hcase with ⟨d, hd, hlo, -, same⟩
      rw [distinct d c hd hc same] at hlo
      omega
    · rename_i hin
      rw [lowerAxis_lowerAxis hlen] at hs
      have hlow : Within (out.dims.set axis (c.getD axis 0 + 1))
          (lowerAxis axis (start + totalExtent axis ts) c) :=
        within_lowerAxis haxis hc (by omega)
      obtain ⟨ht, he⟩ := mem_of_sourceAt haxis fit hlow hs
      rw [rest.value c hc (by omega) t e hs, Tensor.converted, Tensor.converted,
        (apart t ht).loadElement first.reaches he]

/-- Parts that cover the axis determine the memory they are joined in. -/
theorem unique (haxis : axis < out.dims.length) (total : totalExtent axis parts = out.extentAt axis)
    (first : Joins out axis 0 parts h k) (second : Joins out axis 0 parts h l) : k = l := by
  refine first.changed.ext second.changed ?_
  intro p hcase
  rcases hcase with ⟨c, hc, hlo, hhi, rfl⟩
  have hlen : axis < c.length := hc.length_eq ▸ haxis
  obtain ⟨t, e, hs⟩ := @exists_sourceAt axis parts c hlen (by omega)
  rw [first.value c hc hlo t e (by simpa using hs), second.value c hc hlo t e (by simpa using hs)]

end Joins

end TensorConcat
