import TensorConcat.Proofs.Containment
import TensorConcat.Proofs.NewOutputs
import TensorConcat.SoftwareCasts

/-!
# Splitting and concatenating are inverse

The parts into which a tensor is split lie one after the other along the axis, and so do the
inputs of a concatenation in its result. A part without extent may be left out by the
concatenation; it moves none of the parts behind it. So the parts of a tensor are joined to what
the tensor reads, and the result of a concatenation reads, in the place of each input that counts,
what the input does.
-/

namespace TensorConcat

namespace Tensor
variable {t u v : Tensor} {axis start : Nat} {lengths : List Nat} {h : Heap}

/-- A tensor that is left out has no extent. -/
theorem extentAt_of_isSkipped (skipped : t.isSkipped = true) (axis : Nat) :
    t.extentAt axis = 0 := by
  unfold isSkipped at skipped
  rw [Bool.and_eq_true, beq_iff_eq, beq_iff_eq, rank_eq, numel] at skipped
  unfold extentAt
  rcases skipped with ⟨hrank, hnumel⟩
  rcases List.length_eq_one_iff.mp hrank with ⟨d, hd⟩
  rw [hd] at hnumel ⊢
  cases axis with
  | zero => simpa using hnumel
  | succ axis => rfl

/-- Consecutive slabs of the given lengths. -/
def slabs (t : Tensor) (axis : Nat) : Nat → List Nat → List Tensor
  | _, [] => []
  | start, n :: ns => t.slab axis start n :: t.slabs axis (start + n) ns

theorem split_go (haxis : axis < t.dims.length) (room : start + lengths.sum ≤ t.extentAt axis) :
    split.go t axis start lengths = .ok (t.slabs axis start lengths) := by
  induction lengths generalizing start with
  | nil => rfl
  | cons n ns ih =>
    rw [List.sum_cons] at room
    have hpart : t.narrow axis start n = .ok (t.slab axis start n) :=
      narrow_eq_slab (t.length_axes_eq ▸ haxis) (by omega)
    have hrest : split.go t axis (start + n) ns = .ok (t.slabs axis (start + n) ns) :=
      ih (by omega)
    rw [split.go, hpart, slabs]
    change (do let rest ← split.go t axis (start + n) ns; pure (_ :: rest)) = _
    rw [hrest]
    rfl

theorem mem_slabs (hv : v ∈ t.slabs axis start lengths) : ∃ first n, v = t.slab axis first n := by
  induction lengths generalizing start with
  | nil => exact absurd hv (by simp [slabs])
  | cons n ns ih =>
    rcases List.mem_cons.mp hv with rfl | hrest
    · exact ⟨start, n, rfl⟩
    · exact ih hrest

theorem length_slabs (t : Tensor) (axis start : Nat) (lengths : List Nat) :
    (t.slabs axis start lengths).length = lengths.length := by
  induction lengths generalizing start with
  | nil => rfl
  | cons n ns ih => exact congrArg (· + 1) (ih _)

/-- Slabs that are left out take no place. -/
theorem totalExtent_slabs (haxis : axis < t.dims.length) (start : Nat) (lengths : List Nat) :
    totalExtent axis (counted (t.slabs axis start lengths)) = lengths.sum := by
  induction lengths generalizing start with
  | nil => rfl
  | cons n ns ih =>
    rw [slabs, counted_cons, List.sum_cons]
    split
    · rename_i hskip
      have hnone := extentAt_of_isSkipped hskip axis
      rw [extentAt_slab haxis] at hnone
      rw [ih, hnone, Nat.zero_add]
    · rw [totalExtent_cons, ih, extentAt_slab haxis]

/-- A slab that counts begins where those before it end. -/
theorem getElem?_slabs (haxis : axis < t.dims.length) {n : Nat}
    (hn : (counted (t.slabs axis start lengths))[n]? = some v) :
    v = t.slab axis
      (start + totalExtent axis ((counted (t.slabs axis start lengths)).take n)) (v.extentAt axis) := by
  induction lengths generalizing start n with
  | nil => exact absurd hn (by simp [slabs, counted])
  | cons d ds ih =>
    rw [slabs, counted_cons] at hn ⊢
    split at hn
    · rename_i hskip
      have hnone := extentAt_of_isSkipped hskip axis
      rw [extentAt_slab haxis] at hnone
      subst hnone
      rw [if_pos hskip]
      exact ih hn
    · rename_i hcounts
      rw [if_neg hcounts]
      cases n with
      | zero =>
        rcases Option.some.inj hn with rfl
        rw [extentAt_slab haxis]
        rfl
      | succ n =>
        have hrest := ih hn
        rw [List.take_succ_cons, totalExtent_cons, extentAt_slab haxis, ← Nat.add_assoc]
        exact hrest

/-- An element of a slab, by its coordinate in the whole. -/
theorem loadElement_slab_lower {c : List Nat} {length : Nat} (haxis : axis < t.dims.length)
    (hc : Within t.dims c) (lower : start ≤ c.getD axis 0) (upper : c.getD axis 0 < start + length)
    (h : Heap) :
    (t.slab axis start length).loadElement h
        (Axis.position (t.slab axis start length).axes (lowerAxis axis start c)) =
      t.loadElement h (Axis.position t.axes c) := by
  have hlow : Within (t.slab axis start length).dims (lowerAxis axis start c) := by
    rw [dims_slab]
    exact within_lowerAxis haxis hc (by omega)
  rw [loadElement_slab haxis hlow, raiseAxis_lowerAxis (hc.length_eq ▸ haxis) lower]

end Tensor

section Splitting
variable {route : Route} {m m' : Machine} {inputs : List Tensor} {t u v : Tensor} {dim : Int}
  {axis n : Nat} {lengths : List Nat}

/-- Slabs that cover an axis can be concatenated. -/
theorem concatenable_slabs (pos : 0 < t.numel) (haxis : axis < t.dims.length)
    (covers : lengths.sum = t.extentAt axis) (holds : t.numel * t.elementSize ≤ storageLimit) :
    ∃ f, Concatenable (t.slabs axis 0 lengths) axis axis t.dims f t.dtype := by
  have htotal := Tensor.totalExtent_slabs haxis 0 lengths
  have hextent : 0 < t.extentAt axis := by
    rw [Tensor.extentAt, List.getD_eq_getElem _ _ haxis]
    exact volume_pos_iff.mp pos _ (List.getElem_mem haxis)
  have hcounts : counted (t.slabs axis 0 lengths) ≠ [] := by
    intro hnone
    rw [hnone, totalExtent_nil] at htotal
    omega
  have hslab : ∀ v ∈ counted (t.slabs axis 0 lengths), ∃ first n, v = t.slab axis first n :=
    fun v hv => Tensor.mem_slabs (List.mem_of_mem_filter hv)
  have hfit : ∀ v ∈ counted (t.slabs axis 0 lengths), v.FitsShape t.dims axis := by
    intro v hv
    rcases hslab v hv with ⟨first, n, rfl⟩
    rw [Tensor.FitsShape, Tensor.extentAt_slab haxis, Tensor.dims_slab]
  rcases exists_conform hcounts rfl haxis hfit (htotal.trans covers).symm with ⟨f, conform⟩
  refine ⟨f, conform, resultType_of_uniform hcounts fun v hv => ?_, holds⟩
  rcases hslab v hv with ⟨first, n, rfl⟩
  rfl

variable [FloatCasts]

/-- The parts of a tensor are joined to what the tensor reads. -/
theorem Route.cat_split (route : Route) (pos : 0 < t.numel) (haxis : axis < t.rank)
    (covers : lengths.sum = t.extentAt axis) (known : t.storage < m.heap.storages.size)
    (holds : t.numel * t.elementSize ≤ storageLimit)
    (ready : route.Ready (route.launches lengths.length) m.device) :
    ∃ parts u m', t.split axis lengths = .ok parts ∧
      route.backend.cat parts axis m = (.ok u, m') ∧ u.SameReading m'.heap t m.heap := by
  rw [rank_eq] at haxis
  have hsplit : t.split axis lengths = .ok (t.slabs axis 0 lengths) :=
    Tensor.split_go haxis (by omega)
  rcases concatenable_slabs pos haxis covers holds with ⟨f, concatenable⟩
  have hknown : ∀ v ∈ t.slabs axis 0 lengths, v.storage < m.heap.storages.size := by
    intro v hv
    rcases Tensor.mem_slabs hv with ⟨first, n, rfl⟩
    exact known
  have hready : route.Ready (route.launches (t.slabs axis 0 lengths).length + 0) m.device := by
    rwa [t.length_slabs]
  rcases route.cat_concatenable concatenable pos hknown hready with
    ⟨u, m', hrun, hdtype, hdims, concatenated, -⟩
  refine ⟨_, u, m', hsplit, hrun, .of_elements hdtype hdims concatenated.holds fun c hc => ?_⟩
  -- A coordinate lies in one of the slabs, which holds what the tensor does there.
  rcases concatenated.values c hc with ⟨n, v, lies, -, -, hvalue⟩
  rw [hdims] at hc
  have hv := Tensor.getElem?_slabs haxis lies.part
  rw [Nat.zero_add] at hv
  have htype : v.dtype = t.dtype := by
    rw [hv]
    rfl
  rw [hvalue, Tensor.converted, htype, hdtype, convertElement_self]
  rw [hv]
  exact Tensor.loadElement_slab_lower haxis hc lies.lower lies.upper m.heap

/-- The result of a concatenation reads, in the place of an input, what the input does. -/
theorem Concatenated.narrow {h k : Heap} (concatenated : Concatenated inputs axis h u k)
    (hn : (counted inputs)[n]? = some v) (hdtype : v.dtype = u.dtype) :
    ∃ part, u.narrow axis (totalExtent axis ((counted inputs).take n)) (v.extentAt axis) = .ok part ∧
      part.SameReading k v h := by
  have haxis := concatenated.axis_lt
  have hdims := concatenated.dims v (List.mem_of_getElem? hn)
  have hroom := concatenated.room hn
  have hnarrow := Tensor.narrow_eq_slab (u.length_axes_eq ▸ haxis) hroom
  have hpart : (u.slab axis (totalExtent axis ((counted inputs).take n)) (v.extentAt axis)).dims =
      v.dims := by
    rw [Tensor.dims_slab, hdims, List.set_set, Tensor.extentAt, set_getD_self]
  have hholds := (Nat.mul_le_mul_right u.elementSize (Tensor.numel_slab_le hroom)).trans
    concatenated.holds
  refine ⟨_, hnarrow, .of_elements hdtype.symm hpart hholds fun c hc => ?_⟩
  rw [Tensor.loadElement_slab haxis hc]
  rw [hpart] at hc
  rw [(concatenated.input hn hc).2, Tensor.converted, hdtype, convertElement_self]

end Splitting

section Sample

def sampleMachine : Machine := { heap := sampleHeap, device := smallDevice }

/-- A square beside a column, joined on the device. -/
def besides : Except Failure Tensor × Machine :=
  (Route.accelerator {}).backend.cat [square, column] 1 sampleMachine

def wide : Tensor := ⟨4, 0, [⟨2, 3⟩, ⟨3, 1⟩], .u8⟩

/-- One byte, seen as often as no storage can hold bytes. -/
def repeated : Tensor := ⟨0, 0, [⟨2 ^ 63, 0⟩], .u8⟩

end Sample

end TensorConcat
