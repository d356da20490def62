import TensorConcat.Proofs.Planning
import TensorConcat.Proofs.Separation

/-!
# Requests whose sizes are words

A route counts the elements of the views that it is given, adds up the extents along the joined
axis and works out how many bytes the output takes. Nothing else in a request grows with its
sizes. If the views have words for their sizes, and the shape that the inputs lead to has words
for its joined extent and for its bytes, then each of these numbers comes out in words as it is,
and so does every answer that is read off them.

Inputs that do not conform lead to no shape, so nothing is asked of their extents: whatever their
sum becomes, it is not looked at.
-/

namespace TensorConcat

variable {out : Tensor} {inputs : List Tensor} {dim : Int}

/-- The sizes of a request are words: those of its views, and those of the shape that its inputs
lead to if they conform. -/
structure SizedInWords (out : Tensor) (inputs : List Tensor) (dim : Int) : Prop where
  output : out.Sized
  input : ∀ t ∈ inputs, t.Sized
  extent : ∀ axis shape f, Conform inputs dim axis shape f → shape.getD axis 0 ≤ wordMax
  bytes : ∀ axis shape f, Conform inputs dim axis shape f → out.bytesFor shape ≤ wordMax

/-- What a route works out in words is exact: how the views lie to each other, how far they
reach, the shape that the inputs lead to, the bytes it takes, and how what the output is about to
become lies to the inputs. -/
structure ExactInWords (h : Heap) (out : Tensor) (inputs : List Tensor) (dim : Int) : Prop where
  repeats : out.internalOverlapInWords = out.internalOverlap
  overlap : ∀ t ∈ inputs, out.overlapInWords t = out.overlap t
  count : ∀ t ∈ inputs, t.numelInWords = t.numel
  reach : ∀ t ∈ inputs, t.maxOffsetInWords = t.maxOffset
  extent : ∀ axis shape f, Conform inputs dim axis shape f →
    sumInWords ((counted inputs).map (·.extentAt axis)) = shape.getD axis 0
  bytes : ∀ axis shape f, Conform inputs dim axis shape f →
    volumeInWords shape = volume shape ∧ out.bytesForInWords shape = out.bytesFor shape
  target : ∀ axis shape f target, Conform inputs dim axis shape f →
    out.target? shape f h = some target → ∀ t ∈ inputs, target.overlapInWords t = target.overlap t

namespace Tensor
variable {t : Tensor} {dims : List Nat} {f : MemoryFormat} {h k : Heap}

theorem volume_le_bytesFor (out : Tensor) (dims : List Nat) : volume dims ≤ out.bytesFor dims :=
  (Nat.le_add_left _ _).trans (Nat.le_mul_of_pos_right _ out.elementSize_pos)

theorem bytesForInWords_of_le (words : out.bytesFor dims ≤ wordMax) :
    out.bytesForInWords dims = out.bytesFor dims := by
  have hvolume := (out.volume_le_bytesFor dims).trans words
  rw [bytesForInWords, wrap_wrap_mul, volumeInWords_of_le hvolume]
  exact wrap_of_le words

/-- Bytes that can be counted before resizing can be counted afterwards. -/
theorem Resized.sized (resized : Resized out dims f h t k) (words : out.bytesFor dims ≤ wordMax) :
    t.Sized := by
  have hcount : t.numel ≤ wordMax := by
    rw [resized.numel_eq]
    exact (out.volume_le_bytesFor dims).trans words
  refine ⟨hcount, fun pos => ?_⟩
  have hlast := maxOffset_of_isDense pos (resized.packedIn pos hcount).isDense
  rw [maxOffset, if_neg pos.ne', resized.numel_eq] at hlast
  rw [Nat.add_assoc, hlast, resized.offset, elementSize, resized.dtype]
  exact words

end Tensor

/-- A shape with elements that can be counted has a joined extent that can be added up. -/
theorem Conform.sumInWords_eq {axis : Nat} {shape : List Nat} {f : MemoryFormat}
    (conform : Conform inputs dim axis shape f) (pos : 0 < volume shape)
    (words : volume shape ≤ wordMax) :
    sumInWords ((counted inputs).map (·.extentAt axis)) = shape.getD axis 0 := by
  have hmem := List.getElem_mem conform.axis_lt
  have hextent := (le_volume pos hmem).trans words
  rw [← List.getD_eq_getElem _ 0 conform.axis_lt, conform.total] at hextent
  rw [conform.total]
  exact sumInWords_of_le hextent

namespace SizedInWords

theorem exactInWords (sized : SizedInWords out inputs dim) (h : Heap) :
    ExactInWords h out inputs dim where
  repeats := Tensor.internalOverlapInWords_of_le sized.output.count
  overlap t ht := sized.output.overlapInWords_eq (sized.input t ht)
  count t ht := Tensor.numelInWords_of_le (sized.input t ht).count
  reach t ht := (sized.input t ht).maxOffsetInWords_eq
  extent axis shape f conform := by
    have hwords := sized.extent axis shape f conform
    rw [conform.total] at hwords ⊢
    exact sumInWords_of_le hwords
  bytes axis shape f conform := by
    have hwords := sized.bytes axis shape f conform
    exact ⟨volumeInWords_of_le ((out.volume_le_bytesFor shape).trans hwords),
      Tensor.bytesForInWords_of_le hwords⟩
  target axis shape f target conform htarget t ht := by
    have hresized := Tensor.resize_spec (Tensor.resize_of_target conform.shape_ne_nil htarget)
    exact (hresized.sized (sized.bytes axis shape f conform)).overlapInWords_eq (sized.input t ht)

/-- The shape that the inputs lead to can be read off any of them that counts. -/
theorem of_member {t : Tensor} {axis : Nat} (ht : t ∈ counted inputs) (hdim : dim = axis)
    (output : out.Sized) (input : ∀ u ∈ inputs, u.Sized)
    (extent : totalExtent axis (counted inputs) ≤ wordMax)
    (bytes : out.bytesFor (t.dims.set axis (totalExtent axis (counted inputs))) ≤ wordMax) :
    SizedInWords out inputs dim := by
  have hsame : ∀ axis' shape f, Conform inputs dim axis' shape f → axis' = axis :=
    fun _ _ _ conform => Int.ofNat.inj (conform.dim_eq.symm.trans hdim)
  refine ⟨output, input, fun axis' shape f conform => ?_, fun axis' shape f conform => ?_⟩
  · obtain rfl := hsame _ _ _ conform
    rw [conform.total]
    exact extent
  · obtain rfl := hsame _ _ _ conform
    rw [conform.shape_eq ht]
    exact bytes

end SizedInWords

end TensorConcat
