import TensorConcat.Proofs.Interleaving
import TensorConcat.Proofs.PathIndependence
import TensorConcat.SoftwareCasts

/-!
# The two routes agree

The reference route and the accelerated one check a request in the same order, but
compare its extents with different members of the list and fill the output by different
means. What they accept is the same, since both accept what joins inputs or leaves the
output alone, and they give the output the same shape in the same place. The reference
route reads every input before it writes, so the memories agree unless an input shares
a byte with the resized output.
-/

namespace TensorConcat

open OutputLayout

/-- No input that counts shares a byte with the output. -/
def Unshared (out : Tensor) (inputs : List Tensor) : Prop := ∀ u ∈ counted inputs, out.Apart u

section Request
variable {config : ConcatConfig} {out : Tensor} {inputs : List Tensor} {dim : Int} {axis : Nat}
  {shape : List Nat} {f : MemoryFormat} {m : Machine}

/-- What the planner turns away, the reference route turns away. -/
theorem accept_error_of_make_error {h : Heap} {r : Plan.Rejection}
    (hr : Plan.make h config out inputs dim = .error r) :
    ∃ s, Reference.accept h out inputs dim = .error s := by
  cases haccept : Reference.accept h out inputs dim with
  | error s => exact ⟨s, rfl⟩
  | ok joined =>
    obtain ⟨hidle, hjoins⟩ := Reference.accept_ok haccept
    cases joined with
    | none =>
      rw [Plan.make_of_idle (hidle rfl)] at hr
      exact absurd hr (by simp)
    | some j =>
      rw [Plan.make_of_joinable (hjoins j rfl)] at hr
      exact absurd hr (by simp)

/-- Both routes give a request that joins inputs the same output, and both join its inputs
unless one of them shares a byte with it. -/
theorem joined_alike [FloatCasts] (joinable : Joinable m.heap out inputs dim axis shape f)
    {t : Tensor} {k : Heap} (ht : out.resize shape f m.heap = .ok (t, k)) (bounded : m.heap.Bounded)
    (known : ∀ u ∈ inputs, u.storage < m.heap.storages.size)
    (countable : 0 < volume shape ∨ Indexable (f.axes shape))
    (healthy : m.device.Healthy ((Plan.joining config out inputs axis shape f).launches config inputs)) :
    ∃ m₁ m₂, Accelerator.concatenate config out inputs dim m =
        ⟨.ok (Plan.joining config out inputs axis shape f), t, m₁⟩ ∧
      Reference.concatenate out inputs dim m = ⟨.ok (), t, m₂⟩ ∧
      (Unshared t inputs → m₁.heap = m₂.heap) := by
  have hresized := Tensor.resize_spec ht
  have hfits := hresized.numel_le bounded
  obtain ⟨m₁, hfast, hheap⟩ := Accelerator.concatenate_joinable joinable ht known countable healthy
  obtain ⟨m₂, hplain, hjoins⟩ := Reference.concatenate_joinable joinable ht hfits
  refine ⟨m₁, m₂, hfast, hplain, fun unshared => ?_⟩
  have haxis := joinable.axis_lt_resized hresized
  have htotal := joinable.total_eq hresized
  have hslabs : Joins t axis 0 (counted inputs) k (fillSlabs t axis 0 (counted inputs) k) := by
    apply joins_fillSlabs haxis hfits (hresized.distinct hfits) (joinable.fitsAlong hresized) unshared
    · rw [Nat.zero_add, htotal]
    · exact hresized.inside hfits
  rw [hheap]
  exact hslabs.unique haxis htotal hjoins

end Request

section Sample

theorem sampleHeap_bounded : sampleHeap.Bounded := by
  unfold Heap.Bounded
  decide

theorem unshared_sample : Unshared ⟨2, 0, [⟨2, 3⟩, ⟨3, 1⟩], .u8⟩ [square, column] := by
  intro u hu s i hout hin
  have helsewhere : ∀ u ∈ [square, column], u.storage ≠ 2 := by decide
  have hstorage := helsewhere u (List.mem_of_mem_filter hu)
  exact hstorage (hin.in_byteRange.1.symm.trans hout.in_byteRange.1)

end Sample

end TensorConcat
