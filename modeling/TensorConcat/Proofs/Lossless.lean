import TensorConcat.Proofs.Chunking
import TensorConcat.Proofs.Skipping
import TensorConcat.SoftwareCasts

/-!
# Concatenation of truth values and integers loses nothing

The type of a result is above the types of all inputs that count, and what is not floating keeps
its value on the way to a type above its own. So each element of a result is the same integer as
the one input element it comes from, and each element of an input that counts is found again in
the result. Floating types are left out, since an integer is rounded there.
-/

namespace TensorConcat

/-- The element at a coordinate, read in the tensor's own type, as an integer. -/
def Tensor.intAt [FloatCasts] (t : Tensor) (h : Heap) (c : List Nat) : Int :=
  (Scalar.read t.dtype (t.loadElement h (Axis.position t.axes c))).asInt

/-- A result that has, in memory `k`, the integers that the inputs have in memory `h`. -/
structure KeepsIntegers [FloatCasts] (inputs : List Tensor) (axis : Nat) (h : Heap) (t : Tensor)
    (k : Heap) : Prop where
  result : ∀ c, Within t.dims c → ∃ n u, LiesIn axis (counted inputs) c n u ∧
    (∀ n' u', LiesIn axis (counted inputs) c n' u' → n' = n ∧ u' = u) ∧
    Within u.dims (lowerAxis axis (totalExtent axis ((counted inputs).take n)) c) ∧
    t.intAt k c = u.intAt h (lowerAxis axis (totalExtent axis ((counted inputs).take n)) c)
  input : ∀ n u, (counted inputs)[n]? = some u → ∀ c, Within u.dims c →
    Within t.dims (raiseAxis axis (totalExtent axis ((counted inputs).take n)) c) ∧
    t.intAt k (raiseAxis axis (totalExtent axis ((counted inputs).take n)) c) = u.intAt h c

section Values
variable {inputs : List Tensor} {axis n : Nat} {h k : Heap} {t u : Tensor} {c : List Nat}

/-- An input that counts has a type below that of the result. -/
theorem below_resultType {dtype : DType} (hdtype : Backend.resultType inputs = .ok dtype)
    (hu : u ∈ counted inputs) : u.dtype.Below dtype :=
  DType.below_common ((resultType_eq_ok_iff (List.ne_nil_of_mem hu)).mp hdtype)
    (List.mem_map_of_mem hu)

theorem resultType_fixed {dtype : DType} (hdtype : Backend.resultType inputs = .ok dtype)
    (counts : counted inputs ≠ []) (fixed : ∀ v ∈ counted inputs, v.dtype.category ≠ .floating) :
    dtype.category ≠ .floating := by
  refine DType.common?_fixed ((resultType_eq_ok_iff counts).mp hdtype) fun s hs => ?_
  obtain ⟨v, hv, rfl⟩ := List.mem_map.mp hs
  exact fixed v hv

variable [FloatCasts]

/-- What is converted on its way into a higher type is the same integer in it. -/
theorem Tensor.intAt_converted (below : u.dtype.Below t.dtype)
    (fixed : t.dtype.category ≠ .floating) {e : List Nat}
    (hvalue : t.loadElement k (Axis.position t.axes c) = Tensor.converted t u e h) :
    t.intAt k c = u.intAt h e := by
  rw [intAt, hvalue, Tensor.converted, Scalar.asInt_convertElement below fixed (length_loadElement ..)]
  rfl

theorem Concatenated.keepsIntegers (concatenated : Concatenated inputs axis h t k)
    (fixed : ∀ v ∈ counted inputs, v.dtype.category ≠ .floating) :
    KeepsIntegers inputs axis h t k := by
  have hfixed : ∀ {n : Nat} {u : Tensor}, (counted inputs)[n]? = some u →
      u.dtype.Below t.dtype ∧ t.dtype.category ≠ .floating := by
    intro n u hn
    have hu := List.mem_of_getElem? hn
    exact ⟨below_resultType concatenated.typed hu,
      resultType_fixed concatenated.typed (List.ne_nil_of_mem hu) fixed⟩
  constructor
  case result =>
    intro c hc
    obtain ⟨n, u, lies, hunique, hwithin, hvalue⟩ := concatenated.values c hc
    obtain ⟨hbelow, htype⟩ := hfixed lies.part
    exact ⟨n, u, lies, hunique, hwithin, Tensor.intAt_converted hbelow htype hvalue⟩
  case input =>
    intro n u hn c hc
    obtain ⟨hbelow, htype⟩ := hfixed hn
    obtain ⟨hwithin, hvalue⟩ := concatenated.input hn hc
    exact ⟨hwithin, Tensor.intAt_converted hbelow htype hvalue⟩

end Values

end TensorConcat
