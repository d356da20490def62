import TensorConcat.Conformance.Check

/-!
# Sampled requests

A fixed sample of requests of one to five inputs with one to four axes, drawn at
random: extents from one to three, joined extents from zero to three, eight element
types, and some inputs stored with their last two axes exchanged. The sample has a
request without any element, many inputs that are empty along the joined axis, and
one whose only input is skipped.
-/

namespace TensorConcat.Conformance

/-- An input by its joined extent; a swapped one is a view of a tensor that is stored
with the last two axes exchanged. -/
inductive SampleInput
  | straight (extent : Nat)
  | swapped (extent : Nat)
deriving Repr, DecidableEq

/-- A request by the extents before and after its joined axis. -/
structure SampleRequest where
  dtype : DType
  before : List Nat
  after : List Nat
  inputs : List SampleInput
deriving Repr, DecidableEq

def exchangeLast {α : Type} (xs : List α) : List α :=
  match xs.reverse with
  | a :: b :: rest => (b :: a :: rest).reverse
  | _ => xs

/-- Bytes that differ from input to input. -/
def sampleBytes (seed count : Nat) : List UInt8 :=
  (List.range count).map fun k => UInt8.ofNat (37 * k + 101 * seed + k * k / 7)

namespace SampleRequest

def dim (r : SampleRequest) : Int := r.before.length

def dims (r : SampleRequest) (extent : Nat) : List Nat := r.before ++ extent :: r.after

def tensor (r : SampleRequest) (seed : Nat) (dims : List Nat) : Check Tensor :=
  Check.fresh (Tensor.ofBytes dims r.dtype (sampleBytes seed (volume dims * r.dtype.size)))

def input (r : SampleRequest) (seed : Nat) : SampleInput → Check Tensor
  | .straight extent => r.tensor seed (r.dims extent)
  | .swapped extent => do
    let stored ← r.tensor seed (exchangeLast (r.dims extent))
    Check.view (stored.permute (exchangeLast (List.range stored.rank)))

def tensors (r : SampleRequest) : Check (List Tensor) :=
  r.inputs.zipIdx.mapM fun (i, seed) => r.input seed i

end SampleRequest

def sample : List SampleRequest :=
  [⟨.i32, [1, 3, 1], [], [.straight 0, .straight 1, .swapped 3, .swapped 1, .straight 3]⟩,
    ⟨.i16, [1], [1], [.straight 2]⟩,
    ⟨.bf16, [], [1, 1], [.straight 2, .straight 3, .straight 2, .straight 1, .straight 2]⟩,
    ⟨.i32, [], [2, 1, 3], [.straight 2, .straight 1, .straight 0, .straight 0, .straight 1]⟩,
    ⟨.i64, [], [], [.straight 0]⟩,
    ⟨.f32, [3, 2], [], [.straight 1, .swapped 0]⟩,
    ⟨.f32, [], [3, 2, 1], [.swapped 2, .swapped 3, .straight 1, .swapped 0]⟩,
    ⟨.u8, [], [], [.straight 1, .straight 2]⟩,
    ⟨.u8, [], [1, 2, 3], [.straight 3, .straight 1, .straight 1, .swapped 0, .straight 1]⟩,
    ⟨.i64, [], [], [.straight 1]⟩,
    ⟨.i16, [3], [], [.swapped 0, .straight 0]⟩,
    ⟨.f32, [], [], [.straight 3, .straight 0]⟩,
    ⟨.bf16, [2], [3], [.straight 0, .swapped 1]⟩,
    ⟨.i64, [2, 2, 3], [], [.straight 1, .straight 0, .straight 1, .straight 3]⟩,
    ⟨.f32, [2, 1], [], [.straight 2, .swapped 1]⟩,
    ⟨.f32, [2, 3, 2], [], [.straight 3, .straight 1, .swapped 1, .swapped 1, .straight 1]⟩,
    ⟨.i32, [], [1, 2], [.straight 1, .straight 3]⟩,
    ⟨.f64, [3, 1], [], [.straight 2, .straight 3]⟩,
    ⟨.f32, [1, 2], [1], [.swapped 1]⟩,
    ⟨.bf16, [1, 1], [1], [.swapped 3, .straight 0, .straight 3, .straight 2]⟩,
    ⟨.f16, [2], [], [.straight 2, .straight 1, .swapped 1, .straight 3]⟩,
    ⟨.bf16, [], [3], [.straight 3, .straight 1]⟩,
    ⟨.f16, [], [2], [.swapped 1]⟩,
    ⟨.i64, [], [], [.straight 1, .straight 1, .straight 3]⟩,
    ⟨.f32, [], [2, 3, 2], [.straight 1, .swapped 1, .straight 2]⟩,
    ⟨.f16, [], [1], [.swapped 3, .straight 3, .straight 0]⟩,
    ⟨.u8, [], [3, 3], [.straight 1]⟩,
    ⟨.f16, [2, 2, 1], [], [.swapped 0, .straight 2, .straight 3, .straight 0]⟩,
    ⟨.f64, [3], [2], [.swapped 0, .straight 3, .straight 0]⟩,
    ⟨.i64, [2], [], [.straight 0, .swapped 3, .straight 2, .straight 1]⟩,
    ⟨.f64, [3], [], [.straight 2, .straight 2]⟩,
    ⟨.i32, [3], [], [.straight 3]⟩,
    ⟨.f16, [3], [2], [.straight 2, .swapped 3, .straight 1, .straight 1, .straight 3]⟩,
    ⟨.f32, [1], [], [.swapped 3, .straight 2, .straight 3]⟩,
    ⟨.f32, [1], [], [.straight 2]⟩,
    ⟨.bf16, [], [1], [.straight 1, .straight 0]⟩,
    ⟨.f64, [3, 2], [], [.straight 0]⟩,
    ⟨.i64, [1, 3], [], [.swapped 3, .straight 2]⟩,
    ⟨.u8, [3, 1, 2], [], [.swapped 3, .straight 3, .straight 1, .swapped 0, .straight 0]⟩,
    ⟨.f16, [], [1, 3, 1], [.straight 0, .straight 0]⟩,
    ⟨.f64, [], [], [.straight 2, .straight 2]⟩,
    ⟨.f64, [], [1, 2, 3], [.straight 1, .straight 3]⟩,
    ⟨.i32, [3, 3], [2], [.straight 1, .straight 3, .straight 3]⟩,
    ⟨.bf16, [1, 1], [], [.straight 3, .straight 1, .straight 1]⟩,
    ⟨.f64, [], [2], [.straight 1, .swapped 2]⟩,
    ⟨.i16, [3, 3, 1], [], [.straight 0, .swapped 3, .straight 1, .swapped 0, .straight 0]⟩,
    ⟨.i16, [2, 3], [], [.straight 1]⟩,
    ⟨.i32, [], [3, 2], [.straight 0, .straight 1]⟩]

end TensorConcat.Conformance
