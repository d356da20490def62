import TensorConcat.Conformance.Sample

/-!
# What a backend must compute

Scenarios that fix the shape, the type and the values of a result: along any axis,
with skipped inputs, in several batches, from inputs in other layouts, in every
width of element, and in agreement with the reference on a sample of requests.
-/

namespace TensorConcat.Conformance

def ints (values : List Int) : List Scalar := values.map .int

def joinsTwoAlongRows (b : Backend) : Check Unit := do
  let left ← ramp [2, 3] 0
  let right ← ramp [2, 4] 100
  let out ← Check.cat b [left, right] 1
  Check.hasDims out [2, 7]
  Check.holds out .i32 (ints [0, 1, 2, 100, 101, 102, 103, 3, 4, 5, 104, 105, 106, 107])

/-- The values of a part with `2 * extent * 5` elements; no two of them are equal. -/
def blockValues (first extent : Nat) : List Scalar :=
  (List.range (2 * extent * 5)).map fun k => Scalar.dyadic ((first + k : Nat) - 50) (-6)

/-- One of the two halves of a block. -/
def half (n : Nat) (values : List Scalar) : List Scalar :=
  (values.drop (n * (values.length / 2))).take (values.length / 2)

def addsExtents (b : Backend) : Check Unit := do
  let extents := [3, 1, 4, 2]
  let blocks := [blockValues 0 3, blockValues 30 1, blockValues 40 4, blockValues 80 2]
  let inputs ← (extents.zip blocks).mapM fun (n, values) => Check.ofScalars [2, n, 5] .f32 values
  let out ← Check.cat b inputs 1
  Check.hasDims out [2, 10, 5]
  Check.holds out .f32 (blocks.flatMap (half 0) ++ blocks.flatMap (half 1))

def ignoresSkipped (b : Backend) : Check Unit := do
  let first ← Check.fresh (Tensor.undefined .i32)
  let upper ← ramp [1, 2] 0
  let middle ← Check.fresh (Tensor.undefined .f64)
  let lower ← ramp [2, 2] 10
  let last ← Check.fresh (Tensor.undefined .i32)
  let out ← Check.cat b [first, upper, middle, lower, last] 0
  Check.hasDims out [3, 2]
  Check.holds out .i32 (ints [0, 1, 10, 11, 12, 13])

def countsAxesFromTheEnd (b : Backend) : Check Unit := do
  let inputs := [← ramp [2, 1] 0, ← ramp [2, 2] 10]
  let out ← Check.succeeds (← Check.attempt (Dispatch.cat b inputs (-1)))
  Check.hasDims out [2, 3]
  Check.holds out .i32 (ints [0, 10, 11, 1, 12, 13])
  Check.rejected .invalidDimension (← Check.attempt (Dispatch.cat b inputs (-3)))

def reusesOutput (b : Backend) : Check Unit := do
  let out ← Check.fresh (Tensor.zeros [5] .i32 .contiguous)
  let inputs := [← ramp [2] 0, ← ramp [3] 7]
  let (result, written) ← Check.write (Dispatch.catInto b out inputs 0)
  Check.succeeds result
  Check.require (written.storage == out.storage)
  Check.holds written .i32 (ints [0, 1, 7, 8, 9])

def spansTwoBatches (b : Backend) : Check Unit := do
  let inputs ← (List.range 1100).mapM fun k : Nat =>
    Check.ofScalars [2, 1] .i32 (ints [k, 10000 + k])
  let out ← Check.cat b inputs 1
  Check.hasDims out [2, 1100]
  Check.holds out .i32 (integers 0 1100 ++ integers 10000 1100)

def spansThreeBatches (b : Backend) : Check Unit := do
  let blocks := (List.range 2049).map fun k : Nat => List.replicate (k % 3 + 1) (Scalar.int k)
  let inputs ← blocks.mapM fun values => Check.ofScalars [values.length] .i64 values
  let out ← Check.cat b inputs 0
  Check.hasDims out [blocks.flatten.length]
  Check.holds out .i64 blocks.flatten

def keepsFormat (b : Backend) : Check Unit := do
  let values := ints [0, 1, 2, 3, 4, 5, 100, 101, 6, 7, 8, 9, 10, 11, 102, 103]
  let left ← ramp [2, 3, 2] 0
  let right ← ramp [2, 1, 2] 100
  let expected ← Check.cat b [left, right] 1
  let inputs := [← Check.fresh (left.toFormat .channelsLast),
    ← Check.fresh (right.toFormat .channelsLast)]
  let out ← Check.cat b inputs 1
  Check.hasDims out [2, 4, 2]
  Check.require (out.isContiguousIn .channelsLast)
  Check.holds out .i32 values
  Check.holds expected .i32 values

def followsPermutedInputs (b : Backend) : Check Unit := do
  let source ← ramp [3, 2] 0
  let transposed ← Check.view (source.permute [1, 0])
  let out ← Check.cat b [transposed, ← ramp [2, 3] 50] 0
  Check.hasDims out [4, 3]
  Check.holds out .i32 (ints [0, 2, 4, 1, 3, 5, 50, 51, 52, 53, 54, 55])

def promotesTypes (b : Backend) : Check Unit := do
  let values := [Scalar.dyadic 1 0, .dyadic 2 0, .dyadic 1 (-1)]
  let whole ← Check.ofScalars [2] .i32 (ints [1, 2])
  let broken ← Check.ofScalars [1] .f32 [.dyadic 1 (-1)]
  let out ← Check.cat b [whole, broken] 0
  Check.holds out .f32 values
  let wide ← Check.fresh (Tensor.zeros [0] .f64 .contiguous)
  let (result, wide) ← Check.write (b.catInto wide [whole, broken] 0)
  Check.succeeds result
  Check.holds wide .f64 values

def keepsNarrowTypes (b : Backend) : Check Unit := do
  let yes := Scalar.bool true
  let flags := [← Check.ofScalars [2] .bool [yes, .bool false], ← Check.ofScalars [1] .bool [yes]]
  Check.holds (← Check.cat b flags 0) .bool [yes, .bool false, yes]
  let left := [Scalar.dyadic 3 (-1), .dyadic (-2) 0]
  let right := [Scalar.dyadic 1 (-2), .dyadic 8 0]
  let halves := [← Check.ofScalars [1, 2] .f16 left, ← Check.ofScalars [1, 2] .f16 right]
  Check.holds (← Check.cat b halves 0) .f16 (left ++ right)
  let brains := [← Check.ofScalars [2] .bf16 [.dyadic 3 0, .dyadic 4 0],
    ← Check.ofScalars [1] .bf16 [.dyadic 5 0]]
  let out ← Check.cat b brains 0
  Check.require (out.dtype == .bf16)
  let third := (out.elements (← get).heap)[2]?
  Check.require (third == some ((Scalar.dyadic 5 0).write .bf16))

def agreesOn (b : Backend) (r : SampleRequest) : Check Unit := do
  let inputs ← r.tensors
  let expected ← Check.cat .reference inputs r.dim
  let actual ← Check.cat b inputs r.dim
  Check.hasDims actual expected.dims
  Check.require (actual.dtype == expected.dtype)
  let h := (← get).heap
  Check.require (actual.toBytes h == expected.toBytes h)

def agreesWithReference (b : Backend) : Check Unit := sample.forM (agreesOn b)

end TensorConcat.Conformance
