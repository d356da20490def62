import TensorConcat.Conformance.Check

/-!
# What a backend must refuse

Scenarios with requests that break a rule: each has to be turned away for its own
reason, and neither the output nor an input may have changed by then. A list of
skipped inputs breaks no rule, and leaves the output alone too.
-/

namespace TensorConcat.Conformance

def floats (values : List Int) : List Scalar := values.map (Scalar.dyadic · 0)

def leavesOutputAlone (b : Backend) : Check Unit := do
  let out ← Check.ofScalars [3] .f32 (floats [1, 2, 3])
  let inputs := [← Check.fresh (Tensor.undefined .f32), ← Check.fresh (Tensor.undefined .f32)]
  let (result, out) ← Check.write (b.catInto out inputs 0)
  Check.succeeds result
  Check.hasDims out [3]
  Check.holds out .f32 (floats [1, 2, 3])

def refusesNoInputs (b : Backend) : Check Unit := Check.catRejected b [] 0 .invalidInputCount

def refusesShapes (b : Backend) : Check Unit := do
  let blank (dims : List Nat) := Check.fresh (Tensor.zeros dims .f32 .contiguous)
  let out ← Check.ofScalars [2] .f32 (floats [5, 6])
  let inputs := [← blank [2, 3], ← blank [3, 3]]
  let (result, out) ← Check.write (b.catInto out inputs 1)
  Check.rejected .shapeMismatch result
  Check.hasDims out [2]
  Check.holds out .f32 (floats [5, 6])
  Check.catRejected b [← blank [2, 3], ← blank [2]] 0 .shapeMismatch

def refusesAliasing (b : Backend) : Check Unit := do
  let base ← ramp [4, 2] 0
  let upper ← Check.view (base.narrow 0 0 2)
  let lower ← Check.view (base.narrow 0 2 2)
  let (result, _) ← Check.write (b.catInto base [upper, lower] 1)
  Check.rejected .memoryOverlap result
  Check.holds base .i32 (integers 0 8)

def refusesAxes (b : Backend) : Check Unit := do
  let inputs := [← ramp [2, 2] 0, ← ramp [2, 2] 4]
  Check.catRejected b inputs 2 .invalidDimension
  Check.catRejected b inputs (-1) .invalidDimension

def refusesNarrowOutput (b : Backend) : Check Unit := do
  let inputs := [← Check.ofScalars [1] .f32 [.dyadic 3 (-1)],
    ← Check.ofScalars [1] .f32 [.dyadic 5 (-1)]]
  let out ← Check.fresh (Tensor.zeros [0] .i32 .contiguous)
  let (result, out) ← Check.write (b.catInto out inputs 0)
  Check.rejected .dtypeNotCastable result
  Check.hasDims out [0]

end TensorConcat.Conformance
