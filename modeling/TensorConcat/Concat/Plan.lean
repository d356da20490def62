import TensorConcat.Concat.Request
import TensorConcat.Tensor.Resize

/-!
# Planning a concatenation

A request is checked against the output it is to be written to before anything is
touched. A plan names the axis and, unless every input is left out, the shape and
format the output takes and the engine that fills it. The checks run in a fixed
order, so of two faults in one request the earlier check answers: no inputs,
types, overlap with the output, an output that repeats an element, the axis, the
extents, overlap with what the output becomes.

Extents are compared with those of the last input that is not left out; the
format is that of the first input, left out or not.
-/

namespace TensorConcat

/-- Inputs per launch, at most. -/
def maxBatch : Nat := 1024

/-- Highest rank the fused engine handles. -/
def maxFusedRank : Nat := 3

structure ConcatConfig where
  batchCapacity : Nat := maxBatch
  maxFusedRank : Nat := TensorConcat.maxFusedRank
  forceFallback : Bool := false
deriving Repr, DecidableEq

namespace ConcatConfig

def effectiveCapacity (c : ConcatConfig) : Nat := max 1 (min c.batchCapacity maxBatch)

def effectiveRank (c : ConcatConfig) : Nat := min c.maxFusedRank TensorConcat.maxFusedRank

end ConcatConfig

/-- How the output is filled: by launches over batches of inputs, or by one copy
per input. -/
inductive Engine
  | fused (rank : Nat)
  | fallback
deriving Repr, DecidableEq

/-- What the output becomes and how it is filled. -/
structure Filling where
  shape : List Nat
  format : MemoryFormat
  engine : Engine
deriving Repr, DecidableEq

structure Plan where
  axis : Nat
  hasSkipped : Bool
  filling : Option Filling
deriving Repr, DecidableEq

namespace Plan

inductive Rejection
  | objection (objection : Objection)
  | rankMismatch (expected actual index : Nat)
  | extentMismatch (expected actual index axis : Nat)
deriving Repr, DecidableEq

/-- The planner's words for an objection. -/
def wording : Objection → String
  | .noInputs => "cat expects at least one tensor"
  | .notCastable common out =>
    "input type " ++ common.name ++ " can't be cast to the desired output type " ++ out.name
  | .inputOverlap index => "found overlap in input tensor " ++ toString index
  | .outputRepeats => "output tensor has internal overlap"
  | .axisOutOfRange dim rank =>
    "dimension " ++ toString dim ++ " out of range for rank " ++ toString rank

namespace Rejection

def code : Rejection → ViolationCode
  | objection o => o.code
  | rankMismatch _ _ _ | extentMismatch _ _ _ _ => .shapeMismatch

def detail : Rejection → String
  | objection o => wording o
  | rankMismatch expected actual index =>
    "tensors must have same number of dimensions: got " ++ toString expected ++ " and " ++
      toString actual ++ " for tensor number " ++ toString index
  | extentMismatch expected actual index axis =>
    "expected size " ++ toString expected ++ " but got size " ++ toString actual ++
      " for tensor number " ++ toString index ++ " in dimension " ++ toString axis

def failure (r : Rejection) : Failure := .backend (.violation ⟨r.code, some r.detail⟩)

end Rejection

/-- The first axis, other than the one that is joined, on which two lists of
extents differ. -/
def mismatch? (axis : Nat) (expected actual : List Nat) : Option Nat :=
  (List.range expected.length).find? fun i => i != axis && expected[i]? != actual[i]?

def checkExtents (reference : Tensor) (axis : Nat) (t : Tensor) (index : Nat) :
    Except Rejection Unit :=
  if reference.rank ≠ t.rank then .error (.rankMismatch reference.rank t.rank index)
  else
    match mismatch? axis reference.dims t.dims with
    | some i => .error (.extentMismatch (reference.dims.getD i 0) (t.dims.getD i 0) index i)
    | none => .ok ()

/-- Checks each input and adds up the extents of the joined axis. The sum is exact, whether or
not a word can hold it. -/
def joinedExtent (reference : Tensor) (axis : Nat) : List (Tensor × Nat) → Except Rejection Nat
  | [] => .ok 0
  | (t, index) :: rest => do
    checkExtents reference axis t index
    return t.dims.getD axis 0 + (← joinedExtent reference axis rest)

/-- Whether the fused engine can take the request: several inputs, none left out,
all of the output's type and dense in its format, everything countable in signed
32-bit numbers. -/
def fusible (config : ConcatConfig) (out : Tensor) (inputs : List Tensor) (shape : List Nat)
    (f : MemoryFormat) : Bool :=
  !config.forceFallback && 1 < inputs.length && inputs.all (!·.isSkipped) &&
    shape.length ≤ config.effectiveRank && volume shape ≤ 0x7FFFFFFF &&
    inputs.all (·.isContiguousIn f) && inputs.all (·.fitsSigned32) &&
    inputs.all (·.dtype == out.dtype)

def engineFor (config : ConcatConfig) (out : Tensor) (inputs : List Tensor) (shape : List Nat)
    (f : MemoryFormat) : Engine :=
  if fusible config out inputs shape f then .fused shape.length else .fallback

/-- The plan of a request, or why there is none. -/
def make (h : Heap) (config : ConcatConfig) (out : Tensor) (inputs : List Tensor) (dim : Int) :
    Except Rejection Plan :=
  match inputs with
  | [] => .error (.objection .noInputs)
  | first :: _ => do
    (checkOutput out inputs).mapError .objection
    let hasSkipped := inputs.any (·.isSkipped)
    match (live inputs).getLast? with
    | none => return ⟨dim.toNat, hasSkipped, none⟩
    | some (reference, _) =>
      let axis ← (checkAxis reference.rank dim).mapError .objection
      let extent ← joinedExtent reference axis (live inputs)
      let shape := reference.dims.set axis extent
      let f := first.suggestedFormat
      (checkTarget (out.target? shape f h) inputs).mapError .objection
      return ⟨axis, hasSkipped, some ⟨shape, f, engineFor config out inputs shape f⟩⟩

end Plan

end TensorConcat
