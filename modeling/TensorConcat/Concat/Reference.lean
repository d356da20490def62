import TensorConcat.Concat.Accelerator

/-!
# The reference concatenation

A plain route that uses no device. Every input that counts is read out in row-major
order in the output's type; the pieces are interleaved, one round for each index
of the axes before the joined one; the result is written over the resized output.
All inputs have been read before anything is written.

The checks are those of a plan, in the same order, but extents are compared with
those of the first input that counts, and the wording is its own.
-/

namespace TensorConcat.Reference

inductive Rejection
  | objection (objection : Objection)
  | shapeMismatch (expected actual : List Nat) (axis : Nat)
deriving Repr, DecidableEq

def wording : Objection → String
  | .noInputs => "concat expects at least one input"
  | .notCastable common out => "cannot cast " ++ common.name ++ " into " ++ out.name
  | .inputOverlap index => "input " ++ toString index ++ " overlaps the output"
  | .outputRepeats => "output has internal overlap"
  | .axisOutOfRange dim rank =>
    "concat axis " ++ toString dim ++ " out of range for rank " ++ toString rank

namespace Rejection

def code : Rejection → ViolationCode
  | objection o => o.code
  | shapeMismatch _ _ _ => .shapeMismatch

def detail : Rejection → String
  | objection o => wording o
  | shapeMismatch expected actual axis =>
    "concat dimension mismatch: " ++ listText expected ++ " vs " ++ listText actual ++
      " on axis " ++ toString axis

def failure (r : Rejection) : Failure := .backend (.violation ⟨r.code, some r.detail⟩)

end Rejection

/-- What an accepted request makes of the output. -/
structure Joined where
  axis : Nat
  shape : List Nat
  format : MemoryFormat
deriving Repr, DecidableEq

/-- Whether two lists of extents agree except on the joined axis. -/
def agree (axis : Nat) (expected actual : List Nat) : Bool :=
  expected.length == actual.length && expected.set axis 0 == actual.set axis 0

/-- Checks each input and adds up the extents of the joined axis, exactly. -/
def joinedExtent (first : Tensor) (axis : Nat) : List Tensor → Except Rejection Nat
  | [] => .ok 0
  | t :: rest => do
    if !agree axis first.dims t.dims then throw (.shapeMismatch first.dims t.dims axis)
    return t.dims.getD axis 0 + (← joinedExtent first axis rest)

/-- The effect of a request on the output's shape; `none` when no input counts. -/
def accept (h : Heap) (out : Tensor) (inputs : List Tensor) (dim : Int) :
    Except Rejection (Option Joined) :=
  match inputs with
  | [] => .error (.objection .noInputs)
  | head :: _ => do
    (checkOutput out inputs).mapError .objection
    match (live inputs).map (·.1) with
    | [] => return none
    | first :: rest =>
      let axis ← (checkAxis first.rank dim).mapError .objection
      let extent ← joinedExtent first axis (first :: rest)
      let shape := first.dims.set axis extent
      let f := head.suggestedFormat
      (checkTarget (out.target? shape f h) inputs).mapError .objection
      return some ⟨axis, shape, f⟩

/-- One input read out: its bytes, and how many of them each round takes. -/
structure Piece where
  chunk : Nat
  bytes : Array UInt8

def Piece.round (p : Piece) (n : Nat) : List UInt8 :=
  (p.bytes.extract (n * p.chunk) ((n + 1) * p.chunk)).toList

/-- Rounds of the pieces one after another. -/
def interleave (rounds : Nat) (pieces : List Piece) : List UInt8 :=
  (List.range rounds).flatMap fun n => pieces.flatMap (·.round n)

variable [FloatCasts]

def pieceOf (dtype : DType) (axis : Nat) (h : Heap) (t : Tensor) : Piece :=
  ⟨t.dims.getD axis 0 * (volume (t.dims.drop (axis + 1)) * dtype.size), (t.bytesAs dtype h).toArray⟩

/-- The row-major bytes of the result. -/
def joinedBytes (dtype : DType) (j : Joined) (inputs : List Tensor) (h : Heap) : List UInt8 :=
  if volume j.shape = 0 then []
  else interleave (volume (j.shape.take j.axis))
    ((live inputs).map fun p => pieceOf dtype j.axis h p.1)

def concatenate (out : Tensor) (inputs : List Tensor) (dim : Int) (m : Machine) : Outcome Unit :=
  match accept m.heap out inputs dim with
  | .error r => ⟨.error r.failure, out, m⟩
  | .ok none => ⟨.ok (), out, m⟩
  | .ok (some j) =>
    match out.resize j.shape j.format m.heap with
    | .error e => ⟨.error e, out, m⟩
    | .ok (resized, h) =>
      ⟨.ok (), resized,
        m.withHeap (resized.fill (joinedBytes out.dtype j inputs h).toArray h)⟩

end TensorConcat.Reference
