import TensorConcat.Backend.Basic
import TensorConcat.SoftwareCasts

/-!
# Defective backends

Each defect turns a backend into one that breaks a single part of the contract:
the order or number of the inputs, the refusal of negative axes, the reuse of the
output's storage, the output's safety until a request is accepted, the memory
format of the result, or the kind of an error.
-/

namespace TensorConcat.Conformance

inductive Defect
  | reversed
  | dropLast
  | wrapNegative
  | freshStorage
  | clobber
  | rowMajor
  | executionErrors
deriving Repr, DecidableEq

namespace Defect

def all : List Defect :=
  [.reversed, .dropLast, .wrapNegative, .freshStorage, .clobber, .rowMajor, .executionErrors]

def name : Defect → String
  | reversed => "reversed"
  | dropLast => "drop_last"
  | wrapNegative => "wrap_negative"
  | freshStorage => "fresh_storage"
  | clobber => "clobber"
  | rowMajor => "row_major"
  | executionErrors => "execution_errors"

def ofName? (text : String) : Option Defect := all.find? (·.name == text)

/-- All inputs but the last; a single one is kept. -/
def withoutLast : List Tensor → List Tensor
  | [t] => [t]
  | inputs => inputs.dropLast

/-- The axis counted from the end of the first input. -/
def wrapped (inputs : List Tensor) (dim : Int) : Int :=
  if dim < 0 then dim + (inputs.head?.map (·.rank)).getD 1 else dim

def hideKind : Failure → Failure
  | .backend e => .backend (.execution (.reported e.message))
  | f => f

/-- The inputs in row-major order, one after another. -/
def rowMajorCopies (h : Heap) : List Tensor → Except Failure (List Tensor × Heap)
  | [] => .ok ([], h)
  | t :: rest => do
    let (copy, h) ← t.contiguous h
    let (copies, h) ← rowMajorCopies h rest
    return (copy :: copies, h)

def apply (d : Defect) (b : Backend) : Backend :=
  ⟨d.name, fun out inputs dim m =>
    match d with
    | reversed => b.catInto out inputs.reverse dim m
    | dropLast => b.catInto out (withoutLast inputs) dim m
    | wrapNegative => b.catInto out inputs (wrapped inputs dim) m
    | freshStorage =>
      match Tensor.undefined out.dtype m.heap with
      | .error e => ⟨.error e, out, m⟩
      | .ok (fresh, h) =>
        let o := b.catInto fresh inputs dim (m.withHeap h)
        match o.result with
        | .ok () => o
        | .error _ => { o with out }
    | clobber =>
      match out.resize [1] .contiguous m.heap with
      | .error e => ⟨.error e, out, m⟩
      | .ok (out, h) => b.catInto out inputs dim (m.withHeap h)
    | rowMajor =>
      match rowMajorCopies m.heap inputs with
      | .error e => ⟨.error e, out, m⟩
      | .ok (copies, h) => b.catInto out copies dim (m.withHeap h)
    | executionErrors =>
      let o := b.catInto out inputs dim m
      { o with result := o.result.mapError hideKind }⟩

end Defect

end TensorConcat.Conformance
