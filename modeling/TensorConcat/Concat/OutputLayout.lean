import TensorConcat.Number.Word
import TensorConcat.Tensor.Basic

/-!
# Where an input's elements go in the output

The geometry of an output in 32-bit words, with its axes ordered from outermost to
innermost by descending stride. `offsetOf` takes the number of an element of an
input, counted in the output's memory order over the input's own extents, apart
into one index per axis, and adds up the steps. The joined axis has the extent of
the input; all others have that of the output.
-/

namespace TensorConcat

open Number

structure OutputLayout where
  sizes : List UInt32
  strides : List UInt32
  order : List Nat
deriving Repr, DecidableEq

namespace OutputLayout

/-- Axes with equal strides keep their order. -/
def ofParts (sizes strides : List UInt32) : OutputLayout :=
  ⟨sizes, strides,
    (List.range sizes.length).mergeSort fun a b => strides.getD b 0 ≤ strides.getD a 0⟩

def outputWord (what : String) (n : Nat) : Except ExecutionCause UInt32 :=
  if n < 0x100000000 then .ok (UInt32.ofNat n) else .error (.outputIndex what n)

def axisWords (a : Axis) : Except ExecutionCause (UInt32 × UInt32) := do
  return (← outputWord "size" a.extent, ← outputWord "stride" a.stride)

def capture (rank : Nat) (out : Tensor) : Except ExecutionCause OutputLayout := do
  if out.rank ≠ rank then throw (.outputRank rank out.rank)
  let parts ← out.axes.mapM axisWords
  return ofParts (parts.map (·.1)) (parts.map (·.2))

/-- Extent of an axis in the input: its own along the joined axis. -/
def extentAt (l : OutputLayout) (dimSize : UInt32) (joined axis : Nat) : UInt32 :=
  if axis = joined then dimSize else l.sizes.getD axis 0

def strideAt (l : OutputLayout) (axis : Nat) : UInt32 := l.strides.getD axis 0

/-- Takes the indices of the given axes off a number, innermost first: the steps
they make, and what is left for the axes around them. -/
def peel (l : OutputLayout) (dimSize : UInt32) (joined : Nat) (linear : UInt32) :
    List Nat → Except Fault (UInt32 × UInt32)
  | [] => .ok (0, linear)
  | axis :: inner => do
    let (offset, linear) ← l.peel dimSize joined linear inner
    let extent := l.extentAt dimSize joined axis
    let next ← divWord linear extent
    let step ← mulWord (linear - extent * next) (l.strideAt axis)
    return (← addWord offset step, next)

def offsetOf (l : OutputLayout) (dimSize : UInt32) (joined : Nat) (linear : UInt32) :
    Except Fault UInt32 :=
  match l.order with
  | [] => .error .axisOutOfRange
  | outermost :: inner => do
    let (offset, left) ← l.peel dimSize joined linear inner
    addWord offset (← mulWord left (l.strideAt outermost))

end OutputLayout

end TensorConcat
