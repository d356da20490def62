import TensorConcat.Layout.Format
import TensorConcat.Memory.Heap

/-!
# Tensors

A tensor is a view of a storage: an element type, the element it starts at, and
its axes. Two tensors may look at the same storage, so what is written through
one is seen through the other. A view is dense when its positions are a run of
numbers without gap or repetition, in whatever order of the axes.

Sums and products of extents, strides and offsets are exact here, however large
they are. What becomes of them in 64-bit words that wrap round is told apart, in
`TensorConcat.Tensor.InWords`; where it could make a difference, a result asks
for sizes that are words.
-/

namespace TensorConcat

structure Tensor where
  storage : Nat
  offset : Nat
  axes : List Axis
  dtype : DType
deriving Repr, DecidableEq

/-- Whether each axis, innermost first, steps over just the elements before it. -/
def tiles (block : Nat) : List Axis → Bool
  | [] => true
  | a :: outer => a.stride == block && tiles (block * a.extent) outer

/-- A storage in words, under the given number; its place in memory is not shown. -/
def describeStorage (storage bytes : Nat) : String :=
  "Storage \x7b id: " ++ toString storage ++ ", ptr: ADDRESS, bytes: " ++ toString bytes ++ " \x7d"

namespace Tensor

def dims (t : Tensor) : List Nat := Axis.extents t.axes

def strides (t : Tensor) : List Nat := Axis.strides t.axes

def rank (t : Tensor) : Nat := t.axes.length

def numel (t : Tensor) : Nat := volume t.dims

def elementSize (t : Tensor) : Nat := t.dtype.size

def axis (t : Tensor) (axis : Nat) : Except Failure Axis :=
  match t.axes[axis]? with
  | some a => .ok a
  | none => .error (.fault .axisOutOfRange)

/-- The first byte of the first element. -/
def start (t : Tensor) : Nat := t.offset * t.elementSize

/-- A tensor that concatenation leaves out: one axis, no element. -/
def isSkipped (t : Tensor) : Bool := t.rank == 1 && t.numel == 0

def isContiguousIn (t : Tensor) (f : MemoryFormat) : Bool := f.holds t.axes

def isContiguous (t : Tensor) : Bool := t.isContiguousIn .contiguous

/-- The dense format the tensor is laid out in; row-major wins when both fit. -/
def suggestedFormat (t : Tensor) : MemoryFormat :=
  if 3 ≤ t.rank && !t.isContiguous && t.isContiguousIn .channelsLast then .channelsLast
  else .contiguous

/-- The axes that take steps, by ascending stride. -/
def steppingAxes (t : Tensor) : List Axis :=
  (t.axes.filter (·.extent != 1)).mergeSort (fun a b => a.stride ≤ b.stride)

def isDense (t : Tensor) : Bool := t.numel == 0 || tiles 1 t.steppingAxes

/-- The largest position the view can address. -/
def maxOffset (t : Tensor) : Nat := if t.numel = 0 then 0 else Axis.reach t.axes

/-- First byte and first byte after the part of the storage that the view spans. -/
def byteRange (t : Tensor) : Nat × Nat :=
  if t.numel = 0 then (t.start, t.start)
  else (t.start, t.start + (t.maxOffset + 1) * t.elementSize)

/-- Whether signed 32-bit numbers count and address all elements. -/
def fitsSigned32 (t : Tensor) : Bool :=
  t.numel ≤ 0x7FFFFFFF && t.maxOffset < 0x7FFFFFFF

/-- The tensor in words, its storage under the given number. -/
def describe (t : Tensor) (storage : Nat) : String :=
  "Tensor \x7b dtype: " ++ t.dtype.title ++ ", shape: " ++ listText t.dims ++ ", strides: " ++
    listText t.strides ++ ", storage_offset: " ++ toString t.offset ++ ", storage: " ++
    toString storage ++ " \x7d"

end Tensor

end TensorConcat
