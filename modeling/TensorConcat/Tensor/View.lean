import TensorConcat.Tensor.Basic

/-!
# New tensors and views

Constructors allocate a storage of their own. Views share the storage of the
tensor they are taken from and write nothing: `asStrided` names a view outright
and checks that it stays in the storage, `narrow` cuts one axis down and moves
the start, `permute` reorders the axes. The checks compare exact sums.
-/

namespace TensorConcat.Tensor

/-- A shape has at least one axis. -/
def checkShape (dims : List Nat) : Except Failure Unit :=
  if dims.isEmpty then .error (.fault .emptyShape) else .ok ()

def zeros (dims : List Nat) (dtype : DType) (f : MemoryFormat) (h : Heap) :
    Except Failure (Tensor × Heap) := do
  checkShape dims
  let (storage, h) ← h.allocate #[] (volume dims * dtype.size)
  return (⟨storage, 0, f.axes dims, dtype⟩, h)

/-- The tensor that stands for none: one axis, no element. -/
def undefined (dtype : DType) (h : Heap) : Except Failure (Tensor × Heap) :=
  zeros [0] dtype .contiguous h

def ofBytes (dims : List Nat) (dtype : DType) (bytes : List UInt8) (h : Heap) :
    Except Failure (Tensor × Heap) := do
  checkShape dims
  let expected := volume dims * dtype.size
  if bytes.length ≠ expected then
    throw (.view (.payloadMismatch bytes.length dims dtype expected))
  let (storage, h) := h.push bytes.toArray
  return (⟨storage, 0, MemoryFormat.contiguous.axes dims, dtype⟩, h)

/-- A row-major tensor of whole elements, each given by its bytes. -/
def ofElements (dims : List Nat) (dtype : DType) (elements : List (List UInt8)) (h : Heap) :
    Except Failure (Tensor × Heap) := do
  checkShape dims
  if elements.length ≠ volume dims then
    throw (.view (.lengthMismatch elements.length dims))
  ofBytes dims dtype elements.flatten h

def ofBools (dims : List Nat) (values : List Bool) (h : Heap) : Except Failure (Tensor × Heap) :=
  ofElements dims .bool (values.map fun b => [if b then 1 else 0]) h

def asStrided (t : Tensor) (dims strides : List Nat) (offset : Nat) (h : Heap) :
    Except Failure Tensor := do
  checkShape dims
  if dims.length ≠ strides.length then throw (.view (.strideCount dims strides))
  let view : Tensor := { t with offset := offset, axes := Axis.pair dims strides }
  if 0 < view.numel then
    let needed := (offset + view.maxOffset + 1) * t.elementSize
    if h.capacity t.storage < needed then
      throw (.view (.outsideStorage needed (h.capacity t.storage)))
  return view

/-- The part of one axis from `start` on. An empty part keeps the old start. A range whose end
is no word lies outside of every axis here; for what words make of it see `narrowInWords`. -/
def narrow (t : Tensor) (axis start length : Nat) : Except ViewError Tensor :=
  match t.axes[axis]? with
  | none => .error (.narrowAxis axis t.rank)
  | some a =>
    if a.extent < start + length then
      .error (.narrowRange start (start + length) a.extent axis)
    else
      .ok { t with
        offset := if length = 0 then t.offset else t.offset + start * a.stride
        axes := t.axes.set axis { a with extent := length } }

/-- The axes in a new order: axis `i` of the result is axis `order[i]` of `t`. -/
def permute (t : Tensor) (order : List Nat) : Except ViewError Tensor :=
  if order.length ≠ t.rank then .error (.permuteRank t.rank order)
  else if order.all (· < t.rank) && order.Nodup then
    .ok { t with axes := order.filterMap (t.axes[·]?) }
  else .error (.notPermutation order)

/-- Consecutive parts of one axis with the given lengths. -/
def split (t : Tensor) (axis : Nat) (lengths : List Nat) : Except ViewError (List Tensor) :=
  go 0 lengths
where
  go (start : Nat) : List Nat → Except ViewError (List Tensor)
    | [] => .ok []
    | n :: ns => do
      let part ← t.narrow axis start n
      return part :: (← go (start + n) ns)

end TensorConcat.Tensor
