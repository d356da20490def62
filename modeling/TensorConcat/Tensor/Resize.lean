import TensorConcat.Tensor.View

/-!
# Resizing

A tensor is given a new shape, densely laid out, from the element it starts at.
Its storage is kept when it has room; otherwise a larger one takes its place,
which begins with the old bytes and goes on with zeros. Other views keep the old
storage, and no byte of it changes. The bytes that a shape takes are counted
exactly, also when there are more than a word can count.
-/

namespace TensorConcat.Tensor

/-- Bytes of storage that the tensor needs to hold a shape. -/
def bytesFor (t : Tensor) (dims : List Nat) : Nat := (t.offset + volume dims) * t.elementSize

def resize (t : Tensor) (dims : List Nat) (f : MemoryFormat) (h : Heap) :
    Except Failure (Tensor × Heap) := do
  checkShape dims
  if h.capacity t.storage < t.bytesFor dims then
    let (storage, h) ← h.allocate (h.bytes t.storage) (t.bytesFor dims)
    return ({ t with storage := storage, axes := f.axes dims }, h)
  else
    return ({ t with axes := f.axes dims }, h)

/-- What `resize` would make of the tensor, if its storage has room. -/
def target? (t : Tensor) (dims : List Nat) (f : MemoryFormat) (h : Heap) : Option Tensor :=
  if h.capacity t.storage < t.bytesFor dims then none else some { t with axes := f.axes dims }

def resizeTarget (t : Tensor) (dims : List Nat) (f : MemoryFormat) (h : Heap) :
    Except Failure (Option Tensor) := do
  checkShape dims
  return t.target? dims f h

end TensorConcat.Tensor
